import Mathlib.Logic.Equiv.List
import Tdvmm.Guest.Verdict
import Tdvmm.Vmm.Driver
import Tdvmm.Vmm.Run

/-!
# Guest.Integrity — the verdict from container to host

The agent's loop and the host's reader back to back. Whatever the containers and the
FIFO send and however the host drains, the verdict the host has recorded in the end is
the exit of the first `finish` of a container the agent accepted, and there is none if
none was accepted (`verdict_integrity`).
-/

namespace Tdvmm.Guest

open Lib Proto Vmm

variable {W U : Type}

/-- The verdict of a host that received `steps` and then drained once more. -/
def heard (hw : Uart U) (J : Json) (c : ControlChannel U) (steps : List HostStep)
    (lineNs : Nat → UInt64) : Option Verdict :=
  (({ com2 := c : Host U }.listen hw J steps).step hw J (.drain lineNs)).driver.verdict

/-- The steps of a host that received what was written, from an empty buffer. -/
def Receives (J : Json) (c : ControlChannel U) (steps : List HostStep) (wire : List Reply) : Prop :=
  c.serial.tx = [] ∧ steps.flatMap HostStep.bytes = stream J wire

def afterRounds (O : Outside W) (controlFd : Fd) (events ctl : Option Fd) (w : W)
    (answers : List Answer) : Loop W :=
  ((runLoop O answers).run (.boot controlFd events ctl O.shell.build w)).2

theorem Loop.Recorded.agentLines {s : Loop W} (h : s.Recorded) {J : Json}
    (hshort : ∀ r ∈ s.wire, (J.writeReply r).length ≤ TX_BUF_CAP) : AgentLines J s.wire := by
  refine ⟨hshort, ?_⟩
  intro r hr ev hev
  constructor
  · -- a `finish` event on the wire is that of an accepted request
    have hmem : ev ∈ s.verdicts := List.mem_filterMap.mpr ⟨r, hr, hev⟩
    rw [h.verdicts] at hmem
    obtain ⟨req, -, hreq⟩ := List.mem_map.mp hmem
    rw [← hreq]
    rfl
  · rcases h.bare r hr with hnone | ⟨seq, ev', hr'⟩
    · rw [verdictOf, hnone] at hev
      exact absurd hev (by simp)
    · refine ⟨seq, ?_⟩
      simp only [verdictOf, hr', Reply.fromEvent, Option.filter_eq_some_iff] at hev
      rw [hr', Option.some.inj hev.1]

theorem Loop.Recorded.heard {s : Loop W} (h : s.Recorded) {J : Json} (hJ : J.Documented)
    (hshort : ∀ r ∈ s.wire, (J.writeReply r).length ≤ TX_BUF_CAP) (hw : Uart U)
    {c : ControlChannel U} {steps : List HostStep} (hrecv : Receives J c steps s.wire)
    (lineNs : Nat → UInt64) :
    (heard hw J c steps lineNs).map (·.code) = s.accepted.head?.map fun req => req.exit.getD 0 := by
  unfold Guest.heard
  rw [verdict_listen hw hJ (h.agentLines hshort) hrecv.1 hrecv.2, ← List.head?_filterMap,
    show s.wire.filterMap verdictOf = _ from h.verdicts, List.head?_map, Option.map_map,
    Option.map_map]
  rfl

section Integrity

variable (O : Outside W) (hw : Uart U) (controlFd : Fd) (events ctl : Option Fd) (w : W)

/-- For every guest, every run of the agent's loop in which ttyS1 takes the lines and the
host sends `ping` and `logs` only, and every host that receives those lines, each within
the cap, and drains them:
1. the host's verdict is the exit of the first accepted `finish` of a container, 0 if it
   gave none, and there is no verdict if none was accepted;
2. the agent wrote at most one `finish` event;
3. its events are numbered 1, 2, 3 and so on;
4. a run that differs only in what the FIFO said gives the same verdict. -/
theorem verdict_integrity (hJ : O.json.Documented) (htty : ∀ n, O.tty n = true)
    (answers : List Answer)
    (hasks : (afterRounds O controlFd events ctl w answers).HostAsks)
    (hshort : ∀ r ∈ (afterRounds O controlFd events ctl w answers).wire,
      (O.json.writeReply r).length ≤ TX_BUF_CAP)
    (c : ControlChannel U) (steps : List HostStep) (lineNs : Nat → UInt64)
    (hrecv : Receives O.json c steps (afterRounds O controlFd events ctl w answers).wire) :
    (heard hw O.json c steps lineNs).map (·.code) =
        (afterRounds O controlFd events ctl w answers).accepted.head?.map
          (fun req => req.exit.getD 0) ∧
      (afterRounds O controlFd events ctl w answers).verdicts.length ≤ 1 ∧
      (afterRounds O controlFd events ctl w answers).numbers =
        (List.range (afterRounds O controlFd events ctl w answers).numbers.length).map
          (fun k => some (UInt64.ofNat (k + 1))) ∧
      ∀ answers' c' steps' lineNs', events.isSome = true →
        List.Forall₂ Answer.SameButFifo answers answers' →
        (∀ r ∈ (afterRounds O controlFd events ctl w answers').wire,
          (O.json.writeReply r).length ≤ TX_BUF_CAP) →
        Receives O.json c' steps' (afterRounds O controlFd events ctl w answers').wire →
        (heard hw O.json c' steps' lineNs').map (·.code) =
          (heard hw O.json c steps lineNs).map (·.code) := by
  have hrecorded := recorded_runLoop htty answers controlFd events ctl O.shell.build w hasks
  have hheard := hrecorded.heard hJ hshort hw hrecv lineNs
  refine ⟨hheard, ?_, hrecorded.numbers, ?_⟩
  · have hverdicts := hrecorded.verdicts
    unfold afterRounds
    rw [hverdicts, List.length_map]
    exact hrecorded.once
  · intro answers' c' steps' lineNs' hfifo hsame hshort' hrecv'
    -- what the FIFO says changes no request that is served, and so no verdict
    have hserved : (afterRounds O controlFd events ctl w answers).served =
        (afterRounds O controlFd events ctl w answers').served := by
      refine served_sameButFifo htty hsame ?_
      show (events.map _).isSome = true
      rw [Option.isSome_map]
      exact hfifo
    have hasks' : (afterRounds O controlFd events ctl w answers').HostAsks := by
      unfold Loop.HostAsks
      rw [← hserved]
      exact hasks
    have hrecorded' :=
      recorded_runLoop htty answers' controlFd events ctl O.shell.build w hasks'
    rw [hheard, hrecorded'.heard hJ hshort' hw hrecv' lineNs']
    have haccepted : (afterRounds O controlFd events ctl w answers').accepted =
        (afterRounds O controlFd events ctl w answers).accepted := by
      unfold Loop.accepted
      rw [hserved]
    exact congrArg (fun l : List Request => l.head?.map fun req => req.exit.getD 0) haccepted

end Integrity

/-! ## A codec, and a run -/

/-- The fields of a reply, but for the free-form part of its event. -/
abbrev ReplyFields :=
  (Option UInt64 × Option Bool × Option String × Option Int64) ×
  (Option String × Option String × Option String × Option UInt64) ×
  (Option (List ContainerInfo) × Option String × Option UInt32 × Option String) ×
  (Option String × Option UInt64 × Option Bool × Option UInt64) ×
  Option (String × String × Option Bool × Option Int64)

def fieldsOf (r : Reply) : ReplyFields :=
  ((r.id, r.ok, r.op, r.exit), (r.stdout, r.stderr, r.error, r.durMs),
    (r.containers, r.agent, r.schema, r.build), (r.data, r.nextCursor, r.eof, r.seq),
    r.event.map fun ev => (ev.kind, ev.name, ev.ok, ev.exit))

def replyOf : ReplyFields → Reply
  | ((id, ok, op, exit), (stdout, stderr, error, durMs), (containers, agent, schema, build),
      (data, nextCursor, eof, seq), event) =>
      { id, ok, op, exit, stdout, stderr, error, durMs, containers, agent, schema, build, data
        nextCursor, eof, seq
        event := event.map fun (kind, name, ok, exit) => { kind, name, ok, exit } }

theorem replyOf_fieldsOf (r : Reply) : replyOf (fieldsOf r) = r.sansDetails := by
  simp [replyOf, fieldsOf, Reply.sansDetails, Function.comp_def]

instance encodableChar : Encodable Char := .ofLeftInverse Char.toNat Char.ofNat Char.ofNat_toNat

instance encodableString : Encodable String :=
  .ofLeftInverse String.toList String.ofList fun _ => String.ofList_toList

instance encodableUInt32 : Encodable UInt32 :=
  .ofLeftInverse UInt32.toNat UInt32.ofNat fun _ => UInt32.ofNat_toNat

instance encodableUInt64 : Encodable UInt64 :=
  .ofLeftInverse UInt64.toNat UInt64.ofNat fun _ => UInt64.ofNat_toNat

instance encodableInt64 : Encodable Int64 :=
  .ofLeftInverse Int64.toUInt64 UInt64.toInt64 Int64.toInt64_toUInt64

instance encodableContainerInfo : Encodable ContainerInfo :=
  .ofLeftInverse (fun c => (c.name, c.service, c.state, c.exitCode, c.health))
    (fun (name, service, state, exitCode, health) => { name, service, state, exitCode, health })
    fun _ => rfl

def hasDetails (r : Reply) : Bool := (r.event.bind (·.details)).isSome

theorem hasDetails_eq_false {r : Reply} : hasDetails r = false ↔ r.sansDetails = r := by
  rcases r with ⟨_, _, _, _, _, _, _, _, _, _, _, _, _, _, _, _ | ⟨_, _, _, _, _ | _⟩, _⟩ <;>
    simp [hasDetails, Reply.sansDetails]

set_option synthInstance.maxSize 2048 in
def textOf (table : List (Reply × Bytes)) (r : Reply) : Option (Reply × Bytes) :=
  table.find? fun p => decide (fieldsOf p.1 = fieldsOf r) && hasDetails p.1 == hasDetails r

/-- A text for any reply: as many letters as the number of its fields among all fields. -/
def packed (r : Reply) : Bytes :=
  0x7b :: List.replicate (Encodable.encode (fieldsOf r)) 97 ++ [0x7d]

/-- A codec with the documented laws, given the texts of some replies and what it reads as
requests and events. -/
def packJson (table : List (Reply × Bytes)) (readRequest : Bytes → Except String Request)
    (readEvent : Bytes → Except String GuestEvent) : Json where
  writeReply r :=
    match textOf table r with
    | some p => p.2
    | none => packed r
  readReply text :=
    match table.find? fun p => p.2 = text with
    | some p => .ok p.1
    | none =>
      match Encodable.decode (text.count 97) with
      | some fields =>
        if text = packed (replyOf fields) then .ok (replyOf fields) else .error "not a reply"
      | none => .error "not a reply"
  readRequest := readRequest
  readEvent := readEvent

/-- The texts of a table are objects with a field, on one line, and different. -/
def Tabled (table : List (Reply × Bytes)) : Prop :=
  (table.map (·.2)).Nodup ∧
    ∀ p ∈ table, 10 ∉ p.2 ∧ p.2.take 2 = [0x7b, 0x22] ∧ p.2.getLast? = some 0x7d

instance (table : List (Reply × Bytes)) : Decidable (Tabled table) :=
  inferInstanceAs (Decidable (_ ∧ _))

section Documented

variable {table : List (Reply × Bytes)} {readRequest : Bytes → Except String Request}
  {readEvent : Bytes → Except String GuestEvent}

theorem find_packed (ht : Tabled table) (r : Reply) :
    table.find? (fun p => p.2 = packed r) = none := by
  rw [List.find?_eq_none]
  intro p hp htext
  have hstart := (ht.2 p hp).2.1
  rw [of_decide_eq_true htext, packed] at hstart
  -- the second byte is a letter or the closing brace, never a quote
  cases hn : Encodable.encode (fieldsOf r) <;> simp [hn, List.replicate_succ] at hstart

theorem fieldsOf_sansDetails (r : Reply) : fieldsOf r.sansDetails = fieldsOf r := by
  simp [fieldsOf, Reply.sansDetails, Function.comp_def]

theorem sansDetails_sansDetails (r : Reply) : r.sansDetails.sansDetails = r.sansDetails := by
  cases hev : r.event <;> simp [Reply.sansDetails, hev]

theorem packJson_read (ht : Tabled table) (r : Reply) :
    ∃ r', (packJson table readRequest readEvent).readReply
        ((packJson table readRequest readEvent).writeReply r) = .ok r' ∧
      r'.sansDetails = r.sansDetails ∧ (r.sansDetails = r → r' = r) := by
  dsimp only [packJson]
  cases hfind : textOf table r with
  | none =>
    have hcount : (packed r).count 97 = Encodable.encode (fieldsOf r) := by simp [packed]
    have hsame : packed (replyOf (fieldsOf r)) = packed r := by
      rw [packed, replyOf_fieldsOf, fieldsOf_sansDetails, packed]
    dsimp only
    rw [find_packed ht, hcount, Encodable.encodek]
    dsimp only
    rw [if_pos hsame.symm, replyOf_fieldsOf]
    exact ⟨_, rfl, sansDetails_sansDetails r, id⟩
  | some p =>
    -- its text is no other's
    have hp := List.mem_of_find?_eq_some hfind
    obtain ⟨q, hq⟩ : ∃ q, table.find? (fun x => x.2 = p.2) = some q :=
      Option.isSome_iff_exists.mp (List.find?_isSome.mpr ⟨p, hp, decide_eq_true rfl⟩)
    have htext : q.2 = p.2 := by simpa using List.find?_some hq
    have hqp := List.inj_on_of_nodup_map ht.1 (List.mem_of_find?_eq_some hq) hp htext
    obtain ⟨hfields, hdetails⟩ : fieldsOf p.1 = fieldsOf r ∧ hasDetails p.1 = hasDetails r := by
      simpa using List.find?_some hfind
    have hsame : p.1.sansDetails = r.sansDetails := by
      rw [← replyOf_fieldsOf p.1, hfields, replyOf_fieldsOf]
    dsimp only
    rw [hq, hqp]
    refine ⟨p.1, rfl, hsame, fun hr => ?_⟩
    have hp := hasDetails_eq_false.mp (hdetails.trans (hasDetails_eq_false.mpr hr))
    rw [← hp, hsame, hr]

theorem packJson_documented (ht : Tabled table) :
    (packJson table readRequest readEvent).Documented := by
  constructor
  · intro r
    dsimp only [packJson]
    split
    · rename_i p hfind
      obtain ⟨-, hstart, hlast⟩ := ht.2 p (List.mem_of_find?_eq_some hfind)
      obtain ⟨init, hinit⟩ := List.getLast?_eq_some_iff.mp hlast
      rw [hinit] at hstart ⊢
      cases init with
      | nil => simp at hstart
      | cons c init =>
        have hc : c = 0x7b := by simpa using congrArg List.head? hstart
        exact ⟨init, by rw [hc]⟩
    · exact ⟨List.replicate (Encodable.encode (fieldsOf r)) 97, rfl⟩
  · intro r
    dsimp only [packJson]
    split
    · rename_i p hfind
      exact (ht.2 p (List.mem_of_find?_eq_some hfind)).1
    · simp [packed]
  · intro r hr
    obtain ⟨r', hread, -, hsame⟩ := @packJson_read table readRequest readEvent ht r
    rw [hread, hsame hr]
  · intro r r' hr'
    obtain ⟨r'', hread, hsame, -⟩ := @packJson_read table readRequest readEvent ht r
    rw [hread] at hr'
    rw [← Except.ok.inj hr', hsame]

end Documented

instance (s : Loop W) : Decidable s.HostAsks :=
  inferInstanceAs (Decidable (∀ d ∈ s.served, d.source = .host →
    d.request.op = "ping" ∨ d.request.op = "logs"))

def bareShell : Shell Unit where
  podman _ := pure (.error "not found")
  podmanWithin _ _ := pure (.error "not found")
  nft _ := pure (.error "not found")
  enableBridgeNetfilter := pure ()
  openLog _ _ := pure .notFound
  elapsedMs := pure 0
  parsePs _ := .error "no census"
  toLowercase s := s
  build := "dev"

/-- A `ping` of the host, a `finish` of a container, and one forged on the FIFO. -/
def pingText : Bytes := utf8 "\x7b\"id\":2,\"op\":\"ping\"\x7d"

def finishText : Bytes := utf8 "\x7b\"id\":1,\"op\":\"finish\",\"exit\":3\x7d"

def forgedText : Bytes := utf8 "\x7b\"kind\":\"finish\",\"exit\":0\x7d"

/-- The lines of the agent: its hello, the reply to the `ping`, the `finish`, and the forged one as
it is passed on. -/
def replyTexts : List (Reply × Bytes) :=
  [(.hello AGENT_ID "dev",
    utf8 "\x7b\"agent\":\"tdvmm-agent/1\",\"schema\":4,\"build\":\"dev\"\x7d"),
   ({ id := some 2, ok := some true, op := some "ping", agent := some AGENT_ID
      schema := some SCHEMA
      build := some "dev" },
    utf8 "\x7b\"id\":2,\"ok\":true,\"op\":\"ping\",\"agent\":\"tdvmm-agent/1\",\"schema\":4," ++
      utf8 "\"build\":\"dev\"\x7d"),
   (.fromEvent 1 { kind := "finish", exit := some 3 },
    utf8 "\x7b\"event\":\x7b\"kind\":\"finish\",\"exit\":3\x7d,\"seq\":1\x7d"),
   (.fromEvent 2 { kind := "invalid", details := some (.object
      [("raw", .string "\x7b\"kind\":\"finish\",\"exit\":0\x7d"),
       ("rejected", .string "reserved event kind (agent-originated only)")]) },
    utf8 "\x7b\"event\":\x7b\"kind\":\"invalid\",\"details\":\x7b\"raw\":\"\x7b\\\"kind\\\":" ++
      utf8 "\\\"finish\\\",\\\"exit\\\":0\x7d\",\"rejected\":" ++
      utf8 "\"reserved event kind (agent-originated only)\"\x7d\x7d,\"seq\":2\x7d")]

def smallGuest : Outside Unit where
  shell := bareShell
  json := packJson replyTexts
    (fun line =>
      if line = finishText then .ok { id := 1, op := "finish", exit := some 3 }
      else if line = pingText then .ok { id := 2, op := "ping" }
      else .error "not a request")
    fun line =>
      if line = forgedText then .ok { kind := "finish", exit := some 0 } else .error "not an event"

theorem smallGuest_documented : smallGuest.json.Documented :=
  packJson_documented (show Tabled replyTexts by decide +kernel)

/-- A connection is accepted; then the host pings, the container on it finishes with 3
and is gone before the reply, and the FIFO has a forged `finish`. -/
def forgedRun : List Answer :=
  [{ poll := fun _ => some (· == 2), accept := some (7, true) },
    { poll := fun _ => some fun _ => true, control := .data (pingText ++ [10])
      conn := fun _ => .data (finishText ++ [10]), fifo := .data (forgedText ++ [10])
      sent := fun _ _ => false }]

theorem receives_arrive (J : Json) (wire : List Reply) :
    Receives J (⟨⟨(), false, []⟩, []⟩ : ControlChannel Unit) [.arrive (stream J wire)] wire :=
  ⟨rfl, List.flatMap_singleton _ _⟩

theorem verdict_integrity_forgedRun :
    (heard Uart.bare smallGuest.json ⟨⟨(), false, []⟩, []⟩
        [.arrive (stream smallGuest.json
          (afterRounds smallGuest 3 (some 4) (some 5) () forgedRun).wire)] fun _ => 0).map
        (·.code) = some 3 ∧
      (afterRounds smallGuest 3 (some 4) (some 5) () forgedRun).numbers = [some 1, some 2] := by
  obtain ⟨hverdict, -, -, -⟩ := verdict_integrity smallGuest Uart.bare 3 (some 4) (some 5) ()
    smallGuest_documented (fun _ => rfl) forgedRun (by decide +kernel) (by decide +kernel)
    ⟨⟨(), false, []⟩, []⟩ _ (fun _ => 0) (receives_arrive _ _)
  refine ⟨hverdict.trans ?_, ?_⟩
  · decide +kernel
  · decide +kernel

end Tdvmm.Guest
