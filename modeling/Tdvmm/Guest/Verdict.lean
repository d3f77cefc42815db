import Tdvmm.Guest.Bridge

/-!
# Guest.Verdict — what the agent tells the host

The invariant of the loop (`Loop.Recorded`) ties three things together: the requests served, the
verdict the agent recorded, and the events on the wire. An accepted `finish` of a container is
the only source of a `finish` event, there is at most one, and the events are numbered from 1 on
(`recorded_runLoop`).

The FIFO has no part in the rest of the state: two runs that differ only in what the FIFO said
serve the same requests (`served_sameButFifo`).
-/

namespace Tdvmm.Guest

open Lib Lib.Eff Proto

variable {W : Type}

namespace Loop

/-- The accepted `finish` requests of containers. -/
def accepted (s : Loop W) : List Request :=
  s.served.filterMap fun d =>
    if d.source ≠ .host ∧ acceptedFinish d.request d.reply then some d.request else none

def verdicts (s : Loop W) : List GuestEvent := s.wire.filterMap verdictOf

def numbers (s : Loop W) : List (Option UInt64) := (s.wire.filter (·.event.isSome)).map (·.seq)

def HostAsks (s : Loop W) : Prop :=
  ∀ d ∈ s.served, d.source = .host → d.request.op = "ping" ∨ d.request.op = "logs"

/-- The record, the requests and the wire agree. -/
structure Recorded (s : Loop W) : Prop where
  finished : s.agent.finished = s.accepted.head?.map fun req => req.exit.getD 0
  once : s.accepted.length ≤ 1
  verdicts : s.verdicts = s.accepted.map finishEvent
  numbers : s.numbers = (List.range s.numbers.length).map fun k => some (UInt64.ofNat (k + 1))
  seq : s.seq = UInt64.ofNat s.numbers.length
  bare : ∀ r ∈ s.wire, r.event = none ∨ ∃ seq ev, r = .fromEvent seq ev

/-! ## The state after a step -/

def said (s : Loop W) (r : Reply) : Loop W := { s with wire := s.wire ++ [r] }

def told (s : Loop W) (ev : GuestEvent) : Loop W :=
  { s with seq := s.seq + 1, wire := s.wire ++ [.fromEvent (s.seq + 1) ev] }

def replyTo (O : Outside W) (s : Loop W) (req : Request) : Reply :=
  (s.agent.handle O.shell req s.world).1.1

def answered (O : Outside W) (s : Loop W) (source : Source) (req : Request) : Loop W :=
  { s with
    agent := (s.agent.handle O.shell req s.world).1.2
    world := (s.agent.handle O.shell req s.world).2
    served := s.served ++ [⟨source, req, s.replyTo O req⟩] }

def eventFor (O : Outside W) (s : Loop W) (req : Request) : GuestEvent :=
  if acceptedFinish req (s.replyTo O req) then finishEvent req
  else ctlMirror req (s.replyTo O req)

def servedFor (O : Outside W) (s : Loop W) (fd : Fd) (req : Request) : Loop W :=
  (s.answered O (.container fd) req).told (s.eventFor O req)

variable {O : Outside W} {s : Loop W}

theorem accepted_answered (source : Source) (req : Request) :
    (s.answered O source req).accepted =
      s.accepted ++
        if source ≠ .host ∧ acceptedFinish req (s.replyTo O req) then [req] else [] := by
  unfold accepted answered
  rw [List.filterMap_append]
  split_ifs with h
  · simp [h]
  · simp only [List.filterMap_cons, if_neg h, List.filterMap_nil]

theorem verdicts_told (ev : GuestEvent) :
    (s.told ev).verdicts = s.verdicts ++ if ev.kind = OP_FINISH then [ev] else [] := by
  unfold verdicts told
  rw [List.filterMap_append]
  split_ifs with h <;> simp [verdictOf, Reply.fromEvent, Option.filter, h]

theorem numbers_told (ev : GuestEvent) :
    (s.told ev).numbers = s.numbers ++ [some (s.seq + 1)] := by
  simp [numbers, told, Reply.fromEvent]

/-! ## The record is kept -/

theorem recorded_boot (controlFd : Fd) (events ctl : Option Fd) (build : String) (w : W) :
    (boot controlFd events ctl build w).Recorded := by
  refine ⟨rfl, Nat.zero_le _, rfl, rfl, rfl, ?_⟩
  intro r hr
  rw [List.mem_singleton.mp hr]
  exact .inl rfl

theorem Recorded.said (h : s.Recorded) {r : Reply} (hr : r.event = none) :
    (s.said r).Recorded := by
  have hverdicts : (s.said r).verdicts = s.verdicts := by
    simp [Loop.verdicts, Loop.said, verdictOf, hr]
  have hnumbers : (s.said r).numbers = s.numbers := by
    simp [Loop.numbers, Loop.said, hr]
  constructor
  · exact h.finished
  · exact h.once
  · rw [hverdicts]
    exact h.verdicts
  · rw [hnumbers]
    exact h.numbers
  · rw [hnumbers]
    exact h.seq
  · intro x hx
    rcases List.mem_append.mp hx with hx | hx
    · exact h.bare x hx
    · rw [List.mem_singleton.mp hx]
      exact .inl hr

theorem Recorded.numbers_told (h : s.Recorded) (ev : GuestEvent) :
    (s.told ev).numbers =
        ((List.range (s.told ev).numbers.length).map fun k => some (UInt64.ofNat (k + 1))) ∧
      (s.told ev).seq = UInt64.ofNat (s.told ev).numbers.length := by
  have hseq : s.seq + 1 = UInt64.ofNat (s.numbers.length + 1) := by
    rw [h.seq, UInt64.ofNat_add]
    rfl
  rw [Loop.numbers_told, List.length_append, List.length_singleton, List.range_succ,
    List.map_append, ← h.numbers, hseq]
  exact ⟨rfl, hseq⟩

theorem Recorded.bare_told (h : s.Recorded) (ev : GuestEvent) :
    ∀ r ∈ (s.told ev).wire, r.event = none ∨ ∃ seq ev, r = .fromEvent seq ev := by
  intro r hr
  rcases List.mem_append.mp hr with hr | hr
  · exact h.bare r hr
  · exact .inr ⟨s.seq + 1, ev, List.mem_singleton.mp hr⟩

theorem Recorded.told (h : s.Recorded) {ev : GuestEvent} (hev : ev.kind ≠ OP_FINISH) :
    (s.told ev).Recorded := by
  obtain ⟨hnumbers, hseq⟩ := h.numbers_told ev
  refine ⟨h.finished, h.once, ?_, hnumbers, hseq, h.bare_told ev⟩
  rw [verdicts_told, if_neg hev, List.append_nil]
  exact h.verdicts

theorem Recorded.answered (h : s.Recorded) {source : Source} {req : Request}
    (hno : ¬ (source ≠ .host ∧ acceptedFinish req (s.replyTo O req) = true))
    (hkept : (s.agent.handle O.shell req s.world).1.2.finished = s.agent.finished) :
    (s.answered O source req).Recorded := by
  -- answering a request that is no accepted `finish` leaves the record as it is
  have haccepted : (s.answered O source req).accepted = s.accepted := by
    rw [accepted_answered, if_neg hno, List.append_nil]
  constructor
  · rw [haccepted]
    exact hkept.trans h.finished
  · rw [haccepted]
    exact h.once
  · rw [haccepted]
    exact h.verdicts
  · exact h.numbers
  · exact h.seq
  · exact h.bare

theorem kind_ctlMirror (req : Request) (reply : Reply) :
    (ctlMirror req reply).kind ≠ OP_FINISH := by
  show "ctl" ≠ "finish"
  decide

theorem Recorded.servedFor (h : s.Recorded) (fd : Fd) (req : Request) :
    (s.servedFor O fd req).Recorded := by
  by_cases hacc : acceptedFinish req (s.replyTo O req) = true
  · -- accepted, so no verdict was recorded before and none was served
    have hop : req.op = OP_FINISH := by
      simp only [acceptedFinish, Bool.and_eq_true, beq_iff_eq] at hacc
      exact hacc.1
    have hhandle : s.agent.handle O.shell req s.world = (doFinish s.agent req, s.world) :=
      handle_finish hop s.world
    have hreply : s.replyTo O req = (doFinish s.agent req).1 := by
      rw [replyTo, hhandle]
    rw [hreply] at hacc
    have hnone : s.agent.finished = none := (doFinish_accepted_iff hop).mp hacc
    have hfirst : s.accepted = [] := by
      have := h.finished
      rw [hnone, eq_comm, Option.map_eq_none_iff] at this
      exact List.head?_eq_none_iff.mp this
    have hevent : s.eventFor O req = finishEvent req := by
      rw [eventFor, hreply, if_pos hacc]
    have haccepted : (s.servedFor O fd req).accepted = [req] := by
      show (s.answered O (.container fd) req).accepted = _
      rw [accepted_answered, hfirst, hreply, if_pos ⟨by simp, hacc⟩, List.nil_append]
    obtain ⟨hnumbers, hseq⟩ := h.numbers_told (s.eventFor O req)
    constructor
    · rw [haccepted]
      show (s.agent.handle O.shell req s.world).1.2.finished = _
      rw [hhandle, doFinish_finished, hnone]
      rfl
    · rw [haccepted]
      exact Nat.le_refl 1
    · rw [haccepted]
      show ((s.answered O (.container fd) req).told (s.eventFor O req)).verdicts = _
      have hverdicts : (s.answered O (.container fd) req).verdicts = [] := by
        show s.verdicts = []
        rw [h.verdicts, hfirst]
        rfl
      rw [verdicts_told, hverdicts, hevent,
        if_pos (show (finishEvent req).kind = OP_FINISH from rfl)]
      rfl
    · exact hnumbers
    · exact hseq
    · exact h.bare_told _
  · -- not accepted: the record stays, and the event is only the mirror of the request
    have hkept : (s.agent.handle O.shell req s.world).1.2.finished = s.agent.finished := by
      by_cases hop : req.op = OP_FINISH
      · have hhandle : s.agent.handle O.shell req s.world = (doFinish s.agent req, s.world) :=
          handle_finish hop s.world
        rw [replyTo, hhandle, doFinish_accepted_iff hop] at hacc
        obtain ⟨first, hfirst⟩ := Option.ne_none_iff_exists'.mp hacc
        rw [hhandle, doFinish_finished, hfirst]
        rfl
      · exact handle_finished hop s.world
    have hevent : s.eventFor O req = ctlMirror req (s.replyTo O req) := by
      rw [eventFor, if_neg hacc]
    unfold Loop.servedFor
    rw [hevent]
    refine Recorded.told ?_ (kind_ctlMirror req _)
    exact h.answered (fun hno => hacc hno.2) hkept

end Loop

/-! ## Invariants of the loop -/

section Stable

variable (O : Outside W)

/-- One turn of the loop over the frames: whether the connection lives on. -/
def serveLine (fd : Fd) (sent : Bool) (line : Bytes) : LoopM W Bool := do
  let (event, alive) ← handleCtlLine O fd sent line
  match event with
  | some ev => forward O ev
  | none => pure ()
  return alive

/-- What no part of a round breaks, whatever it reads. -/
structure Stable (I : Loop W → Prop) : Prop where
  line : ∀ fd sent line, Keeps I (serveLine O fd sent line)
  control : ∀ line, Keeps I (handleControlLine O line)
  event : ∀ line, Keeps I (forward O (parseEvent O.json line))
  readers : ∀ s control events, I s → I { s with control := control, events := events }

variable {O} {I : Loop W → Prop} (hI : Stable O I)

theorem serveLines_cons (fd : Fd) (sent : Nat → Bool) (k : Nat) (line : Bytes)
    (lines : List Bytes) :
    serveLines O fd sent k (line :: lines) =
      serveLine O fd (sent k) line >>= fun alive =>
        if alive then serveLines O fd sent (k + 1) lines else return true := by
  rw [serveLines, serveLine, bind_assoc]
  refine congrArg _ (funext fun outcome => ?_)
  rcases outcome with ⟨_ | ev, alive⟩
  · rfl
  · simp only [bind_assoc, pure_bind]

include hI

theorem Stable.serveLines (fd : Fd) (sent : Nat → Bool) (k : Nat) (lines : List Bytes) :
    Keeps I (serveLines O fd sent k lines) := by
  induction lines generalizing k with
  | nil => exact keeps_pure _
  | cons line lines ih =>
    rw [serveLines_cons]
    refine (hI.line _ _ _).bind fun alive => ?_
    split
    · exact ih (k + 1)
    · exact keeps_pure _

theorem Stable.serveReady (a : Answer) (ready : Bool) (c : Conn) :
    Keeps I (serveReady O a ready c) := by
  unfold Guest.serveReady serveConn
  split
  · split
    · exact (hI.serveLines _ _ _ _).bind fun _ => keeps_pure _
    · exact keeps_pure _
  · exact keeps_pure _

theorem Stable.serveConns (a : Answer) (ready : Nat → Bool) (base n : Nat) (cs : List Conn) :
    Keeps I (serveConns O a ready base n cs) := by
  induction cs generalizing n with
  | nil => exact keeps_pure _
  | cons c cs ih =>
    exact (hI.serveReady a _ c).bind fun _ => (ih (n + 1)).bind fun _ => keeps_pure _

theorem Stable.serveControl (a : Answer) : Keeps I (serveControl O a) := by
  unfold Guest.serveControl
  refine keeps_read.bind fun s => ?_
  split
  · exact (keeps_update fun s hs => hI.readers s _ s.events hs).bind fun _ =>
      keeps_forM hI.control _
  · exact keeps_fail _

theorem Stable.serveEvents (a : Answer) : Keeps I (serveEvents O a) := by
  unfold Guest.serveEvents
  refine keeps_read.bind fun s => ?_
  split
  · exact keeps_pure _
  · split
    · exact (keeps_update fun s hs => hI.readers s s.control _ hs).bind fun _ =>
        keeps_forM hI.event _
    · exact keeps_pure _

/-- An invariant that is not about the connections holds after every run. -/
theorem Stable.runLoop (hconns : ∀ s conns, I s → I { s with conns := conns })
    (answers : List Answer) : Keeps I (runLoop O answers) := by
  have haccept (a : Answer) : Keeps I (acceptConn a : LoopM W Unit) := by
    unfold acceptConn
    split
    · refine keeps_update fun s hs => ?_
      split
      · exact hconns s _ hs
      · exact hs
    · exact keeps_pure _
  induction answers with
  | nil => exact keeps_pure _
  | cons a answers ih =>
    refine Keeps.bind (keeps_read.bind fun s => ?_) fun _ => ih
    split
    · exact keeps_fail _
    · exact ((hI.serveControl a).when _).bind fun _ => ((haccept a).when _).bind fun _ =>
        keeps_read.bind fun now => (hI.serveConns a _ _ 0 _).bind fun _ =>
          (keeps_update fun s hs => hconns s _ hs).bind fun _ => (hI.serveEvents a).when _

end Stable

/-! ## The computations -/

section Runs

variable {O : Outside W}

theorem run_dispatch (source : Source) (req : Request) (s : Loop W) :
    (dispatch O source req).run s = (.ok (s.replyTo O req), s.answered O source req) := rfl

theorem run_handleCtlLine (fd : Fd) (sent : Bool) (line : Bytes) (s : Loop W) :
    ∃ event alive s', (handleCtlLine O fd sent line).run s = (.ok (event, alive), s') ∧
      (event = none ∧ s' = s ∨
        ∃ req, event = some (s.eventFor O req) ∧ s' = s.answered O (.container fd) req) := by
  unfold handleCtlLine
  by_cases hblank : (trimFrame line).isEmpty = true
  · rw [if_pos hblank]
    exact ⟨none, true, s, rfl, .inl ⟨rfl, rfl⟩⟩
  · rw [if_neg hblank]
    cases hreq : O.json.decodeRequest line with
    | error e => exact ⟨none, sent, s, rfl, .inl ⟨rfl, rfl⟩⟩
    | ok req =>
      exact ⟨some (s.eventFor O req), sent, s.answered O (.container fd) req, rfl,
        .inr ⟨req, rfl, rfl⟩⟩

section Wired

variable (htty : ∀ n, O.tty n = true)
include htty

theorem run_writeTty (r : Reply) (s : Loop W) : (writeTty O r).run s = (.ok (), s.said r) := by
  unfold writeTty
  rw [run_read_bind, if_pos (htty _)]
  rfl

theorem run_forward (ev : GuestEvent) (s : Loop W) :
    (forward O ev).run s = (.ok (), s.told ev) := by
  unfold forward
  rw [run_update_bind, run_read_bind, run_writeTty htty]
  rfl

/-- The invariant: as far as the host kept to its ops, the record is right. -/
def Loop.Faithful (s : Loop W) : Prop := s.HostAsks → s.Recorded

omit htty in
theorem Loop.Faithful.frame {s s' : Loop W} (h : s.Faithful) (hagent : s'.agent = s.agent)
    (hseq : s'.seq = s.seq) (hwire : s'.wire = s.wire) (hserved : s'.served = s.served) :
    s'.Faithful := by
  -- it is about the record, the wire and the requests, not about the sources
  rcases s with ⟨_, _, _, _, _, seq, agent, _, wire, served⟩
  rcases s' with ⟨_, _, _, _, _, seq', agent', _, wire', served'⟩
  dsimp only at hagent hseq hwire hserved
  subst hagent hseq hwire hserved
  intro hasks
  obtain ⟨hfinished, honce, hverdicts, hnumbers, hcount, hbare⟩ := h hasks
  exact ⟨hfinished, honce, hverdicts, hnumbers, hcount, hbare⟩

omit htty in
theorem HostAsks.before {s : Loop W} {source : Source} {req : Request}
    (h : (s.answered O source req).HostAsks) : s.HostAsks :=
  fun d hd => h d (List.mem_append_left _ hd)

theorem keeps_serveLine (fd : Fd) (sent : Bool) (line : Bytes) :
    Keeps Loop.Faithful (serveLine O fd sent line) := by
  intro s hs
  unfold serveLine
  obtain ⟨event, alive, s', hrun, hcases⟩ := run_handleCtlLine (O := O) fd sent line s
  rw [run_bind_ok hrun]
  rcases hcases with ⟨rfl, rfl⟩ | ⟨req, rfl, rfl⟩
  · exact hs
  · rw [run_bind_ok (run_forward htty _ _)]
    exact fun hasks => (hs (HostAsks.before hasks)).servedFor fd req

theorem keeps_handleControlLine (line : Bytes) :
    Keeps Loop.Faithful (handleControlLine O line) := by
  unfold handleControlLine
  split
  · exact keeps_pure _
  · cases O.json.decodeRequest line with
    | error e =>
      intro s hs
      rw [run_writeTty htty]
      exact fun hasks => (hs hasks).said rfl
    | ok req =>
      intro s hs
      rw [run_bind_ok (run_dispatch .host req s), run_writeTty htty]
      intro hasks
      -- the request is among those served, so it is one of the host's two
      have hop : req.op = "ping" ∨ req.op = "logs" :=
        hasks ⟨.host, req, s.replyTo O req⟩
          (List.mem_append_right _ (List.mem_singleton_self _)) rfl
      have hother : req.op ≠ OP_FINISH := by
        rcases hop with hop | hop <;> rw [hop] <;> decide
      have hanswered : (s.answered O .host req).Recorded :=
        (hs (HostAsks.before hasks)).answered (fun hno => hno.1 rfl)
          (handle_finished hother s.world)
      exact hanswered.said (handle_event hop s.world)

omit htty in
theorem kind_parseEvent (J : Json) (line : Bytes) : (parseEvent J line).kind ≠ OP_FINISH := by
  have hinvalid : "invalid" ≠ OP_FINISH := by decide
  unfold parseEvent
  dsimp only
  cases J.readEvent ((trimFrame line).take FIFO_EVENT_CAP) with
  | error e => exact hinvalid
  | ok ev =>
    dsimp only
    split_ifs with hreserved hempty
    · exact hinvalid
    · exact hinvalid
    · intro hkind
      apply hreserved
      rw [hkind]
      decide

theorem stable_faithful : Stable O Loop.Faithful where
  line := keeps_serveLine htty
  control := keeps_handleControlLine htty
  event line s hs := by
    rw [run_forward htty]
    exact fun hasks => (hs hasks).told (kind_parseEvent O.json line)
  readers _ _ _ hs := hs.frame rfl rfl rfl rfl

theorem keeps_runLoop (answers : List Answer) : Keeps Loop.Faithful (runLoop O answers) :=
  (stable_faithful htty).runLoop (fun _ _ hs => hs.frame rfl rfl rfl rfl) answers

/-- After every run of the loop the record, the requests and the wire agree. -/
theorem recorded_runLoop (answers : List Answer) (controlFd : Fd) (events ctl : Option Fd)
    (build : String) (w : W)
    (hasks : ((runLoop O answers).run (.boot controlFd events ctl build w)).2.HostAsks) :
    ((runLoop O answers).run (.boot controlFd events ctl build w)).2.Recorded := by
  have hboot : (Loop.boot controlFd events ctl build w).Faithful :=
    fun _ => Loop.recorded_boot controlFd events ctl build w
  exact keeps_runLoop htty answers _ hboot hasks

/-! ## The FIFO apart -/

/-- The state without what came from the FIFO and without what was written. -/
def Loop.sansFifo (s : Loop W) : Loop W :=
  { s with events := s.events.map fun p => (p.1, {}), seq := 0, wire := [] }

/-- Two states of loops with a FIFO that are otherwise the same. -/
def Alike (s s' : Loop W) : Prop := s.sansFifo = s'.sansFifo ∧ s.events.isSome = true

omit htty in
theorem Alike.get {s s' : Loop W} (h : Alike s s') {β : Type} (f : Loop W → β)
    (hf : ∀ s, f s.sansFifo = f s) : f s = f s' := by
  rw [← hf s, ← hf s', h.1]

omit htty in
theorem Alike.withControl {s s' : Loop W} (h : Alike s s') (rd : LineReader) :
    Alike { s with control := rd } { s' with control := rd } :=
  ⟨congrArg (fun t : Loop W => { t with control := rd }) h.1, h.2⟩

omit htty in
theorem Alike.withConns {s s' : Loop W} (h : Alike s s') (cs : List Conn) :
    Alike { s with conns := cs } { s' with conns := cs } :=
  ⟨congrArg (fun t : Loop W => { t with conns := cs }) h.1, h.2⟩

/-- The same answers from everything but the FIFO, which is entry 1 of the poll set. -/
structure Answer.SameButFifo (a a' : Answer) : Prop where
  control : a.control = a'.control
  conn : a.conn = a'.conn
  accept : a.accept = a'.accept
  sent : a.sent = a'.sent
  poll : ∀ fds, Option.Rel (fun ready ready' : Nat → Bool => ∀ i ≠ 1, ready i = ready' i)
    (a.poll fds) (a'.poll fds)

theorem couples_writeTty (r r' : Reply) : Couples Alike (writeTty O r) (writeTty O r') := by
  intro s s' h
  rw [run_writeTty htty, run_writeTty htty]
  exact ⟨rfl, h⟩

theorem couples_forward (ev ev' : GuestEvent) :
    Couples Alike (forward O ev) (forward O ev') := by
  intro s s' h
  rw [run_forward htty, run_forward htty]
  exact ⟨rfl, h⟩

omit htty in
theorem couples_dispatch (source : Source) (req : Request) :
    Couples Alike (dispatch O source req) (dispatch O source req) := by
  intro s s' h
  rw [run_dispatch, run_dispatch]
  -- the reply and the next state read only what the two states share
  have hreply : s.sansFifo.replyTo O req = s'.sansFifo.replyTo O req := by rw [h.1]
  have hnext : s.sansFifo.answered O source req = s'.sansFifo.answered O source req := by rw [h.1]
  exact ⟨congrArg Except.ok hreply, hnext, h.2⟩

theorem couples_handleControlLine (line : Bytes) :
    Couples Alike (handleControlLine O line) (handleControlLine O line) := by
  unfold handleControlLine
  split
  · exact couples_pure _
  · cases O.json.decodeRequest line with
    | error e => exact couples_writeTty htty _ _
    | ok req => exact (couples_dispatch .host req).bind fun reply => couples_writeTty htty _ _

omit htty in
theorem couples_handleCtlLine (fd : Fd) (sent : Bool) (line : Bytes) :
    Couples Alike (handleCtlLine O fd sent line) (handleCtlLine O fd sent line) := by
  unfold handleCtlLine
  split
  · exact couples_pure _
  · cases O.json.decodeRequest line with
    | error e => exact couples_pure _
    | ok req => exact (couples_dispatch _ req).bind fun reply => couples_pure _

theorem couples_serveLines (fd : Fd) (sent : Nat → Bool) (k : Nat) (lines : List Bytes) :
    Couples Alike (serveLines O fd sent k lines) (serveLines O fd sent k lines) := by
  induction lines generalizing k with
  | nil => exact couples_pure _
  | cons line lines ih =>
    have hrest (alive : Bool) :
        Couples Alike (if alive = true then serveLines O fd sent (k + 1) lines else pure true)
          (if alive = true then serveLines O fd sent (k + 1) lines else pure true) := by
      cases alive with
      | true => exact ih (k + 1)
      | false => exact couples_pure _
    refine (couples_handleCtlLine fd (sent k) line).bind fun outcome => ?_
    rcases outcome with ⟨_ | ev, alive⟩
    · exact hrest alive
    · exact (couples_forward htty ev ev).bind fun _ => hrest alive

section Answers

variable {a a' : Answer} (hsame : a.SameButFifo a')
include hsame

theorem couples_serveConn (c : Conn) :
    Couples Alike (serveConn O a c) (serveConn O a' c) := by
  unfold serveConn
  rw [← hsame.conn, ← hsame.sent]
  cases a.conn c.fd with
  | data bytes => exact (couples_serveLines htty _ _ _ _).bind fun _ => couples_pure _
  | closed => exact couples_pure _

theorem couples_serveConns {ready ready' : Nat → Bool} (hready : ∀ i ≠ 1, ready i = ready' i)
    {base : Nat} (hbase : 1 < base) (n : Nat) (cs : List Conn) :
    Couples Alike (serveConns O a ready base n cs) (serveConns O a' ready' base n cs) := by
  induction cs generalizing n with
  | nil => exact couples_pure _
  | cons c cs ih =>
    refine Couples.bind ?_ fun _ => (ih (n + 1)).bind fun _ => couples_pure _
    unfold serveReady
    rw [← hready (base + n) (by omega)]
    split
    · exact couples_serveConn htty hsame c
    · exact couples_pure _

theorem couples_serveControl : Couples Alike (serveControl O a) (serveControl O a') := by
  refine couples_read_bind fun s s' h => ?_
  have hreader : s.control = s'.control := h.get Loop.control fun _ => rfl
  rw [← hsame.control, ← hreader]
  cases a.control with
  | closed => exact ⟨rfl, h⟩
  | data bytes =>
    refine Couples.bind (couples_update ?_)
      (fun _ => couples_forM (couples_handleControlLine htty) _) s s' h
    exact fun t t' ht => ht.withControl _

omit htty in
theorem couples_acceptConn :
    Couples Alike (acceptConn a : LoopM W Unit) (acceptConn a') := by
  unfold acceptConn
  rw [← hsame.accept]
  rcases a.accept with _ | ⟨fd, _ | _⟩
  · exact couples_pure _
  · exact couples_pure _
  · refine couples_update fun t t' ht => ?_
    have hconns : t.conns = t'.conns := ht.get Loop.conns fun _ => rfl
    rw [← hconns]
    split
    · exact ht.withConns _
    · exact ht

end Answers

theorem run_serveEvents (a : Answer) {s : Loop W} (h : s.events.isSome = true) :
    ((serveEvents O a).run s).1 = .ok () ∧
      ((serveEvents O a).run s).2.sansFifo = s.sansFifo ∧
      ((serveEvents O a).run s).2.events.isSome = true := by
  have hlines : ∀ (lines : List Bytes) (t : Loop W), t.events.isSome = true →
      ((forM lines fun line => forward O (parseEvent O.json line)).run t).1 = .ok () ∧
      ((forM lines fun line => forward O (parseEvent O.json line)).run t).2.sansFifo =
        t.sansFifo ∧
      ((forM lines fun line => forward O (parseEvent O.json line)).run t).2.events.isSome =
        true := by
    intro lines
    induction lines with
    | nil => exact fun t ht => ⟨rfl, rfl, ht⟩
    | cons line lines ih =>
      intro t ht
      rw [List.forM_cons, run_bind_ok (run_forward htty _ t)]
      exact ih _ ht
  obtain ⟨⟨fd, rd⟩, hfifo⟩ := Option.isSome_iff_exists.mp h
  unfold serveEvents
  rw [run_read_bind, hfifo]
  cases a.fifo with
  | closed => exact ⟨rfl, rfl, h⟩
  | data bytes =>
    obtain ⟨hok, hsame, hsome⟩ := hlines (rd.fill bytes).drain.1
      { s with events := some (fd, (rd.fill bytes).drain.2) } rfl
    refine ⟨hok, hsame.trans ?_, hsome⟩
    unfold Loop.sansFifo
    rw [hfifo]
    rfl

theorem couples_serveEvents (a a' : Answer) (c c' : Bool) :
    Couples Alike (Eff.when c (serveEvents O a)) (Eff.when c' (serveEvents O a')) := by
  have hone : ∀ (a : Answer) (c : Bool) (s : Loop W), s.events.isSome = true →
      ((Eff.when c (serveEvents O a)).run s).1 = .ok () ∧
      ((Eff.when c (serveEvents O a)).run s).2.sansFifo = s.sansFifo ∧
      ((Eff.when c (serveEvents O a)).run s).2.events.isSome = true := by
    intro a c s hs
    cases c with
    | true => exact run_serveEvents htty a hs
    | false => exact ⟨rfl, rfl, hs⟩
  intro s s' h
  have hsome : s'.events.isSome = true := by
    have hevents : s.events.map (fun p => (p.1, ({} : LineReader))) =
        s'.events.map fun p => (p.1, {}) :=
      congrArg Loop.events h.1
    have := congrArg Option.isSome hevents
    rw [Option.isSome_map, Option.isSome_map] at this
    exact this ▸ h.2
  obtain ⟨hok, hleft, hkept⟩ := hone a c s h.2
  obtain ⟨hok', hright, -⟩ := hone a' c' s' hsome
  exact ⟨hok.trans hok'.symm, hleft.trans (h.1.trans hright.symm), hkept⟩

theorem couples_round {a a' : Answer} (hsame : a.SameButFifo a') :
    Couples Alike (round O a) (round O a') := by
  refine couples_read_bind fun s s' h => ?_
  have hfds : s.fds = s'.fds := h.get Loop.fds fun s => by
    simp [Loop.fds, Loop.sansFifo, Function.comp_def]
  have hctl : s.iCtl = s'.iCtl := h.get Loop.iCtl fun s => by
    cases hs : s.events <;> simp [Loop.iCtl, Loop.sansFifo, hs]
  have hbase : s.connBase = s'.connBase := h.get Loop.connBase fun s => by
    cases hs : s.events <;> simp [Loop.connBase, Loop.sansFifo, hs]
  have hlength : s.conns.length = s'.conns.length := h.get (·.conns.length) fun _ => rfl
  -- with a FIFO the control socket and the connections come after it in the poll set
  have hpast : 1 < s.connBase := by
    obtain ⟨p, hp⟩ := Option.isSome_iff_exists.mp h.2
    simp only [Loop.connBase, hp, Option.toList_some, List.length_singleton]
    omega
  have hindex : ∀ i, s.iCtl = some i → i ≠ 1 := by
    intro i hi
    obtain ⟨p, hp⟩ := Option.isSome_iff_exists.mp h.2
    simp only [Loop.iCtl, hp, Option.map_eq_some_iff, Option.toList_some,
      List.length_singleton] at hi
    omega
  dsimp only
  rw [← hfds, ← hctl, ← hbase, ← hlength]
  have hpoll := hsame.poll s.fds
  generalize a.poll s.fds = r, a'.poll s.fds = r' at hpoll
  rcases hpoll with hready | _
  · rename_i ready ready'
    have hany : s.iCtl.any ready = s.iCtl.any ready' := by
      cases hi : s.iCtl with
      | none => rfl
      | some i => exact hready i (hindex i hi)
    dsimp only
    rw [← hready 0 (by decide), ← hany]
    refine (((couples_serveControl htty hsame).when _).bind fun _ =>
      ((couples_acceptConn hsame).when _).bind fun _ => couples_read_bind ?_) s s' h
    intro t t' ht
    have hconns : t.conns = t'.conns := ht.get Loop.conns fun _ => rfl
    rw [← hconns]
    refine ((couples_serveConns htty hsame hready hpast 0 _).bind fun p =>
      Couples.bind (couples_update ?_) fun _ => couples_serveEvents htty a a' _ _) t t' ht
    intro u u' hu
    have hconns' : u.conns = u'.conns := hu.get Loop.conns fun _ => rfl
    rw [← hconns']
    exact hu.withConns _
  · exact ⟨rfl, h⟩

/-- Two runs that differ only in what the FIFO said serve the same requests. -/
theorem served_sameButFifo {answers answers' : List Answer}
    (hsame : List.Forall₂ Answer.SameButFifo answers answers') {s : Loop W}
    (hs : s.events.isSome = true) :
    ((runLoop O answers).run s).2.served = ((runLoop O answers').run s).2.served := by
  have hrun : Couples Alike (runLoop O answers) (runLoop O answers') := by
    induction hsame with
    | nil => exact couples_pure _
    | cons ha _ ih => exact (couples_round htty ha).bind fun _ => ih
  exact (hrun s s ⟨rfl, hs⟩).2.get Loop.served fun _ => rfl

end Wired

end Runs

end Tdvmm.Guest
