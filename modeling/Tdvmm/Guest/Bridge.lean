import Tdvmm.Lib.Spool
import Tdvmm.Lib.Eff
import Tdvmm.Guest.Dispatch

/-!
# Guest.Bridge — the agent's loop over its sources

One blocked `poll` over the host's control channel (ttyS1), the events FIFO, the control socket
and its connections. An `Answer` is what one round finds outside: which entries of its poll set
are ready, what a read of each source returns, what `accept` gives, and which replies reach
their connection.

`wire` are the lines written to ttyS1, `served` the requests dispatched, both in order.
-/

namespace Tdvmm.Guest

open Lib Proto

def FIFO_EVENT_CAP : Nat := 4096

/-- A line longer than this is surfaced without its newline. -/
def RX_LINE_CAP : Nat := 64 * 1024

def MAX_CTL_CONNS : Nat := 32

/-! ## The line reader -/

/-- A reader that keeps what came after the last newline. -/
structure LineReader where
  buf : Bytes := []
deriving DecidableEq

namespace LineReader

def fill (r : LineReader) (bytes : Bytes) : LineReader := ⟨r.buf ++ bytes⟩

/-- The next line with its newline, or all of an unterminated one past the cap. -/
def next (r : LineReader) : Option (Bytes × LineReader) :=
  match r.buf.span (· ≠ 10) with
  | (line, nl :: rest) => some (line ++ [nl], ⟨rest⟩)
  | (_, []) => if r.buf.length > RX_LINE_CAP then some (r.buf, ⟨[]⟩) else none

def drainAux : Nat → LineReader → List Bytes × LineReader
  | 0, r => ([], r)
  | fuel + 1, r =>
    match r.next with
    | none => ([], r)
    | some (line, r) => ((line :: (drainAux fuel r).1), (drainAux fuel r).2)

/-- All lines there are. Every line takes a byte, so the buffer bounds their number. -/
def drain (r : LineReader) : List Bytes × LineReader := drainAux r.buf.length r

theorem next_cases (r : LineReader) :
    (∃ line later, r.buf = line ++ 10 :: later ∧ 10 ∉ line ∧
      r.next = some (line ++ [10], ⟨later⟩)) ∨
      (10 ∉ r.buf ∧ RX_LINE_CAP < r.buf.length ∧ r.next = some (r.buf, ⟨[]⟩)) ∨
      (10 ∉ r.buf ∧ r.buf.length ≤ RX_LINE_CAP ∧ r.next = none) := by
  unfold next
  rcases span_cases 10 r.buf with ⟨line, later, hbuf, hline, hspan⟩ | ⟨hfree, hspan⟩
  · rw [hspan]
    exact .inl ⟨line, later, hbuf, hline, rfl⟩
  · rw [hspan]
    rcases Nat.lt_or_ge RX_LINE_CAP r.buf.length with hlong | hshort
    · exact .inr (.inl ⟨hfree, hlong, if_pos hlong⟩)
    · exact .inr (.inr ⟨hfree, hshort, if_neg (Nat.not_lt.mpr hshort)⟩)

theorem next_buf {r r' : LineReader} {line : Bytes} (h : r.next = some (line, r')) :
    r.buf = line ++ r'.buf ∧ line ≠ [] := by
  rcases r.next_cases with ⟨front, later, hbuf, -, hnext⟩ | ⟨-, hlong, hnext⟩ | ⟨-, -, hnext⟩
  · obtain ⟨rfl, rfl⟩ := Prod.mk.inj (Option.some.inj (hnext.symm.trans h))
    rw [hbuf]
    simp
  · obtain ⟨rfl, rfl⟩ := Prod.mk.inj (Option.some.inj (hnext.symm.trans h))
    refine ⟨(List.append_nil _).symm, ?_⟩
    intro hnil
    simp [hnil] at hlong
  · rw [hnext] at h
    cases h

theorem next_shorter {r r' : LineReader} {line : Bytes} (h : r.next = some (line, r')) :
    r'.buf.length < r.buf.length := by
  rcases next_buf h with ⟨hbuf, hne⟩
  have hpos := List.length_pos_of_ne_nil hne
  rw [hbuf, List.length_append]
  omega

theorem drain_next (r : LineReader) : r.drain.2.next = none := by
  have aux : ∀ fuel (r : LineReader), r.buf.length ≤ fuel → (drainAux fuel r).2.next = none := by
    intro fuel
    induction fuel with
    | zero =>
      intro r hlen
      rcases hnext : r.next with _ | ⟨line, r'⟩
      · exact hnext
      · have hshort := next_shorter hnext
        omega
    | succ fuel ih =>
      intro r hlen
      unfold drainAux
      rcases hnext : r.next with _ | ⟨line, r'⟩
      · exact hnext
      · have hshort := next_shorter hnext
        exact ih r' (by omega)
  exact aux _ r (Nat.le_refl _)

end LineReader

/-! ## Events -/

def finishEvent (req : Request) : GuestEvent :=
  { kind := OP_FINISH, name := req.message.getD "", exit := some (req.exit.getD 0) }

/-- The mirror of a container's command. The details are a map, so in key order. -/
def ctlMirror (req : Request) (reply : Reply) : GuestEvent :=
  let field (key : String) (v : Option String) : List (String × Value) :=
    (v.map fun s => (key, Value.string s)).toList
  let details :=
    (if reply.ok ≠ some true then field "error" reply.error else []) ++
      field "peer" req.peer ++ field "service" req.container
  { kind := "ctl", name := req.op, ok := some (reply.ok == some true)
    details := if details.isEmpty then none else some (.object details) }

def badRequest (detail : String) : Reply :=
  { ok := some false, op := some "?", error := some (ErrorKind.badRequest.msg detail) }

/-- A FIFO line as an event. What is malformed or claims a kind of the agent's own is
an `invalid` event. -/
def parseEvent (J : Json) (line : Bytes) : GuestEvent :=
  let capped := (trimFrame line).take FIFO_EVENT_CAP
  let raw := Value.string (fromUtf8Lossy (capped.take 256))
  let invalid (details : List (String × Value)) : GuestEvent :=
    { kind := "invalid", details := some (.object details) }
  match J.readEvent capped with
  | .ok ev =>
    if isReservedEventKind ev.kind then
      invalid [("raw", raw),
        ("rejected", .string "reserved event kind (agent-originated only)")]
    else if ¬ ev.kind.isEmpty then ev
    else invalid [("raw", raw)]
  | .error _ => invalid [("raw", raw)]

/-! ## The state -/

abbrev Fd := Nat

structure Conn where
  fd : Fd
  rd : LineReader := {}

inductive Source where
  | host
  | container (fd : Fd)
deriving DecidableEq, Repr

structure Dispatched where
  source : Source
  request : Request
  reply : Reply

structure Loop (W : Type) where
  controlFd : Fd
  control : LineReader := {}
  events : Option (Fd × LineReader)
  ctl : Option Fd
  conns : List Conn := []
  seq : UInt64 := 0
  agent : Agent := {}
  world : W
  wire : List Reply := []
  served : List Dispatched := []

/-- One read: bytes, or end of file or an error. -/
inductive Read where
  | data (bytes : Bytes)
  | closed

/-- What one round of the loop finds outside. -/
structure Answer where
  /-- Which entries of the poll set are ready; `none` if `poll` fails. -/
  poll : List Fd → Option (Nat → Bool)
  /-- What a read of the control channel, of a connection, of the FIFO returns. -/
  control : Read := .closed
  conn : Fd → Read := fun _ => .closed
  fifo : Read := .closed
  /-- The descriptor `accept` gave, and whether a write half could be had. -/
  accept : Option (Fd × Bool) := none
  /-- Whether the reply to the `k`-th line of a connection reaches it. -/
  sent : Fd → Nat → Bool := fun _ _ => true

/-- The agent's surroundings: its shell, the codec, and whether the `n`-th line goes
out on ttyS1. -/
structure Outside (W : Type) where
  shell : Shell W
  json : Json
  tty : Nat → Bool := fun _ => true

namespace Loop

variable {W : Type}

/-- The state after `main` has sent the hello. -/
def boot (controlFd : Fd) (events ctl : Option Fd) (build : String) (world : W) : Loop W :=
  { controlFd := controlFd, events := events.map (·, {}), ctl := ctl, world := world
    wire := [.hello AGENT_ID build] }

/-! ## The poll set -/

def fds (s : Loop W) : List Fd :=
  s.controlFd :: (s.events.map (·.1)).toList ++ s.ctl.toList ++ s.conns.map (·.fd)

def iEvents (s : Loop W) : Option Nat := s.events.map fun _ => 1

def iCtl (s : Loop W) : Option Nat := s.ctl.map fun _ => 1 + s.events.toList.length

def connBase (s : Loop W) : Nat := 1 + s.events.toList.length + s.ctl.toList.length

end Loop

/-! ## One round -/

section Round

variable {W : Type} (O : Outside W)

abbrev LoopM (W : Type) := Eff Unit (Loop W)

def writeTty (r : Reply) : LoopM W Unit := do
  let s ← Eff.read
  if O.tty s.wire.length then Eff.update fun s => { s with wire := s.wire ++ [r] }
  else Eff.fail ()

def dispatch (source : Source) (req : Request) : LoopM W Reply := do
  let s ← Eff.read
  let ((reply, agent), world) := s.agent.handle O.shell req s.world
  Eff.update fun s =>
    { s with agent := agent, world := world, served := s.served ++ [⟨source, req, reply⟩] }
  return reply

def forward (ev : GuestEvent) : LoopM W Unit := do
  Eff.update fun s => { s with seq := s.seq + 1 }
  let s ← Eff.read
  writeTty O (.fromEvent s.seq ev)

def handleControlLine (line : Bytes) : LoopM W Unit := do
  if (trimFrame line).isEmpty then return
  match O.json.decodeRequest line with
  | .error e => writeTty O (badRequest e)
  | .ok req =>
    let reply ← dispatch O .host req
    writeTty O reply

/-- The event to forward for a connection's line, and whether the connection lives on.
`sent` is whether a reply reaches it. -/
def handleCtlLine (fd : Fd) (sent : Bool) (line : Bytes) : LoopM W (Option GuestEvent × Bool) := do
  if (trimFrame line).isEmpty then return (none, true)
  match O.json.decodeRequest line with
  | .error _ => return (none, sent)
  | .ok req =>
    let reply ← dispatch O (.container fd) req
    let event := if acceptedFinish req reply then finishEvent req else ctlMirror req reply
    return (some event, sent)

/-- Serve the lines of a connection; `true` if a reply did not reach it. -/
def serveLines (fd : Fd) (sent : Nat → Bool) : Nat → List Bytes → LoopM W Bool
  | _, [] => return false
  | k, line :: lines => do
    let (event, alive) ← handleCtlLine O fd (sent k) line
    match event with
    | some ev => forward O ev
    | none => pure ()
    if alive then serveLines fd sent (k + 1) lines else return true

/-- Serve a ready connection: what is left of it, and whether it is to be retired. -/
def serveConn (a : Answer) (c : Conn) : LoopM W (Conn × Bool) :=
  match a.conn c.fd with
  | .data bytes => do
    let drained := (c.rd.fill bytes).drain
    let broken ← serveLines O c.fd (a.sent c.fd) 0 drained.1
    return ({ c with rd := drained.2 }, broken)
  | .closed => return (c, true)

def serveReady (a : Answer) (ready : Bool) (c : Conn) : LoopM W (Conn × Bool) :=
  if ready then serveConn O a c else pure (c, false)

/-- The polled connections in turn, from the `n`-th on, and the places of the dead. -/
def serveConns (a : Answer) (ready : Nat → Bool) (base : Nat) :
    Nat → List Conn → LoopM W (List Conn × List Nat)
  | _, [] => return ([], [])
  | n, c :: cs => do
    let (c, dead) ← serveReady O a (ready (base + n)) c
    let (cs, deads) ← serveConns a ready base (n + 1) cs
    return (c :: cs, if dead then n :: deads else deads)

def serveControl (a : Answer) : LoopM W Unit := do
  let s ← Eff.read
  match a.control with
  | .data bytes =>
    let drained := (s.control.fill bytes).drain
    Eff.update fun s => { s with control := drained.2 }
    forM drained.1 (handleControlLine O)
  | .closed => Eff.fail ()

def acceptConn (a : Answer) : LoopM W Unit := do
  match a.accept with
  | some (fd, true) =>
    Eff.update fun s =>
      if s.conns.length < MAX_CTL_CONNS then { s with conns := s.conns ++ [{ fd := fd }] } else s
  | _ => pure ()

def serveEvents (a : Answer) : LoopM W Unit := do
  let s ← Eff.read
  match s.events with
  | none => pure ()
  | some (fd, rd) =>
    match a.fifo with
    | .data bytes =>
      let drained := (rd.fill bytes).drain
      Eff.update fun s => { s with events := some (fd, drained.2) }
      forM drained.1 fun line => forward O (parseEvent O.json line)
    | .closed => pure ()

/-- One round: the host first, then new connections, the polled connections, and the
FIFO. A connection accepted in this round is not in its poll set. -/
def round (a : Answer) : LoopM W Unit := do
  let s ← Eff.read
  let polledConns := s.conns.length
  match a.poll s.fds with
  | none => Eff.fail ()
  | some ready =>
    Eff.when (ready 0) (serveControl O a)
    Eff.when (s.iCtl.any ready) (acceptConn a)
    let now ← Eff.read
    let (polled, dead) ← serveConns O a ready s.connBase 0 (now.conns.take polledConns)
    Eff.update fun s =>
      { s with
        conns := dead.reverse.foldl List.eraseIdx (polled ++ s.conns.drop polledConns) }
    Eff.when (s.iEvents.any ready) (serveEvents O a)

def runLoop : List Answer → LoopM W Unit
  | [] => pure ()
  | a :: as => do
    round O a
    runLoop as

end Round

end Tdvmm.Guest
