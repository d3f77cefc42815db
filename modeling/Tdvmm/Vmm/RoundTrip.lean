import Tdvmm.Proto.Control
import Tdvmm.Vmm.Capture
import Tdvmm.Vmm.Equivalence
import Tdvmm.Vmm.Framing

/-!
# Vmm.RoundTrip — one request of the log capture

`drive_until_reply` of `src/main.rs`: queue a request, then drive the guest until a line with
the wanted id comes back, the budget is used up, or the guest dies.

The park never finds a line. The search has gone through all lines when the guest halts, and a
halted guest writes none (`parked_quiet`). The search finds the first line that decodes with the
wanted id as long as the lines it reads are whole; of a line that outgrew the buffer it reads
what came after the last overflow, and that may decode otherwise than the line
(`capture_reply_iff`).

The doorbell is left out: it decides when `KVM_RUN` comes back, not with what.
-/

namespace Tdvmm.Vmm

open Lib Proto Egress

variable {U D : Type}

/-! ## The model -/

/-- The board during a capture. `drained` and `pending` are for the proofs only: what
the guest wrote on COM2 between the searches made so far, and since the last one. -/
structure Capture (U D : Type) where
  board : Board U D
  drained : List Bytes := []
  pending : Bytes := []

def Capture.tx (c : Capture U D) : Bytes := c.board.machine.com2.serial.tx

abbrev CaptureM (U D : Type) := Eff Abort (Capture U D)

def onMachine {α : Type} (x : VmmM U D α) : CaptureM U D α := fun c =>
  let (res, m) := x.run c.board.machine
  (res, { c with board := { c.board with machine := m } })

/-- What one iteration of the loop finds outside. The stamps of agent lines in `loop`
are not used. -/
structure DriveInput where
  /-- The wall-clock deadline has passed. -/
  wallPassed : Bool
  /-- The vtsc of the clock readings of the exit. -/
  now : Nat → UInt64
  loop : LoopInput

/-- What the loop does after an iteration. -/
inductive DriveNext where
  | run
  | park
  | replied (rep : Reply)
  | gaveUp
  | dead

/-- The devices see the exit as an access. -/
def Exit.access : Exit → Option Access
  | .ioOut port data => some (.ioOut port data)
  | .ioIn port len => some (.ioIn port (List.replicate len 0))
  | .mmioRead addr => some (.mmioRead addr [0, 0, 0, 0])
  | .mmioWrite addr data _ => some (.mmioWrite addr data)
  | _ => none

/-- What COM2 emits for these bytes written to one of its registers. -/
def transmitted (hw : Uart U) (off : UInt8) : U → Bytes → Bytes
  | _, [] => []
  | u, b :: bs => (hw.write u off b).2.1 ++ transmitted hw off (hw.write u off b).1 bs

section Drive

variable (P : Platform U D) (J : Json) (sink : D) (want : UInt64)

/-- What the guest writes on COM2 in an exit. -/
def Access.written (u : U) : Access → Bytes
  | .ioOut port data =>
    if portHandles SERIAL_PORT_BASE port then []
    else if ControlChannel.handles port then
      transmitted P.uart (port - SERIAL2_PORT_BASE).toUInt8 u data
    else []
  | _ => []

/-- The reply in a line, if it has the wanted id. -/
def answersTo (line : Bytes) : Option Reply :=
  match J.decodeReply line with
  | .ok rep => if rep.id = some want then some rep else none
  | .error _ => none

/-- Drop the lines left over from the run. -/
def dropStale : Nat → ControlChannel U → ControlChannel U
  | 0, c => c
  | fuel + 1, c =>
    match c.pollLine with
    | (some _, c) => dropStale fuel c
    | (none, c) => c

/-- The search for the reply. Every line takes its newline out of the buffer, so the
buffer bounds the rounds. -/
def drainReplies : Nat → Machine U D → Option Reply × Machine U D
  | 0, m => (none, m)
  | fuel + 1, m =>
    match m.com2.pollLine with
    | (none, com2) => (none, { m with com2 := com2 })
    | (some line, com2) =>
      match answersTo J want line with
      | some rep => (some rep, { m with com2 := com2 })
      | none => drainReplies fuel (com2Pump P { m with com2 := com2 })

def replyLines : CaptureM U D (Option Reply) := fun c =>
  match drainReplies P J want c.tx.length c.board.machine with
  | (some rep, m) => (.ok (some rep), { c with board := { c.board with machine := m } })
  | (none, m) =>
    (.ok none,
      { board := { c.board with machine := m }
        drained := c.drained ++ [c.pending]
        pending := [] })

def serveAccess (now : Nat → UInt64) (a : Access) (c : Capture U D) : Capture U D :=
  { c with
    board := (captureExit P now c.board a).2
    pending := c.pending ++ a.written P c.board.machine.com2.serial.uart }

/-- A park of the capture starts with a driver of its own. -/
def throwaway (c : Capture U D) : Capture U D :=
  { c with board := { c.board with machine := { c.board.machine with driver := sink } } }

def driveExit (now : Nat → UInt64) (e : Exit) : CaptureM U D DriveNext :=
  match e.access with
  | some a => do
    Eff.update (serveAccess P now a)
    return .run
  | none =>
    match e with
    | .hlt true => do
      Eff.update (throwaway sink)
      return .park
    | .hlt false | .runFailed | .shutdown | .systemEvent | .failEntry | .internalError =>
      return .dead
    | _ => return .run

/-- From the devices on: the search, egress, injection, and one `KVM_RUN`. -/
def searchAndRun (i : DriveInput) : CaptureM U D DriveNext := do
  onMachine (Eff.update (com2Pump P))
  match ← replyLines P J want with
  | some rep => return .replied rep
  | none => do
    onMachine (egressPump P i.loop.env)
    onMachine (inject i.loop)
    driveExit P sink i.now i.loop.exit

def driveTurn (i : DriveInput) : CaptureM U D DriveNext := do
  if i.wallPassed then return .gaveUp
  else if ← onMachine (boundary i.loop.hostTsc) then return .gaveUp
  else searchAndRun P J sink want i

/-! ## Runs -/

/-- Where the round trip is. A failure is an error for the source, but for `stuck`. -/
inductive DriveMode where
  | driving
  | parked
  | replied (rep : Reply)
  | gaveUp
  | dead
  | failed (a : Abort)

structure Drive (U D : Type) where
  capture : Capture U D
  mode : DriveMode

inductive DriveStep where
  | iterate (i : DriveInput)
  | park (i : ParkInput)

def DriveMode.afterTurn : Except Abort DriveNext → DriveMode
  | .ok .run => .driving
  | .ok .park => .parked
  | .ok (.replied rep) => .replied rep
  | .ok .gaveUp => .gaveUp
  | .ok .dead => .dead
  | .error a => .failed a

/-- A verdict cannot arise here, and would be ignored. -/
def DriveMode.afterPark : Except Abort Turn → DriveMode
  | .ok (.returned .deliverable) => .driving
  | .ok (.returned .driverFinish) => .driving
  | .ok (.returned .horizon) => .gaveUp
  | .ok _ => .parked
  | .error a => .failed a

def Drive.iterated (s : Drive U D) (i : DriveInput) : Drive U D :=
  let (res, c) := (driveTurn P J sink want i).run s.capture
  ⟨c, .afterTurn res⟩

def Drive.turned (s : Drive U D) (i : ParkInput) : Drive U D :=
  let (res, c) := (onMachine (parkTurn P i)).run s.capture
  ⟨c, .afterPark res⟩

/-- One step. An input the round trip does not ask for is left unread. -/
def Drive.step (s : Drive U D) : DriveStep → Drive U D
  | .iterate i =>
    match s.mode with
    | .driving => s.iterated P J sink want i
    | _ => s
  | .park i =>
    match s.mode with
    | .parked => s.turned P i
    | _ => s

/-- Drop what is stale, queue the request, and feed it. -/
def Board.request (b : Board U D) (framed : Bytes) (horizon : UInt64) : Drive U D :=
  let com2 := dropStale b.machine.com2.serial.tx.length b.machine.com2
  let m := { b.machine with
    com2 := com2.sendFrame framed, horizon := some horizon, vtscStart := 0 }
  ⟨{ board := { b with machine := com2Pump P m } }, .driving⟩

/-- `drive_until_reply` on what it finds outside. -/
def driveUntilReply (b : Board U D) (framed : Bytes) (horizon : UInt64)
    (steps : List DriveStep) : Drive U D :=
  steps.foldl (Drive.step P J sink want) (b.request P framed horizon)

end Drive

/-! ## Steps that leave COM2 alone -/

section Frame

open Eff

variable (P : Platform U D) {c : ControlChannel U}

def HasCom2 (c : ControlChannel U) (m : Machine U D) : Prop := m.com2 = c

theorem keeps_storeTimers (r : Except Abort (Bool × Lapic × EventQueue TimerKind)) :
    Keeps (HasCom2 c) (storeTimers r : VmmM U D Bool) := by
  rcases r with e | ⟨fired, lapic, events⟩
  · exact keeps_fail e
  · refine Keeps.bind (keeps_update ?_) fun _ => keeps_pure fired
    exact fun _ hm => hm

theorem keeps_boundary (hostTsc : UInt64) :
    Keeps (HasCom2 c) (boundary hostTsc : VmmM U D Bool) := by
  refine keeps_read.bind fun m => Keeps.bind (keeps_update ?_) fun _ => keeps_storeTimers _
  exact fun _ hm => hm

theorem keeps_egressPump (env : Env) : Keeps (HasCom2 c) (egressPump P env) := by
  refine keeps_read.bind fun m => ?_
  rcases m.egress with _ | eg
  · exact keeps_pure ()
  · dsimp only
    rcases eg.pump P.uart env m.lapic m.ioapic with ⟨e | _, eg', lapic⟩
    · refine Keeps.bind (keeps_update ?_) fun _ => keeps_fail _
      exact fun _ hm => hm
    · refine Keeps.bind (keeps_update ?_) fun _ => keeps_pure ()
      exact fun _ hm => hm

theorem keeps_inject (i : LoopInput) : Keeps (HasCom2 c) (inject i : VmmM U D Unit) := by
  refine Keeps.bind (keeps_update ?_) fun _ => keeps_read.bind fun m => ?_
  · exact fun _ hm => hm
  · unfold injectVector
    rcases m.lapic.deliverableVector with _ | vec
    · exact keeps_pure ()
    · dsimp only
      split_ifs
      · exact keeps_update fun _ hm => hm
      · exact keeps_fail _
      · exact keeps_pure ()

theorem serviceConsoleInput_com2 (r : ConsoleRead) (m : Machine U D) (hm : HasCom2 c m) :
    HasCom2 c (serviceConsoleInput P r m) := by
  cases r with
  | data first rest | eof | again => exact hm

theorem keeps_parkFor (timeout : Option UInt64) (i : ParkInput) :
    Keeps (HasCom2 c) (parkFor P timeout i) := by
  unfold parkFor
  split_ifs
  · exact keeps_pure ()
  · rcases i.wake with _ | input
    · exact keeps_fail _
    · refine keeps_read.bind fun m => ?_
      split_ifs
      · exact keeps_update (serviceConsoleInput_com2 P _)
      · exact keeps_pure ()

theorem keeps_stdinFirst (i : ParkInput) : Keeps (HasCom2 c) (stdinFirst P i) := by
  refine keeps_read.bind fun m => ?_
  split_ifs
  · rcases i.stdinReady with _ | ready
    · exact keeps_fail _
    · dsimp only
      split_ifs
      · exact keeps_update (serviceConsoleInput_com2 P _)
      · exact keeps_pure ()
  · exact keeps_pure ()

theorem keeps_bump (kvm : KvmWrite) (delta : UInt64) :
    Keeps (HasCom2 c) (bump kvm delta : VmmM U D Unit) := by
  intro m hm
  show HasCom2 c (storeBump m _).2
  unfold storeBump
  split
  · exact hm
  · exact hm
  · exact hm

theorem keeps_land (ff : FfState) (i : ParkInput) (delta next : UInt64) :
    Keeps (HasCom2 c) (land ff i delta next : VmmM U D Turn) := by
  refine keeps_read.bind fun m => ?_
  split_ifs
  · exact keeps_fail _
  · refine Keeps.bind (keeps_update ?_) fun _ => keeps_pure _
    exact fun _ hm => hm

theorem keeps_jumpTo (ff : FfState) (i : ParkInput) (next : UInt64) :
    Keeps (HasCom2 c) (jumpTo ff i next : VmmM U D Turn) := by
  refine keeps_read.bind fun m => ?_
  split_ifs
  · exact keeps_pure _
  · exact keeps_fail _
  · exact keeps_fail _
  · exact (keeps_bump _ _).bind fun _ => keeps_land _ _ _ _

theorem keeps_advance (ff : FfState) (i : ParkInput) : Keeps (HasCom2 c) (advance P ff i) := by
  refine keeps_read.bind fun m => ?_
  split_ifs
  · refine keeps_read.bind fun m => (keeps_parkFor P _ i).bind fun _ => ?_
    refine Keeps.bind (keeps_update ?_) fun _ => keeps_pure _
    exact fun _ hm => hm
  · rcases m.events.peekDeadline with _ | next
    · exact (keeps_parkFor P none i).bind fun _ => keeps_pure _
    · exact keeps_jumpTo ff i next

/-- A channel in which a poll finds nothing and changes nothing. -/
structure ControlChannel.Idle (c : ControlChannel U) : Prop where
  open_ : 10 ∉ c.serial.tx
  short : c.serial.tx.length ≤ TX_BUF_CAP

theorem ControlChannel.Idle.pollLine (h : c.Idle) : c.pollLine = (none, c) := by
  have htake : Spool.take 10 TX_BUF_CAP ⟨[], c.serial.tx⟩ = (.none, ⟨[], c.serial.tx⟩) := by
    have htaken := Spool.take_taken 10 TX_BUF_CAP ⟨[], c.serial.tx⟩
    generalize Spool.take 10 TX_BUF_CAP ⟨[], c.serial.tx⟩ = out at htaken
    rcases out with ⟨out, s⟩
    rcases c with ⟨⟨uart, irq, tx⟩, rx⟩
    cases htaken with
    | line hrest => exact absurd (by simp) h.open_
    | dropped hbuf hlong => exact absurd hlong (Nat.not_lt.mpr h.short)
    | none hbuf hshort => rfl
  rw [c.pollLine_eq [], htake]
  rfl

theorem keeps_agentLines (h : c.Idle) (lineTsc : Nat → UInt64) :
    Keeps (HasCom2 c) (agentLines P lineTsc) := by
  rintro m rfl
  have hquiet := run_agentLines_quiet (P := P) (show m.com2.NoLine from h.open_) lineTsc
  rw [hquiet, h.pollLine]
  rfl

theorem keeps_attend (h : c.Idle) (i : ParkInput) : Keeps (HasCom2 c) (attend P i) := by
  refine (keeps_boundary _).bind fun fired => ?_
  split_ifs
  · exact keeps_pure _
  · refine (keeps_agentLines P h _).bind fun finished => ?_
    split_ifs
    · exact keeps_pure _
    · exact (keeps_egressPump P _).bind fun _ => keeps_read.bind fun _ => keeps_pure _

theorem keeps_parkTurn (h : c.Idle) (i : ParkInput) : Keeps (HasCom2 c) (parkTurn P i) := by
  refine keeps_read.bind fun m => ?_
  rcases m.ff with _ | ff
  · refine (keeps_attend P h i).bind fun o => ?_
    rcases o with _ | o
    · exact keeps_read.bind fun m => (keeps_parkFor P _ i).bind fun _ => keeps_pure _
    · exact keeps_pure _
  · refine (keeps_stdinFirst P i).bind fun _ => (keeps_attend P h i).bind fun o => ?_
    rcases o with _ | o
    · exact keeps_advance P ff i
    · exact keeps_pure _

end Frame

/-! ## What the guest writes -/

section Written

variable (P : Platform U D)

theorem com2Pump_tx (m : Machine U D) : (com2Pump P m).com2.serial.tx = m.com2.serial.tx :=
  m.com2.pump_tx P.uart m.lapic m.ioapic

theorem foldl_com2Write_tx (port : UInt16) (data : Bytes) (m : Machine U D) :
    (data.foldl (com2Write P port) m).com2.serial.tx =
      m.com2.serial.tx ++
        transmitted P.uart (port - SERIAL2_PORT_BASE).toUInt8 m.com2.serial.uart data := by
  induction data generalizing m with
  | nil => exact (List.append_nil _).symm
  | cons b data ih =>
    have huart : (com2Write P port m b).com2.serial.uart =
        (P.uart.write m.com2.serial.uart (port - SERIAL2_PORT_BASE).toUInt8 b).1 := by
      simp only [com2Write, ControlChannel.pioWrite, ControlChannel.afterUartIo, Serial.afterIo]
      split_ifs
      · rfl
      · rfl
    have htx : (com2Write P port m b).com2.serial.tx = m.com2.serial.tx ++
        (P.uart.write m.com2.serial.uart (port - SERIAL2_PORT_BASE).toUInt8 b).2.1 :=
      m.com2.pioWrite_tx P.uart port b m.lapic m.ioapic
    rw [List.foldl_cons, ih, huart, htx, transmitted, List.append_assoc]

theorem readEach_com2_tx (port : UInt16) (k n : Nat) (m : Machine U D) :
    (readEach (fun _ => com2ReadByte P port) k n m).2.com2.serial.tx = m.com2.serial.tx := by
  induction n generalizing k m with
  | zero => rfl
  | succ n ih =>
    refine (ih (k + 1) _).trans ?_
    exact m.com2.pioRead_tx P.uart port m.lapic m.ioapic

theorem mmioStore_com2 (addr : UInt64) (data : Bytes) (now : UInt64) (m : Machine U D) :
    (mmioStore addr data now m).com2 = m.com2 := by
  unfold mmioStore
  dsimp only
  split_ifs
  · rfl
  · rfl
  · rfl

theorem captureExit_tx (now : Nat → UInt64) (b : Board U D) (a : Access) :
    (captureExit P now b a).2.machine.com2.serial.tx =
      b.machine.com2.serial.tx ++ a.written P b.machine.com2.serial.uart := by
  cases a with
  | ioOut port data =>
    simp only [captureExit, Access.written]
    split_ifs
    · exact (List.append_nil _).symm
    · exact foldl_com2Write_tx P port data b.machine
    · exact (List.append_nil _).symm
    · exact (List.append_nil _).symm
    · exact (List.append_nil _).symm
  | ioIn port data =>
    simp only [captureExit, Access.written, List.append_nil]
    split_ifs
    · rfl
    · exact readEach_com2_tx P port 0 data.length b.machine
    · rfl
    · rfl
    · rfl
  | mmioRead addr data => exact (List.append_nil _).symm
  | mmioWrite addr data =>
    simp only [captureExit, Access.written, List.append_nil, mmioStore_com2]

end Written

/-! ## The search -/

section Search

variable (P : Platform U D) (J : Json) (want : UInt64)

/-- The reply in a line as the guest wrote it. -/
def replyIn (line : Bytes) : Option Reply := answersTo J want (ControlChannel.chomp line)

theorem drainReplies_search (gone : Bytes) (fuel : Nat) (m : Machine U D) :
    (drainReplies P J want fuel m).1 =
        (Spool.search 10 TX_BUF_CAP (replyIn J want) fuel ⟨gone, m.com2.serial.tx⟩).1 ∧
      (drainReplies P J want fuel m).2.com2.serial.tx =
        (Spool.search 10 TX_BUF_CAP (replyIn J want) fuel ⟨gone, m.com2.serial.tx⟩).2.buf := by
  induction fuel generalizing gone m with
  | zero => exact ⟨rfl, rfl⟩
  | succ fuel ih =>
    have hpoll := m.com2.pollLine_eq gone
    rw [drainReplies, Spool.search]
    rcases htake : Spool.take 10 TX_BUF_CAP ⟨gone, m.com2.serial.tx⟩ with ⟨out, gone', tx'⟩
    rw [htake] at hpoll
    rw [hpoll]
    rcases out with ⟨cut, rest⟩ | piece | _
    · simp only [ControlChannel.lineOf]
      rcases hans : answersTo J want (ControlChannel.chomp rest) with _ | rep
      · have hans' : replyIn J want rest = none := hans
        simp only [hans']
        have hrec := ih gone' (com2Pump P { m with
          com2 := { m.com2 with serial := { m.com2.serial with tx := tx' } } })
        rw [com2Pump_tx] at hrec
        exact hrec
      · have hans' : replyIn J want rest = some rep := hans
        simp only [hans']
        exact ⟨trivial, trivial⟩
    · exact ⟨rfl, rfl⟩
    · exact ⟨rfl, rfl⟩

theorem dropStale_search (gone : Bytes) (fuel : Nat) (c : ControlChannel U) :
    (dropStale fuel c).serial.tx =
      (Spool.search 10 TX_BUF_CAP (fun _ => (none : Option Unit)) fuel
        ⟨gone, c.serial.tx⟩).2.buf := by
  induction fuel generalizing gone c with
  | zero => rfl
  | succ fuel ih =>
    have hpoll := c.pollLine_eq gone
    rw [dropStale, Spool.search]
    rcases htake : Spool.take 10 TX_BUF_CAP ⟨gone, c.serial.tx⟩ with ⟨out, gone', tx'⟩
    rw [htake] at hpoll
    rw [hpoll]
    rcases out with ⟨cut, rest⟩ | piece | _
    · exact ih gone' _
    · rfl
    · rfl

end Search

/-! ## The round trip -/

section Invariant

open Eff

variable {P : Platform U D} {J : Json} {sink : D} {want : UInt64} {lo : Unfinished UInt8}
  {c : Capture U D}

/-- The lines that the guest has finished since the request was queued, with what the
overflows of the buffer took from each: `lo` is the line it was in the middle of. -/
def linesAfter (lo : Unfinished UInt8) (writes : List Bytes) : List (Bytes × Nat) :=
  lo.finished 10 TX_BUF_CAP writes

/-- The line that is unfinished after these writes. -/
def openAfter (lo : Unfinished UInt8) (writes : List Bytes) : Unfinished UInt8 :=
  lo.after 10 TX_BUF_CAP writes

/-- No line searched so far is the reply, and the buffer goes on where the search
stopped. -/
structure Awaiting (J : Json) (want : UInt64) (lo : Unfinished UInt8) (c : Capture U D) : Prop where
  sound : (openAfter lo c.drained).Sound 10
  settled : (openAfter lo c.drained).Settled TX_BUF_CAP
  tx : c.tx = (openAfter lo c.drained).spool.buf ++ c.pending
  unanswered : ∀ p ∈ linesAfter lo c.drained, replyIn J want (p.1.drop p.2) = none

/-- The search has ended at the first line that it took for the reply. -/
def Answered (J : Json) (want : UInt64) (lo : Unfinished UInt8) (c : Capture U D) (rep : Reply) :
    Prop :=
  ∃ before line lost later,
    linesAfter lo (c.drained ++ [c.pending]) = before ++ (line, lost) :: later ∧
    (∀ p ∈ before, replyIn J want (p.1.drop p.2) = none) ∧
    replyIn J want (line.drop lost) = some rep ∧
    c.tx = joinLines 10 (later.map Prod.fst) ++ (openAfter lo (c.drained ++ [c.pending])).line

theorem Awaiting.of_eq {c' : Capture U D} (h : Awaiting J want lo c) (htx : c'.tx = c.tx)
    (hdrained : c'.drained = c.drained) (hpending : c'.pending = c.pending) :
    Awaiting J want lo c' := by
  refine ⟨?_, ?_, ?_, ?_⟩
  · rw [hdrained]
    exact h.sound
  · rw [hdrained]
    exact h.settled
  · rw [htx, hdrained, hpending]
    exact h.tx
  · rw [hdrained]
    exact h.unanswered

theorem meets_onMachine {α : Type} {x : VmmM U D α} (hx : ∀ c, Keeps (HasCom2 c) x)
    (h : Awaiting J want lo c) :
    Meets (fun _ c' => Awaiting J want lo c' ∧ c'.pending = c.pending) (onMachine x) c := by
  -- a step of the machine that leaves COM2 alone goes on listening
  have hcom2 : ((x.run c.board.machine).2).com2 = c.board.machine.com2 :=
    hx c.board.machine.com2 c.board.machine rfl
  refine ⟨h.of_eq ?_ rfl rfl, rfl⟩
  show ((x.run c.board.machine).2).com2.serial.tx = _
  rw [hcom2]
  rfl

theorem Awaiting.pump (h : Awaiting J want lo c) :
    Meets (fun _ c' => Awaiting J want lo c') (onMachine (Eff.update (com2Pump P))) c :=
  h.of_eq (com2Pump_tx P c.board.machine) rfl rfl

theorem Awaiting.search (h : Awaiting J want lo c) :
    (∃ rep c', (replyLines P J want).run c = (.ok (some rep), c') ∧ Answered J want lo c' rep) ∨
      ∃ c', (replyLines P J want).run c = (.ok none, c') ∧ Awaiting J want lo c' ∧
        c'.pending = [] := by
  have hopen : 10 ∉ (openAfter lo c.drained).spool.gone := fun hmem =>
    h.sound.open_ (List.mem_of_mem_take hmem)
  -- the buffer is what is left of the open line, and what was written since
  have hbuf : (⟨(openAfter lo c.drained).spool.gone, c.tx⟩ : Spool UInt8) =
      (openAfter lo c.drained).spool.write c.pending := by
    rw [h.tx]
    rfl
  have hsearch := @Spool.search_searched _ _ _ 10 TX_BUF_CAP (replyIn J want)
    ⟨(openAfter lo c.drained).spool.gone, c.tx⟩ hopen c.tx.length (Nat.le_refl _)
  rw [hbuf, Spool.contents_spool h.sound, ← hbuf] at hsearch
  rcases drainReplies_search P J want (openAfter lo c.drained).spool.gone c.tx.length
    c.board.machine with ⟨hres, htx⟩
  have hlines : linesAfter lo (c.drained ++ [c.pending]) = linesAfter lo c.drained ++
      ((openAfter lo c.drained).absorb 10 TX_BUF_CAP c.pending).1 :=
    Unfinished.finished_concat lo c.drained c.pending
  have hlast : openAfter lo (c.drained ++ [c.pending]) =
      ((openAfter lo c.drained).absorb 10 TX_BUF_CAP c.pending).2 :=
    Unfinished.after_concat lo c.drained c.pending
  change (drainReplies P J want c.tx.length c.board.machine).1 =
    (Spool.search 10 TX_BUF_CAP (replyIn J want) c.tx.length
      ⟨(openAfter lo c.drained).spool.gone, c.tx⟩).1 at hres
  change _ = (Spool.search 10 TX_BUF_CAP (replyIn J want) c.tx.length
      ⟨(openAfter lo c.drained).spool.gone, c.tx⟩).2.buf at htx
  rcases hdrain : drainReplies P J want c.tx.length c.board.machine with ⟨res, m⟩
  rw [hdrain] at hres htx
  generalize Spool.search 10 TX_BUF_CAP (replyIn J want) c.tx.length
      ⟨(openAfter lo c.drained).spool.gone, c.tx⟩ = out at hres htx hsearch
  dsimp only at hres htx
  cases hsearch with
  | @found before later line lost rep hsplit hbefore hline =>
    obtain rfl := hres
    refine .inl ⟨rep, { c with board := { c.board with machine := m } }, ?_, ?_⟩
    · simp only [replyLines, Eff.run, hdrain]
    · refine ⟨linesAfter lo c.drained ++ before, line, lost, later, ?_, ?_, hline, ?_⟩
      · rw [hlines, hsplit, List.append_assoc]
      · intro p hp
        rcases List.mem_append.mp hp with hp | hp
        · exact h.unanswered p hp
        · exact hbefore p hp
      · rw [hlast]
        exact htx
  | through hnone =>
    -- all lines have been taken, and the line that is open has settled
    obtain rfl := hres
    refine .inr ⟨⟨{ c.board with machine := m }, c.drained ++ [c.pending], []⟩, ?_,
      ⟨?_, ?_, ?_, ?_⟩,
      rfl⟩
    · simp only [replyLines, Eff.run, hdrain]
    · rw [hlast]
      exact h.sound.absorb TX_BUF_CAP c.pending
    · rw [hlast]
      exact Unfinished.settled_absorb _ _
    · rw [hlast, List.append_nil]
      exact htx
    · rw [hlines]
      intro p hp
      rcases List.mem_append.mp hp with hp | hp
      · exact h.unanswered p hp
      · exact hnone p hp

/-- What holds of the capture in each mode. -/
def DriveMode.Holds (J : Json) (want : UInt64) (lo : Unfinished UInt8) (c : Capture U D) :
    DriveMode → Prop
  | .driving => Awaiting J want lo c
  | .parked => Awaiting J want lo c ∧ c.pending = []
  | .replied rep => Answered J want lo c rep
  | _ => True

theorem Awaiting.driveExit (h : Awaiting J want lo c) (hpending : c.pending = [])
    (now : Nat → UInt64) (e : Exit) :
    Meets (fun res c' => (DriveMode.afterTurn res).Holds J want lo c')
      (driveExit P sink now e) c := by
  unfold Vmm.driveExit
  rcases hacc : e.access with _ | a
  · dsimp only
    split
    · -- A halt: the park listens to the same buffer.
      exact ⟨h.of_eq rfl rfl rfl, hpending⟩
    all_goals first | exact h | exact trivial
  · have htx := captureExit_tx P now c.board a
    refine ⟨h.sound, h.settled, ?_, h.unanswered⟩
    show (captureExit P now c.board a).2.machine.com2.serial.tx = _
    rw [htx]
    show c.tx ++ _ = _
    rw [h.tx, List.append_assoc]
    rfl

theorem Awaiting.searchAndRun (h : Awaiting J want lo c) (i : DriveInput) :
    Meets (fun res c' => (DriveMode.afterTurn res).Holds J want lo c')
      (searchAndRun P J sink want i) c := by
  refine h.pump.bind (fun _ c₁ h₁ => ?_) fun _ _ _ => trivial
  rcases (Awaiting.search h₁ : _ ∨ _) with ⟨rep, c₂, hrun, hanswered⟩ | ⟨c₂, hrun, h₂, hpending⟩
  · unfold Meets
    rw [run_bind_ok hrun]
    exact hanswered
  · have hgo : Meets (fun res c' => (DriveMode.afterTurn res).Holds J want lo c')
        (do
          onMachine (egressPump P i.loop.env)
          onMachine (inject i.loop)
          Vmm.driveExit P sink i.now i.loop.exit) c₂ := by
      refine (meets_onMachine (fun c => keeps_egressPump P i.loop.env) h₂).bind
        (fun _ c₃ h₃ => ?_) fun _ _ _ => trivial
      refine (meets_onMachine (fun c => keeps_inject i.loop) h₃.1).bind
        (fun _ c₄ h₄ => ?_) fun _ _ _ => trivial
      exact h₄.1.driveExit (h₄.2.trans (h₃.2.trans hpending)) i.now i.loop.exit
    unfold Meets
    rw [run_bind_ok hrun]
    exact hgo

theorem Awaiting.driveTurn (h : Awaiting J want lo c) (i : DriveInput) :
    Meets (fun res c' => (DriveMode.afterTurn res).Holds J want lo c')
      (driveTurn P J sink want i) c := by
  unfold Vmm.driveTurn
  split_ifs
  · exact trivial
  · refine (meets_onMachine (fun c => keeps_boundary i.loop.hostTsc) h).bind
      (fun fired c₁ h₁ => ?_) fun _ _ _ => trivial
    split_ifs
    · exact trivial
    · exact h₁.1.searchAndRun i

theorem Awaiting.idle (h : Awaiting J want lo c) (hpending : c.pending = []) :
    c.board.machine.com2.Idle := by
  have htx : c.board.machine.com2.serial.tx = (openAfter lo c.drained).spool.buf := by
    have htx := h.tx
    rw [hpending, List.append_nil] at htx
    exact htx
  refine ⟨?_, ?_⟩
  · rw [htx]
    exact fun hmem => h.sound.open_ (List.mem_of_mem_drop hmem)
  · rw [htx]
    have hsettled := h.settled
    unfold Unfinished.Settled at hsettled
    simpa [Unfinished.spool] using hsettled

theorem Drive.step_holds {s : Drive U D} (h : s.mode.Holds J want lo s.capture) (d : DriveStep) :
    (s.step P J sink want d).mode.Holds J want lo (s.step P J sink want d).capture := by
  rcases s with ⟨c, mode⟩
  cases d with
  | iterate i =>
    cases mode with
    | driving => exact Awaiting.driveTurn h i
    | parked | replied rep | gaveUp | dead | failed a => exact h
  | park i =>
    cases mode with
    | parked =>
      have hcom2 : (((parkTurn P i).run c.board.machine).2).com2 = c.board.machine.com2 :=
        keeps_parkTurn P (h.1.idle h.2) i c.board.machine rfl
      have hnext : Awaiting J want lo ((onMachine (parkTurn P i)).run c).2 := by
        refine h.1.of_eq ?_ rfl rfl
        show (((parkTurn P i).run c.board.machine).2).com2.serial.tx = _
        rw [hcom2]
        rfl
      show (DriveMode.afterPark _).Holds J want lo ((onMachine (parkTurn P i)).run c).2
      unfold DriveMode.afterPark
      split
      · exact hnext
      · exact hnext
      · exact trivial
      · exact ⟨hnext, h.2⟩
      · exact trivial
    | driving | replied rep | gaveUp | dead | failed a => exact h

/-- The line the guest was in the middle of when the request was queued. An overflow
found by the drop of stale lines has taken what there was of it. -/
def Board.leftover (b : Board U D) : Unfinished UInt8 :=
  .settle TX_BUF_CAP (splitLines 10 b.machine.com2.serial.tx).2 0

theorem request_holds (P : Platform U D) (J : Json) (want : UInt64) (b : Board U D) (framed : Bytes)
    (horizon : UInt64) :
    Awaiting J want b.leftover (b.request P framed horizon).capture := by
  have hlast : (Spool.contents 10 TX_BUF_CAP ⟨[], b.machine.com2.serial.tx⟩).2 = b.leftover := by
    simp only [Spool.contents, Unfinished.absorb, Board.leftover, List.nil_append, List.length_nil]
    rcases splitLines 10 b.machine.com2.serial.tx with ⟨_ | ⟨line, lines⟩, last⟩
    · rfl
    · rfl
  have hsearch := @Spool.search_searched _ Unit _ 10 TX_BUF_CAP (fun _ => none)
    ⟨[], b.machine.com2.serial.tx⟩ (by simp) _ (Nat.le_refl _)
  rw [hlast] at hsearch
  have hstale := dropStale_search [] b.machine.com2.serial.tx.length b.machine.com2
  have htx : (b.request P framed horizon).capture.tx = b.leftover.spool.buf := by
    refine (com2Pump_tx P _).trans (hstale.trans ?_)
    generalize Spool.search 10 TX_BUF_CAP (fun _ => (none : Option Unit)) _
      ⟨[], b.machine.com2.serial.tx⟩ = out at hsearch
    cases hsearch with
    | through hnone => rfl
    | found hlines hbefore hline => cases hline
  have hopen := (join_splitLines 10 b.machine.com2.serial.tx).2.2
  refine ⟨Unfinished.sound_settle hopen TX_BUF_CAP (Nat.zero_le _), Unfinished.settled_settle _ _,
    ?_, by simp [linesAfter, Unfinished.finished, Board.request]⟩
  rw [htx]
  exact (List.append_nil _).symm

theorem drive_holds (P : Platform U D) (J : Json) (sink : D) (want : UInt64) (b : Board U D)
    (framed : Bytes) (horizon : UInt64) (steps : List DriveStep) :
    (driveUntilReply P J sink want b framed horizon steps).mode.Holds J want b.leftover
      (driveUntilReply P J sink want b framed horizon steps).capture := by
  induction steps using List.reverseRecOn with
  | nil => exact request_holds P J want b framed horizon
  | append_singleton steps d ih =>
    have hstep := @Drive.step_holds U D P J sink want _ _ ih d
    rw [driveUntilReply, List.foldl_concat]
    exact hstep

end Invariant

/-! ## The reply -/

section FirstReply

variable (J : Json) (want : UInt64)

/-- `rep` is the reply in the first line of `heard` that has one, and `tx` is what
comes after that line. -/
def FirstReply (heard tx : Bytes) (rep : Reply) : Prop :=
  ∃ lines line, heard = joinLines 10 lines ++ (line ++ 10 :: tx) ∧
    (∀ l ∈ lines, 10 ∉ l) ∧ 10 ∉ line ∧
    (∀ l ∈ lines, replyIn J want l = none) ∧ replyIn J want line = some rep

/-- Up to the first line with a reply, the lines say the same with and without what
they have lost. -/
def Agree : List (Bytes × Nat) → Prop
  | [] => True
  | (line, lost) :: lines =>
    replyIn J want line = replyIn J want (line.drop lost) ∧
      (replyIn J want line = none → Agree lines)

variable {J want}

theorem lines_unique {lines lines' : List Bytes} {line line' tx : Bytes}
    (h : joinLines 10 lines ++ (line ++ 10 :: tx) = joinLines 10 lines' ++ (line' ++ 10 :: tx))
    (hlines : ∀ l ∈ lines, 10 ∉ l) (hline : 10 ∉ line) (hlines' : ∀ l ∈ lines', 10 ∉ l)
    (hline' : 10 ∉ line') : lines = lines' ∧ line = line' := by
  have hsplit := congrArg (fun l => (splitLines (10 : UInt8) l).1) h
  simp only [splitLines_join hlines, splitLines_join hlines', splitLines_line hline,
    splitLines_line hline'] at hsplit
  rw [List.append_cons, List.append_cons lines'] at hsplit
  have hboth := List.append_cancel_right hsplit
  have hparts := List.append_inj' hboth rfl
  exact ⟨hparts.1, List.singleton_inj.mp hparts.2⟩

theorem agree_iff {before later : List (Bytes × Nat)} {line : Bytes} {lost : Nat} {rep : Reply}
    (hbefore : ∀ p ∈ before, replyIn J want (p.1.drop p.2) = none)
    (hline : replyIn J want (line.drop lost) = some rep) :
    Agree J want (before ++ (line, lost) :: later) ↔
      (∀ p ∈ before, replyIn J want p.1 = none) ∧ replyIn J want line = some rep := by
  induction before with
  | nil =>
    simp only [List.nil_append, Agree, hline, List.not_mem_nil, false_implies, implies_true,
      true_and]
    constructor
    · exact fun h => h.1
    · intro h
      exact ⟨h, fun hnone => by simp [hnone] at h⟩
  | cons p before ih =>
    rcases p with ⟨first, n⟩
    have hfirst := hbefore (first, n) List.mem_cons_self
    have hrest := ih fun q hq => hbefore q (List.mem_cons_of_mem _ hq)
    simp only [List.cons_append, Agree, hfirst, List.forall_mem_cons, and_assoc]
    constructor
    · rintro ⟨hnone, hagree⟩
      exact ⟨hnone, hrest.mp (hagree hnone)⟩
    · rintro ⟨hnone, hall⟩
      exact ⟨hnone, fun _ => hrest.mpr hall⟩

/-- What the guest wrote on COM2 since the request was queued, one search apart. -/
def Capture.writes (c : Capture U D) : List Bytes := c.drained ++ [c.pending]

theorem Answered.firstReply_iff {lo : Unfinished UInt8} {c : Capture U D} {rep : Reply}
    (h : Answered J want lo c rep) :
    FirstReply J want (lo.line ++ c.writes.flatten) c.tx rep ↔
      Agree J want (linesAfter lo c.writes) := by
  rcases h with ⟨before, line, lost, later, hlines, hbefore, hline, htx⟩
  have hall := @Unfinished.notMem_finished _ _ 10 TX_BUF_CAP lo c.writes
  change ∀ p ∈ linesAfter lo c.writes, 10 ∉ p.1 at hall
  have hheard := @Unfinished.join_finished _ _ 10 TX_BUF_CAP lo c.writes
  change joinLines 10 ((linesAfter lo c.writes).map Prod.fst) ++ (openAfter lo c.writes).line = _
    at hheard
  change linesAfter lo c.writes = _ at hlines
  change c.tx = _ ++ (openAfter lo c.writes).line at htx
  -- The stream as the search went through it.
  have hsplit : lo.line ++ c.writes.flatten =
      joinLines 10 (before.map Prod.fst) ++ (line ++ 10 :: c.tx) := by
    rw [← hheard, hlines, htx]
    simp [joinLines, List.flatMap_append]
  rw [hlines] at hall ⊢
  have hopen : ∀ l ∈ before.map Prod.fst, 10 ∉ l := by
    intro l hl
    rcases List.mem_map.mp hl with ⟨p, hp, rfl⟩
    exact hall p (List.mem_append_left _ hp)
  have hopen' : 10 ∉ line := hall (line, lost) (by simp)
  rw [agree_iff hbefore hline]
  constructor
  · rintro ⟨lines, line', hstream, hlines', hline', hnone, hrep⟩
    rcases lines_unique (hsplit.symm.trans hstream) hopen hopen' hlines' hline' with ⟨rfl, rfl⟩
    exact ⟨fun p hp => hnone _ (List.mem_map_of_mem hp), hrep⟩
  · rintro ⟨hnone, hrep⟩
    refine ⟨before.map Prod.fst, line, hsplit, hopen, hopen', ?_, hrep⟩
    intro l hl
    rcases List.mem_map.mp hl with ⟨p, hp, rfl⟩
    exact hnone p hp

end FirstReply

/-- For every guest and every world during a round trip: a park finds no line and takes
none from the buffer; and a reply that is returned is that of the first line finished
since the request was queued that decodes with the wanted id, exactly when the lines up
to that one decode alike with and without what they lost to overflows of the buffer. -/
theorem capture_reply_iff (P : Platform U D) (J : Json) (sink : D) (want : UInt64) (b : Board U D)
    (framed : Bytes) (horizon : UInt64) (steps : List DriveStep) (s : Drive U D)
    (hs : s = driveUntilReply P J sink want b framed horizon steps) :
    (s.mode = .parked → 10 ∉ s.capture.tx ∧
      ∀ i, (s.turned P i).capture.tx = s.capture.tx) ∧
    ∀ rep, s.mode = .replied rep →
      (FirstReply J want (b.leftover.line ++ s.capture.writes.flatten) s.capture.tx rep ↔
        Agree J want (linesAfter b.leftover s.capture.writes)) := by
  have hholds := drive_holds P J sink want b framed horizon steps
  rw [← hs] at hholds
  constructor
  · intro hparked
    rw [hparked] at hholds
    have hidle := hholds.1.idle hholds.2
    refine ⟨hidle.open_, fun i => ?_⟩
    have hcom2 : ((parkTurn P i).run s.capture.board.machine).2.com2 =
        s.capture.board.machine.com2 :=
      keeps_parkTurn P hidle i s.capture.board.machine rfl
    show ((parkTurn P i).run s.capture.board.machine).2.com2.serial.tx = _
    rw [hcom2]
    rfl
  · intro rep hreplied
    rw [hreplied] at hholds
    exact hholds.firstReply_iff

/-! ## Two round trips -/

/-- The reply to request 7, as `{"id":7}`. -/
def replyText : Bytes := [0x7b, 0x22, 0x69, 0x64, 0x22, 0x3a, 0x37, 0x7d]

/-- JSON as far as it is read here. -/
def idJson : Json where
  writeReply r := if r.id = some 7 then replyText else []
  readReply bytes := if bytes = replyText then .ok { id := some 7 } else .error "expected value"
  readRequest _ := .error "expected value"
  readEvent _ := .error "expected value"

def boardWith (tx : Bytes) : Board Unit Unit :=
  ⟨{ (Config.bare 0 false none none).machine with com2 := ⟨⟨(), false, tx⟩, []⟩ },
    .new ⟨1000, TscFrequency.kilohertz_pos⟩, .new⟩

def iterate (exit : Exit) : DriveStep := .iterate ⟨false, fun _ => 0, LoopInput.bare 0 exit⟩

/-- The guest writes the reply in one exit and is run once more. -/
def replySteps : List DriveStep := [iterate (.ioOut 0x2f8 (replyText ++ [10])), iterate .other]

theorem capture_reply_iff_short :
    FirstReply idJson 7 (replyText ++ [10]) [] { id := some 7 } ∧
      10 ∉ (driveUntilReply Platform.bare idJson () 7 (boardWith []) [] 1000
        [iterate (.hlt true)]).capture.tx := by
  -- the reply is found at once, and a guest that halts instead is parked with nothing in the
  -- buffer
  constructor
  · have hiff := (capture_reply_iff Platform.bare idJson () 7
      (boardWith []) [] 1000 replySteps _ rfl).2
      { id := some 7 } rfl
    exact hiff.mpr ⟨rfl, fun _ => trivial⟩
  · exact ((capture_reply_iff Platform.bare idJson () 7 (boardWith []) [] 1000
      [iterate (.hlt true)] _ rfl).1 rfl).1

theorem request_long {n : Nat} (hlong : TX_BUF_CAP < n) (framed : Bytes) (horizon : UInt64) :
    (boardWith (List.replicate n 97)).request Platform.bare framed horizon =
      (boardWith []).request Platform.bare framed horizon := by
  have hopen : (10 : UInt8) ∉ List.replicate n 97 := by simp
  have hpoll : (boardWith (List.replicate n 97)).machine.com2.pollLine =
      (none, (boardWith []).machine.com2) := by
    have htake : Spool.take (10 : UInt8) TX_BUF_CAP ⟨[], List.replicate n 97⟩ =
        (.dropped (List.replicate n 97), ⟨List.replicate n 97, []⟩) := by
      unfold Spool.take
      dsimp only
      rw [span_free hopen]
      simp [hlong]
    rw [ControlChannel.pollLine_eq _ []]
    have htx : (boardWith (List.replicate n 97)).machine.com2.serial.tx = List.replicate n 97 := rfl
    rw [htx, htake]
    rfl
  have hdrop : dropStale (boardWith (List.replicate n 97)).machine.com2.serial.tx.length
      (boardWith (List.replicate n 97)).machine.com2 = (boardWith []).machine.com2 := by
    have hlen : (boardWith (List.replicate n 97)).machine.com2.serial.tx.length = n :=
      List.length_replicate
    rw [hlen]
    rcases n with _ | n
    · exact absurd hlong (Nat.not_lt_zero _)
    · rw [dropStale, hpoll]
  unfold Board.request
  rw [hdrop]
  rfl

theorem first_reply_cut {n : Nat} (hpos : 0 < n) :
    ¬ FirstReply idJson 7 (List.replicate n 97 ++ (replyText ++ [10])) [] { id := some 7 } := by
  rintro ⟨lines, line, hheard, hlines, hline, -, hrep⟩
  -- All of the stream is one line, which begins with other bytes.
  have hone : List.replicate n 97 ++ (replyText ++ [10]) =
      joinLines 10 [] ++ ((List.replicate n 97 ++ replyText) ++ (10 : UInt8) :: []) := by
    simp [joinLines]
  have hopen : (10 : UInt8) ∉ List.replicate n 97 ++ replyText := by simp [replyText]
  rcases lines_unique (hone.symm.trans hheard) (by simp) hopen hlines hline with ⟨-, rfl⟩
  rcases n with _ | n
  · exact absurd hpos (Nat.lt_irrefl 0)
  · have hchomp : ControlChannel.chomp (List.replicate (n + 1) 97 ++ replyText) =
        List.replicate (n + 1) 97 ++ replyText := by
      simp [ControlChannel.chomp, replyText]
    have htrim : trimFrame (List.replicate (n + 1) 97 ++ replyText) =
        List.replicate (n + 1) 97 ++ replyText := by
      simp [trimFrame, List.replicate_succ, isAsciiWhitespace, replyText]
    unfold replyIn answersTo Json.decodeReply at hrep
    rw [hchomp, htrim] at hrep
    simp [idJson, List.replicate_succ, replyText] at hrep

theorem replies_of_long {n : Nat} (hlong : TX_BUF_CAP < n) (s : Drive Unit Unit)
    (hs : s = driveUntilReply Platform.bare idJson () 7 (boardWith (List.replicate n 97)) [] 1000
      replySteps) :
    s.mode = .replied { id := some 7 } ∧
      ¬ FirstReply idJson 7
        ((boardWith (List.replicate n 97)).leftover.line ++ s.capture.writes.flatten)
        s.capture.tx { id := some 7 } := by
  have hopen : (10 : UInt8) ∉ List.replicate n 97 := by simp
  have hline : (boardWith (List.replicate n 97)).leftover.line = List.replicate n 97 :=
    congrArg Prod.snd (splitLines_of_notMem hopen)
  unfold driveUntilReply at hs
  rw [request_long hlong] at hs
  rw [hs, hline]
  exact ⟨rfl, first_reply_cut (Nat.zero_lt_of_lt hlong)⟩

/-- The buffer is past the cap when the request is queued. The rest of that line is taken
for the reply, although the line is not one. -/
theorem rest_of_line_replies :
    ∃ s : Drive Unit Unit,
      s = driveUntilReply Platform.bare idJson () 7 (boardWith (List.replicate 1048577 97)) [] 1000
        replySteps ∧
      s.mode = .replied { id := some 7 } ∧
      ¬ FirstReply idJson 7
        ((boardWith (List.replicate 1048577 97)).leftover.line ++ s.capture.writes.flatten)
        s.capture.tx { id := some 7 } :=
  ⟨_, rfl, replies_of_long (by decide) _ rfl⟩

end Tdvmm.Vmm
