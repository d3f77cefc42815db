import Tdvmm.Vmm.Channel
import Tdvmm.Vmm.Events

/-!
# Vmm.Park — timer service and the two parks

What the VMM does at a timer-service boundary, and the loops that hold a halted guest
(`src/main.rs`): `real_wait_until_deliverable` with fast-forward off and
`fast_forward_until_deliverable` with it on.

The world answers every question a turn of a park asks: each call that leaves the program (a
clock reading, a poll, the sockets, the KVM ioctl) takes its answer from the turn's `ParkInput`.
A park is then a function of its list of inputs, and a statement about every run is a statement
about every such list.
-/

namespace Tdvmm.Vmm

open Lib Lib.Eff Proto Egress

/-! ## The state of the VMM -/

inductive TimerKind where
  | lapicDeadline
  | stopRun
deriving DecidableEq, Repr

/-- The fast-forward state: the single-jump bound, and the accounting of the
jumps made. -/
structure FfState where
  maxJumpCycles : UInt64
  jumps : Nat
  maxDeltaCycles : UInt64
  sumDeltaCycles : Nat
deriving DecidableEq, Repr

def FfState.recordHop (ff : FfState) (delta : UInt64) : FfState :=
  { ff with
    jumps := ff.jumps + 1
    sumDeltaCycles := ff.sumDeltaCycles + delta.toNat
    maxDeltaCycles := if ff.maxDeltaCycles < delta then delta else ff.maxDeltaCycles }

/-- The code around the run loop that it calls into: the UART crate, and the
driver state machine that folds an agent line (with the virtual nanoseconds of
its arrival) and says whether the run is finished. -/
structure Platform (U D : Type) where
  uart : Uart U
  onAgentLine : Bytes → UInt64 → D → Bool × D

/-- Everything the vCPU thread owns. `console` is COM1; `ff` is there when
fast-forward is on; `horizon` is the vtsc at which the run must stop. `serviced`
is for the proofs only: the vtsc of every timer service so far. -/
structure Machine (U D : Type) where
  tsc : Tsc
  clock : VirtualClock
  lapic : Lapic
  ioapic : Ioapic
  events : EventQueue TimerKind
  console : Serial U
  stdinOpen : Bool
  com2 : ControlChannel U
  egress : Option (EgressChannel U)
  driver : D
  ff : Option FfState
  horizon : Option UInt64
  vtscStart : UInt64
  serviced : List UInt64

/-- The asserts of the parks. -/
inductive Panic where
  | queueDiscipline
  | gateBreached
  | negativeAdvance (delta : Int64)
  | landedElsewhere (landed next : UInt64)
deriving DecidableEq, Repr

/-- How the run ends other than by a stop: an error handed up with `?`, a panic,
or a re-arm loop that never ends. -/
inductive Abort where
  | pollFailed
  | parkFailed
  | injectFailed
  | runFailed
  | egress (e : EgressError)
  | jumpTooLong (delta : UInt64)
  | vtsc (fault : BumpFault)
  | panicked (p : Panic)
  | stuck
deriving DecidableEq, Repr

variable {U D : Type}

/-- A computation of the vCPU thread. -/
abbrev VmmM (U D : Type) := Eff Abort (Machine U D)

def Machine.vtsc (m : Machine U D) (hostTsc : UInt64) : UInt64 :=
  m.clock.vtscFromHost m.tsc hostTsc

/-! ## Timer service -/

/-- The loop of `service_timers`: take out every due event, fire the LAPIC timer
or note the horizon. The queue bounds its rounds. -/
def drainDue (now : UInt64) : Nat → Bool → Lapic → EventQueue TimerKind →
    Except Abort (Bool × Lapic × EventQueue TimerKind)
  | 0, fired, lapic, events => .ok (fired, lapic, events)
  | fuel + 1, fired, lapic, events =>
    match events.popDue now with
    | none => .ok (fired, lapic, events)
    | some (ev, events) =>
      if ¬ ev.deadline ≤ now then .error (.panicked .queueDiscipline)
      else
        match ev.payload with
        | .lapicDeadline =>
          match lapic.fireTimerIfDue now with
          | some (_, lapic) => drainDue now fuel fired lapic events
          | none => .error .stuck
        | .stopRun => drainDue now fuel true lapic events

def pushDeadline (events : EventQueue TimerKind) (deadline : Option UInt64) (kind : TimerKind) :
    EventQueue TimerKind :=
  match deadline with
  | some dl => events.push dl kind
  | none => events

/-- Mirror the LAPIC deadline and the horizon into the queue, then fire what is
due. The answer is whether the horizon fired. -/
def serviceTimers (lapic : Lapic) (events : EventQueue TimerKind) (horizon : Option UInt64)
    (now : UInt64) : Except Abort (Bool × Lapic × EventQueue TimerKind) :=
  let events := pushDeadline events.clear lapic.timerDeadline .lapicDeadline
  let events := pushDeadline events horizon .stopRun
  drainDue now events.heap.length false lapic events

def minDeadline (queue lapic : Option UInt64) : Option UInt64 :=
  match queue, lapic with
  | some a, some b => some (if a ≤ b then a else b)
  | some a, none => some a
  | none, b => b

def storeTimers : Except Abort (Bool × Lapic × EventQueue TimerKind) → VmmM U D Bool
  | .error e => Eff.fail e
  | .ok (fired, lapic, events) => do
    Eff.update fun m => { m with lapic := lapic, events := events }
    return fired

/-- One timer-service boundary, at the vtsc of the host sample. -/
def boundary (hostTsc : UInt64) : VmmM U D Bool := do
  let m ← Eff.read
  let now := m.vtsc hostTsc
  Eff.update fun m => { m with serviced := m.serviced ++ [now] }
  storeTimers (serviceTimers m.lapic m.events m.horizon now)

/-! ## Inputs of a turn -/

/-- What a read of stdin returns: at least one byte, end of file, or nothing yet. -/
inductive ConsoleRead where
  | data (first : UInt8) (rest : Bytes)
  | eof
  | again
deriving DecidableEq, Repr

/-- The answers of the world in one turn of a park, in the order in which they are
asked for. Those of branches not taken are not looked at. -/
structure ParkInput where
  /-- The poll of stdin: ready or not, `none` for an error. -/
  stdinReady : Option Bool
  console : ConsoleRead
  /-- The host TSC at the timer service. -/
  hostTsc : UInt64
  /-- The host TSC when the `k`-th agent line of this turn is stamped. -/
  lineTsc : Nat → UInt64
  env : Env
  /-- The host TSC when the wait is computed. -/
  waitTsc : UInt64
  /-- What ends the wait: `some true` is console input, `none` an error. -/
  wake : Option Bool
  wakeConsole : ConsoleRead
  gatedNs : Nat
  /-- The host TSC at the jump. -/
  jumpTsc : UInt64
  kvm : KvmWrite

/-- How a park returns. -/
inductive ParkOutcome where
  | deliverable
  | horizon
  | driverFinish
deriving DecidableEq, Repr

/-- What one turn of a park came to: it returned, waited in `ppoll` with the given
timeout, found its target already due, or jumped. -/
inductive Turn where
  | returned (o : ParkOutcome)
  | waited (timeout : Option UInt64)
  | due
  | jumped (target : UInt64)
deriving DecidableEq, Repr

/-! ## The steps of a turn -/

section Steps

variable (P : Platform U D)

/-- Feed what stdin has to the console UART and raise its line; end of file stops
the polling. -/
def serviceConsoleInput (r : ConsoleRead) (m : Machine U D) : Machine U D :=
  match r with
  | .data first rest =>
    let console := (m.console.enqueueRawBytes P.uart (first :: rest)).2
    let (console, lapic) := console.afterIo m.lapic m.ioapic SERIAL_IRQ
    { m with console := console, lapic := lapic }
  | .eof => { m with stdinOpen := false }
  | .again => m

/-- Fold the agent's complete lines into the driver until one finishes the run.
Every line takes its newline out of the buffer, so the buffer bounds the rounds. -/
def drainAgent (lineNs : Nat → UInt64) :
    Nat → Nat → ControlChannel U → D → Bool × ControlChannel U × D
  | 0, _, com2, driver => (false, com2, driver)
  | fuel + 1, k, com2, driver =>
    match com2.pollLine with
    | (none, com2) => (false, com2, driver)
    | (some line, com2) =>
      match P.onAgentLine line (lineNs k) driver with
      | (true, driver) => (true, com2, driver)
      | (false, driver) => drainAgent lineNs fuel (k + 1) com2 driver

def Machine.virtualNs (m : Machine U D) (hostTsc : UInt64) : UInt64 :=
  let now := m.vtsc hostTsc
  m.clock.freq.cyclesToNs (if now ≤ m.vtscStart then 0 else now - m.vtscStart)

/-- `park_drain_agent`: whether a line finished the run. -/
def agentLines (lineTsc : Nat → UInt64) : VmmM U D Bool := do
  let m ← Eff.read
  let (finished, com2, driver) :=
    drainAgent P (fun k => m.virtualNs (lineTsc k)) m.com2.serial.tx.length 0 m.com2 m.driver
  Eff.update fun m => { m with com2 := com2, driver := driver }
  return finished

def egressPump (env : Env) : VmmM U D Unit := do
  let m ← Eff.read
  match m.egress with
  | none => pure ()
  | some eg =>
    let (res, eg, lapic) := eg.pump P.uart env m.lapic m.ioapic
    Eff.update fun m => { m with egress := some eg, lapic := lapic }
    match res with
    | .ok () => pure ()
    | .error e => Eff.fail (.egress e)

/-- The part both parks share: timers, agent, egress, and whether to return. -/
def attend (i : ParkInput) : VmmM U D (Option ParkOutcome) := do
  if ← boundary i.hostTsc then return some .horizon
  if ← agentLines P i.lineTsc then return some .driverFinish
  egressPump P i.env
  let m ← Eff.read
  return if m.lapic.deliverableVector.isSome then some .deliverable else none

def Machine.timeoutNs (m : Machine U D) (waitTsc : UInt64) : Option UInt64 :=
  m.events.peekDeadline.map fun dl =>
    let now := m.vtsc waitTsc
    if dl ≤ now then 0 else m.clock.freq.cyclesToNs (dl - now)

/-- `Parker::park` and the console input it may wake for. A zero timeout returns at
once; stdin is only polled while it is open. -/
def parkFor (timeout : Option UInt64) (i : ParkInput) : VmmM U D Unit := do
  if timeout = some 0 then return
  match i.wake with
  | none => Eff.fail .parkFailed
  | some input =>
    if input ∧ (← Eff.read).stdinOpen then Eff.update (serviceConsoleInput P i.wakeConsole)

/-! ## Fast-forward off -/

def realTurn (i : ParkInput) : VmmM U D Turn := do
  match ← attend P i with
  | some o => return .returned o
  | none =>
    let timeout := (← Eff.read).timeoutNs i.waitTsc
    parkFor P timeout i
    return .waited timeout

/-! ## Fast-forward on -/

/-- Console input goes first, without blocking. -/
def stdinFirst (i : ParkInput) : VmmM U D Unit := do
  if (← Eff.read).stdinOpen then
    match i.stdinReady with
    | none => Eff.fail .pollFailed
    | some ready => if ready then Eff.update (serviceConsoleInput P i.console)

/-- Whether the phase gate holds the park at real rate. -/
def Machine.gated (m : Machine U D) : Bool :=
  match m.egress with
  | some eg => !eg.unsafeJumps && !eg.isQuiescent
  | none => false

/-- The wait the phase gate imposes, and its accounting. -/
def gatedWait (i : ParkInput) : VmmM U D Turn := do
  let timeout := (← Eff.read).timeoutNs i.waitTsc
  parkFor P timeout i
  Eff.update fun m =>
    { m with
      egress := m.egress.map fun eg =>
        { eg with backend := eg.backend.noteGatedInterval i.gatedNs } }
  return .waited timeout

/-- Store what a bump came to; the assert on a negative advance is a panic, the
rest are errors. -/
def storeBump (m : Machine U D) : Except BumpFault Unit × Tsc → Except Abort Unit × Machine U D
  | (.ok (), tsc) => (.ok (), { m with tsc := tsc })
  | (.error (.negative d), tsc) => (.error (.panicked (.negativeAdvance d)), { m with tsc := tsc })
  | (.error fault, tsc) => (.error (.vtsc fault), { m with tsc := tsc })

def bump (kvm : KvmWrite) (delta : UInt64) : VmmM U D Unit := fun m =>
  storeBump m ((m.clock.bumpOffset kvm delta.toInt64).run m.tsc)

/-- The advance a jump to `next` asks for at the jump's host sample. -/
def Machine.delta (m : Machine U D) (i : ParkInput) (next : UInt64) : UInt64 :=
  next - m.vtsc i.jumpTsc

/-- `assert_ff_jump_legal`: whether the egress state lets a jump pass. -/
def Machine.jumpLegal (m : Machine U D) : Bool := ffJumpAllowed (m.egress.map (·.backend))

/-- After the bump: the landing must be exact at the same host sample. -/
def land (ff : FfState) (i : ParkInput) (delta next : UInt64) : VmmM U D Turn := do
  let m ← Eff.read
  if m.vtsc i.jumpTsc ≠ next then
    Eff.fail (.panicked (.landedElsewhere (m.vtsc i.jumpTsc) next))
  else do
    Eff.update fun m => { m with ff := some (ff.recordHop delta) }
    return .jumped next

/-- The jump to `next`: skipped when it is due by now, refused past the bound
unless it goes to the horizon, and guarded by the always-on phase-gate assert. -/
def jumpTo (ff : FfState) (i : ParkInput) (next : UInt64) : VmmM U D Turn := do
  let m ← Eff.read
  if next ≤ m.vtsc i.jumpTsc then return .due
  else if m.horizon ≠ some next ∧ ff.maxJumpCycles < m.delta i next then
    Eff.fail (.jumpTooLong (m.delta i next))
  else if m.jumpLegal = false then Eff.fail (.panicked .gateBreached)
  else do
    bump i.kvm (m.delta i next)
    land ff i (m.delta i next) next

/-- What a fast-forward turn does once nothing is deliverable: wait at the gate,
wait for input when no deadline is queued, or jump. -/
def advance (ff : FfState) (i : ParkInput) : VmmM U D Turn := do
  let m ← Eff.read
  if m.gated then gatedWait P i
  else
    match m.events.peekDeadline with
    | some next => jumpTo ff i next
    | none =>
      parkFor P none i
      return .waited none

def ffTurn (ff : FfState) (i : ParkInput) : VmmM U D Turn := do
  stdinFirst P i
  match ← attend P i with
  | some o => return .returned o
  | none => advance P ff i

/-- One turn of the park: which one depends on whether fast-forward is on. -/
def parkTurn (i : ParkInput) : VmmM U D Turn := do
  match (← Eff.read).ff with
  | some ff => ffTurn P ff i
  | none => realTurn P i

end Steps

end Tdvmm.Vmm
