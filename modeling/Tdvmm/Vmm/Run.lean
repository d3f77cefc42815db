import Tdvmm.Lib.Trace
import Tdvmm.Vmm.Park

/-!
# Vmm.Run — the vCPU run loop

`run_user_backend` of `src/main.rs`: a boundary (timers, devices, agent), the injection, one
`KVM_RUN` and the handling of its exit, again and again. A guest that halts with interrupts
enabled is parked; every turn of the park is a step of its own, so that a run may be looked at
between any two turns.

An input of the loop says what the guest did in one `KVM_RUN` (which exit it took and with what
data), and nothing restricts it.
-/

namespace Tdvmm.Vmm

open Lib Proto Egress

variable {U D : Type}

/-- Why a run stopped. -/
inductive StopReason where
  | horizon
  | guestHalt
  | guestShutdown
  | guestSystemEvent
  | driverFinish
deriving DecidableEq, Repr

/-- What one `KVM_RUN` came back with. `interrupted` is an `EINTR` or `EAGAIN`. -/
inductive Exit where
  | interrupted
  | runFailed
  | ioOut (port : UInt16) (data : Bytes)
  | ioIn (port : UInt16) (len : Nat)
  | mmioRead (addr : UInt64)
  | mmioWrite (addr : UInt64) (data : Bytes) (hostTsc : UInt64)
  | irqWindowOpen
  | hlt (ifFlag : Bool)
  | shutdown
  | systemEvent
  | failEntry
  | internalError
  | other
deriving DecidableEq, Repr

/-- The answers of the world in one iteration of the run loop. -/
structure LoopInput where
  hostTsc : UInt64
  env : Env
  lineTsc : Nat → UInt64
  cr8 : UInt64
  /-- KVM can take an interrupt now. -/
  ready : Bool
  ifFlag : Bool
  injectOk : Bool
  exit : Exit

/-- What the loop does after an iteration. -/
inductive Next where
  | run
  | park
  | stop (r : StopReason)
deriving DecidableEq, Repr

/-- The first four bytes as a little-endian integer; missing ones are zero. -/
def readU32Le (data : Bytes) : UInt32 :=
  u32FromLeBytes (data.getD 0 0) (data.getD 1 0) (data.getD 2 0) (data.getD 3 0)

section Loop

variable (P : Platform U D)

/-- COM1 output: all bytes, then one look at the interrupt. -/
def consoleOut (off : UInt8) (data : Bytes) (m : Machine U D) : Machine U D :=
  let console := data.foldl (fun s b => s.write P.uart off b) m.console
  let (console, lapic) := console.afterIo m.lapic m.ioapic SERIAL_IRQ
  { m with console := console, lapic := lapic }

def consoleIn (off : UInt8) (len : Nat) (m : Machine U D) : Machine U D :=
  let console := (List.range len).foldl (fun s _ => (s.read P.uart off).2) m.console
  let (console, lapic) := console.afterIo m.lapic m.ioapic SERIAL_IRQ
  { m with console := console, lapic := lapic }

def com2Write (port : UInt16) (m : Machine U D) (b : UInt8) : Machine U D :=
  let (com2, lapic) := m.com2.pioWrite P.uart port b m.lapic m.ioapic
  { m with com2 := com2, lapic := lapic }

def com2Read (port : UInt16) (m : Machine U D) : Machine U D :=
  let (com2, lapic) := m.com2.pioRead P.uart port m.lapic m.ioapic
  { m with com2 := com2, lapic := lapic }

/-- One byte written to COM4, which is there only with egress on. -/
def com4Write (port : UInt16) (m : Machine U D) (b : UInt8) : Machine U D :=
  match m.egress with
  | some eg =>
    let (eg, lapic) := eg.pioWrite P.uart port b m.lapic m.ioapic
    { m with egress := some eg, lapic := lapic }
  | none => m

def com4Read (port : UInt16) (m : Machine U D) : Machine U D :=
  match m.egress with
  | some eg =>
    let (eg, lapic) := eg.pioRead P.uart port m.lapic m.ioapic
    { m with egress := some eg, lapic := lapic }
  | none => m

/-- A port write. The PIT, the PIC and the POST port touch nothing modelled here. -/
def ioOut (port : UInt16) (data : Bytes) (m : Machine U D) : Machine U D :=
  if portHandles SERIAL_PORT_BASE port then consoleOut P (port - SERIAL_PORT_BASE).toUInt8 data m
  else if ControlChannel.handles port then data.foldl (com2Write P port) m
  else if EgressChannel.handles port then data.foldl (com4Write P port) m
  else m

def ioIn (port : UInt16) (len : Nat) (m : Machine U D) : Machine U D :=
  if portHandles SERIAL_PORT_BASE port then consoleIn P (port - SERIAL_PORT_BASE).toUInt8 len m
  else if ControlChannel.handles port then (com2Read P port)^[len] m
  else if EgressChannel.handles port then (com4Read P port)^[len] m
  else m

/-- An MMIO write: the LAPIC, the IOAPIC, or nothing. -/
def mmioWrite (addr : UInt64) (data : Bytes) (hostTsc : UInt64) (m : Machine U D) : Machine U D :=
  let val := readU32Le data
  if inLapic addr then
    let now := m.lapic.clock.vtscFromHost m.tsc hostTsc
    { m with lapic := m.lapic.mmioWrite (addr - XAPIC_BASE).toUInt32 val now }
  else if Ioapic.handles addr then { m with ioapic := m.ioapic.mmioWrite addr val }
  else m

/-- Handle the exit of `KVM_RUN`. A halt with interrupts off can never wake and
ends the run. -/
def handleExit : Exit → VmmM U D Next
  | .interrupted | .mmioRead _ | .irqWindowOpen | .other => pure .run
  | .runFailed | .failEntry | .internalError => Eff.fail .runFailed
  | .ioOut port data => do
    Eff.update (ioOut P port data)
    return .run
  | .ioIn port len => do
    Eff.update (ioIn P port len)
    return .run
  | .mmioWrite addr data hostTsc => do
    Eff.update (mmioWrite addr data hostTsc)
    return .run
  | .hlt ifFlag => return if ifFlag then .park else .stop .guestHalt
  | .shutdown => return .stop .guestShutdown
  | .systemEvent => return .stop .guestSystemEvent

def com2Pump (m : Machine U D) : Machine U D :=
  let (com2, lapic) := m.com2.pump P.uart m.lapic m.ioapic
  { m with com2 := com2, lapic := lapic }

/-- Hand KVM a deliverable vector if the guest can take it now. -/
def injectVector (i : LoopInput) : Option UInt8 → VmmM U D Unit
  | none => pure ()
  | some vec =>
    if i.ready ∧ i.ifFlag then
      if i.injectOk then Eff.update fun m => { m with lapic := m.lapic.ackInjected vec }
      else Eff.fail .injectFailed
    else pure ()

/-- Take the task priority from CR8, then inject. -/
def inject (i : LoopInput) : VmmM U D Unit := do
  Eff.update fun m => { m with lapic := m.lapic.syncTprFromCr8 i.cr8 }
  injectVector i (← Eff.read).lapic.deliverableVector

/-- The rest of an iteration, after its boundary: devices, agent, injection, and one
`KVM_RUN`. -/
def serveAndRun (i : LoopInput) : VmmM U D Next := do
  Eff.update (com2Pump P)
  egressPump P i.env
  if ← agentLines P i.lineTsc then return .stop .driverFinish
  else do
    inject i
    handleExit P i.exit

def loopTurn (i : LoopInput) : VmmM U D Next := do
  if ← boundary i.hostTsc then return .stop .horizon
  else serveAndRun P i

end Loop

/-! ## Runs -/

/-- Where the run is. -/
inductive Mode where
  | running
  | parked
  | stopped (r : StopReason)
  | aborted (a : Abort)
deriving DecidableEq, Repr

/-- One turn of a park, as it was taken. -/
structure TurnRecord (U D : Type) where
  before : Machine U D
  input : ParkInput
  result : Except Abort Turn
  after : Machine U D

/-- A run so far. `turns` is for the proofs only: the turns taken in parks. -/
structure RunState (U D : Type) where
  machine : Machine U D
  mode : Mode
  turns : List (TurnRecord U D)

/-- An input of a run: one for the run loop or one for a park. -/
inductive Input where
  | loop (i : LoopInput)
  | park (i : ParkInput)

def Mode.afterLoop : Except Abort Next → Mode
  | .ok .run => .running
  | .ok .park => .parked
  | .ok (.stop r) => .stopped r
  | .error a => .aborted a

def Mode.afterTurn : Except Abort Turn → Mode
  | .ok (.returned .deliverable) => .running
  | .ok (.returned .horizon) => .stopped .horizon
  | .ok (.returned .driverFinish) => .stopped .driverFinish
  | .ok _ => .parked
  | .error a => .aborted a

def RunState.looped (P : Platform U D) (s : RunState U D) (i : LoopInput) : RunState U D :=
  let (res, m) := (loopTurn P i).run s.machine
  { s with machine := m, mode := Mode.afterLoop res }

def RunState.turned (P : Platform U D) (s : RunState U D) (i : ParkInput) : RunState U D :=
  let (res, m) := (parkTurn P i).run s.machine
  { machine := m
    mode := Mode.afterTurn res
    turns := s.turns ++ [⟨s.machine, i, res, m⟩] }

/-- One step. An input the run does not ask for in its mode is left unread. -/
def RunState.step (P : Platform U D) (s : RunState U D) : Input → RunState U D
  | .loop i => if s.mode = .running then s.looped P i else s
  | .park i => if s.mode = .parked then s.turned P i else s

/-- How a run is set up. `budget` is `--max-virtual-time` in cycles. -/
structure Config (U D : Type) where
  tscOffset : Int64
  freq : TscFrequency
  /-- The host TSC when the run starts. -/
  startTsc : UInt64
  ratioNum : UInt64
  ratioDen : UInt64
  ratio : 0 < ratioNum ∧ 0 < ratioDen
  apicId : UInt8
  uart : U
  allowEgress : Bool
  unsafeJumps : Bool
  /-- The single-jump bound, with fast-forward on. -/
  maxJumpCycles : Option UInt64
  budget : Option UInt64
  driver : D

namespace Config

/-- The clock of the run; the LAPIC gets a clone. -/
def clock (c : Config U D) : VirtualClock := ⟨0, c.freq⟩

/-- The offset as the clock read it from KVM. -/
def tsc (c : Config U D) : Tsc := ⟨fun _ => c.tscOffset, c.tscOffset⟩

def serial (c : Config U D) : Serial U := ⟨c.uart, false, []⟩

def vtscStart (c : Config U D) : UInt64 := c.clock.vtscFromHost c.tsc c.startTsc

/-- The horizon is a wrapping sum. -/
def horizon (c : Config U D) : Option UInt64 := c.budget.map (c.vtscStart + ·)

def machine (c : Config U D) : Machine U D where
  tsc := c.tsc
  clock := c.clock
  lapic := Lapic.new c.clock c.ratioNum c.ratioDen c.ratio
  ioapic := Ioapic.new c.apicId
  events := EventQueue.new
  console := c.serial
  stdinOpen := true
  com2 := ⟨c.serial, []⟩
  egress := if c.allowEgress then some ⟨Backend.init, c.serial, c.unsafeJumps⟩ else none
  driver := c.driver
  ff := c.maxJumpCycles.map fun max => ⟨max, 0, 0, 0⟩
  horizon := c.horizon
  vtscStart := c.vtscStart
  serviced := []

end Config

def Config.init (c : Config U D) : RunState U D := ⟨c.machine, .running, []⟩

def run (P : Platform U D) (c : Config U D) (is : List Input) : RunState U D :=
  is.foldl (RunState.step P) c.init

/-! ## A bare machine

The smallest platform and the quietest world, for concrete runs. -/

/-- A UART that transmits what is written to its data register and takes all it is
offered. -/
def Uart.bare : Uart Unit where
  write _ off byte := ((), if off = 0 then [byte] else [], false)
  read _ _ := (0, (), false)
  enqueueRawBytes _ bytes := (some bytes.length, (), true)
  fifoCapacity _ := 64

/-- No agent ever finishes the run. -/
def Platform.bare : Platform Unit Unit := ⟨Uart.bare, fun _ _ d => (false, d)⟩

/-- Sockets and resolver have nothing to say. -/
def silent : Env where
  takeResolved _ := []
  startConnect _ _ _ := false
  pollConnect _ _ := .pending
  read _ _ _ := .wouldBlock
  write _ _ _ := .wouldBlock
  epollCtl _ _ := true

/-- A turn with a quiet console and quiet sockets: the host TSC at the boundary and
at the jump. -/
def ParkInput.bare (hostTsc jumpTsc : UInt64) : ParkInput where
  stdinReady := some false
  console := .again
  hostTsc := hostTsc
  lineTsc _ := hostTsc
  env := silent
  waitTsc := hostTsc
  wake := some false
  wakeConsole := .again
  gatedNs := 0
  jumpTsc := jumpTsc
  kvm _ := true

/-- An iteration of the loop whose `KVM_RUN` takes the exit. -/
def LoopInput.bare (hostTsc : UInt64) (exit : Exit) : LoopInput where
  hostTsc := hostTsc
  env := silent
  lineTsc _ := hostTsc
  cr8 := 0
  ready := true
  ifFlag := true
  injectOk := true
  exit := exit

def lapicWrite (hostTsc : UInt64) (reg : UInt32) (val : UInt32) : Input :=
  .loop (.bare hostTsc (.mmioWrite (XAPIC_BASE + reg.toUInt64) (u32ToLeBytes val) hostTsc))

def halt (hostTsc : UInt64) : Input := .loop (.bare hostTsc (.hlt true))

/-- A configuration with zero offset and a TSC of 1 kHz, started at a host TSC. -/
def Config.bare (startTsc : UInt64) (allowEgress : Bool) (maxJumpCycles budget : Option UInt64) :
    Config Unit Unit where
  tscOffset := 0
  freq := ⟨1000, TscFrequency.kilohertz_pos⟩
  startTsc := startTsc
  ratioNum := 1
  ratioDen := 1
  ratio := Lapic.one_to_one
  apicId := 0
  uart := ()
  allowEgress := allowEgress
  unsafeJumps := false
  maxJumpCycles := maxJumpCycles
  budget := budget
  driver := ()

end Tdvmm.Vmm
