import Tdvmm.Egress.Backend
import Tdvmm.Vmm.Ioapic

/-!
# Vmm.Channel — the serial devices

The three 16550 UARTs of the VMM: the console on COM1, the control channel to the agent on COM2
(`src/control.rs`) and, with egress on, the mux channel on COM4 (`EgressChannel` of
`src/egress.rs`).

The UART itself is the `vm-superio` crate and enters as a parameter: what a register write
emits, what a read returns, how many of the enqueued bytes the receive FIFO takes, and whether
the access asserted the interrupt.
-/

namespace Tdvmm.Vmm

open Lib Proto Egress

/-- A 16550 of `vm-superio`. The last component of each answer is whether the
model triggered its interrupt. -/
structure Uart (U : Type) where
  /-- A register write, with the bytes it emits to the sink. -/
  write : U → UInt8 → UInt8 → U × Bytes × Bool
  /-- A register read. -/
  read : U → UInt8 → UInt8 × U × Bool
  /-- Offer bytes to the receive FIFO: the number taken, or an error. -/
  enqueueRawBytes : U → Bytes → Option Nat × U × Bool
  /-- The free space of the receive FIFO. -/
  fifoCapacity : U → Nat

def SERIAL_PORT_BASE : UInt16 := 0x3f8
def SERIAL_IRQ : UInt8 := 4
def SERIAL2_PORT_BASE : UInt16 := 0x2f8
def SERIAL2_IRQ : UInt8 := 3
def SERIAL4_PORT_BASE : UInt16 := 0x2e8
def SERIAL4_IRQ : UInt8 := 3
def TX_BUF_CAP : Nat := 1048576

/-- Whether a port is one of the eight of the UART at `base`. -/
def portHandles (base port : UInt16) : Bool := base ≤ port && port < base + 8

/-- A UART, its interrupt eventfd, and the bytes the guest has transmitted. -/
structure Serial (U : Type) where
  uart : U
  irq : Bool
  tx : Bytes

namespace Serial

variable {U : Type} (hw : Uart U)

def write (s : Serial U) (off byte : UInt8) : Serial U :=
  let (uart, out, fired) := hw.write s.uart off byte
  { uart := uart, irq := s.irq || fired, tx := s.tx ++ out }

def read (s : Serial U) (off : UInt8) : UInt8 × Serial U :=
  let (v, uart, fired) := hw.read s.uart off
  (v, { s with uart := uart, irq := s.irq || fired })

def enqueueRawBytes (s : Serial U) (bytes : Bytes) : Option Nat × Serial U :=
  let (n, uart, fired) := hw.enqueueRawBytes s.uart bytes
  (n, { s with uart := uart, irq := s.irq || fired })

/-- Drain the eventfd; if the UART had signalled, post the edge. -/
def afterIo (s : Serial U) (lapic : Lapic) (ioapic : Ioapic) (irq : UInt8) : Serial U × Lapic :=
  if s.irq then ({ s with irq := false }, raiseIrq lapic ioapic irq) else (s, lapic)

theorem afterIo_raised (s : Serial U) (lapic : Lapic) (ioapic : Ioapic) (irq : UInt8) :
    lapic.Raised (s.afterIo lapic ioapic irq).2 := by
  unfold afterIo
  split_ifs
  · exact raiseIrq_raised lapic ioapic irq
  · exact Lapic.Raised.refl lapic

theorem afterIo_tx (s : Serial U) (lapic : Lapic) (ioapic : Ioapic) (irq : UInt8) :
    (s.afterIo lapic ioapic irq).1.tx = s.tx := by
  unfold afterIo
  split_ifs <;> rfl

end Serial

/-! ## COM2: the control channel -/

/-- The control channel: the serial port and the command bytes that wait for room
in its FIFO. -/
structure ControlChannel (U : Type) where
  serial : Serial U
  pendingRx : Bytes

namespace ControlChannel

variable {U : Type} (hw : Uart U)

def handles (port : UInt16) : Bool := portHandles SERIAL2_PORT_BASE port

/-- Deliver the edge if the UART asserted one. -/
def afterUartIo (c : ControlChannel U) (lapic : Lapic) (ioapic : Ioapic) :
    ControlChannel U × Lapic :=
  let (serial, lapic) := c.serial.afterIo lapic ioapic SERIAL2_IRQ
  ({ c with serial := serial }, lapic)

def pioWrite (c : ControlChannel U) (port : UInt16) (byte : UInt8) (lapic : Lapic)
    (ioapic : Ioapic) : ControlChannel U × Lapic :=
  { c with serial := c.serial.write hw (port - SERIAL2_PORT_BASE).toUInt8 byte }.afterUartIo
    lapic ioapic

def pioRead (c : ControlChannel U) (port : UInt16) (lapic : Lapic) (ioapic : Ioapic) :
    ControlChannel U × Lapic :=
  { c with serial := (c.serial.read hw (port - SERIAL2_PORT_BASE).toUInt8).2 }.afterUartIo
    lapic ioapic

def sendFrame (c : ControlChannel U) (framed : Bytes) : ControlChannel U :=
  { c with pendingRx := c.pendingRx ++ framed }

/-- The loop of `pump`: feed the FIFO while it has room and takes something. Every
round that goes on takes a byte, so the pending bytes bound the rounds. -/
def feed : Nat → ControlChannel U → Bool × ControlChannel U
  | 0, c => (false, c)
  | fuel + 1, c =>
    let cap := hw.fifoCapacity c.serial.uart
    if c.pendingRx.isEmpty ∨ cap = 0 then (false, c)
    else
      match c.serial.enqueueRawBytes hw (c.pendingRx.take cap) with
      | (some (n + 1), serial) =>
        let (_, c) := feed fuel { serial := serial, pendingRx := c.pendingRx.drop (n + 1) }
        (true, c)
      | (_, serial) => (false, { c with serial := serial })

/-- Move queued bytes into the FIFO and raise the line if any moved. -/
def pump (c : ControlChannel U) (lapic : Lapic) (ioapic : Ioapic) : ControlChannel U × Lapic :=
  let (sent, c) := feed hw c.pendingRx.length c
  if sent then c.afterUartIo lapic ioapic else (c, lapic)

/-- Pop one reply line without its newline; a buffer past the cap with no newline
in it is dropped. -/
def pollLine (c : ControlChannel U) : Option Bytes × ControlChannel U :=
  let (line, rest) := c.serial.tx.span (· ≠ 10)
  match rest with
  | _ :: rest =>
    let line := if line.getLast? = some 13 then line.dropLast else line
    (some line, { c with serial := { c.serial with tx := rest } })
  | [] =>
    if c.serial.tx.length > TX_BUF_CAP then
      (none, { c with serial := { c.serial with tx := [] } })
    else (none, c)

theorem pump_raised (c : ControlChannel U) (lapic : Lapic) (ioapic : Ioapic) :
    lapic.Raised (c.pump hw lapic ioapic).2 := by
  unfold pump
  dsimp only
  split_ifs
  · exact Serial.afterIo_raised _ lapic ioapic SERIAL2_IRQ
  · exact Lapic.Raised.refl lapic

end ControlChannel

/-! ## COM4: the egress channel -/

/-- The egress channel: the backend behind its serial port. `serial.tx` is the
capture buffer of what the guest wrote since the last pump. -/
structure EgressChannel (U : Type) where
  backend : Backend
  serial : Serial U
  unsafeJumps : Bool

namespace EgressChannel

variable {U : Type} (hw : Uart U)

def handles (port : UInt16) : Bool := portHandles SERIAL4_PORT_BASE port

def afterUartIo (c : EgressChannel U) (lapic : Lapic) (ioapic : Ioapic) :
    EgressChannel U × Lapic :=
  let (serial, lapic) := c.serial.afterIo lapic ioapic SERIAL4_IRQ
  ({ c with serial := serial }, lapic)

def pioWrite (c : EgressChannel U) (port : UInt16) (byte : UInt8) (lapic : Lapic)
    (ioapic : Ioapic) : EgressChannel U × Lapic :=
  { c with serial := c.serial.write hw (port - SERIAL4_PORT_BASE).toUInt8 byte }.afterUartIo
    lapic ioapic

def pioRead (c : EgressChannel U) (port : UInt16) (lapic : Lapic) (ioapic : Ioapic) :
    EgressChannel U × Lapic :=
  { c with serial := (c.serial.read hw (port - SERIAL4_PORT_BASE).toUInt8).2 }.afterUartIo
    lapic ioapic

def isQuiescent (c : EgressChannel U) : Bool := c.backend.isQuiescent

/-- The delivery loop of `pump`: drain what fits, offer it, and put back what the
FIFO did not take. Every round that goes on has delivered a whole chunk, so the
pending bytes bound the rounds. -/
def feed : Nat → EgressChannel U → Bool × EgressChannel U
  | 0, c => (false, c)
  | fuel + 1, c =>
    let cap := hw.fifoCapacity c.serial.uart
    if cap = 0 ∨ ¬ c.backend.hasFramesForGuest then (false, c)
    else
      let (chunk, backend) := c.backend.drainToGuest cap
      match c.serial.enqueueRawBytes hw chunk with
      | (some (n + 1), serial) =>
        if n + 1 < chunk.length then
          (true, { c with
            backend := backend.unshiftToGuest (chunk.drop (n + 1)), serial := serial })
        else
          let (_, c) := feed fuel { c with backend := backend, serial := serial }
          (true, c)
      | (_, serial) =>
        (false, { c with backend := backend.unshiftToGuest chunk, serial := serial })

/-- Deliver to the guest and raise the line if any byte moved. -/
def deliverToGuest (c : EgressChannel U) (lapic : Lapic) (ioapic : Ioapic) :
    EgressChannel U × Lapic :=
  let (sent, c) := feed hw c.backend.txPending.length c
  if sent then c.afterUartIo lapic ioapic else (c, lapic)

/-- The boundary pump: take the capture buffer, run the backend on it, deliver to
the guest. A backend error leaves before anything is delivered. -/
def pump (env : Env) (c : EgressChannel U) (lapic : Lapic) (ioapic : Ioapic) :
    Except EgressError Unit × EgressChannel U × Lapic :=
  let fromGuest := c.serial.tx
  let c := { c with serial := { c.serial with tx := [] } }
  match (Egress.pump env fromGuest).run c.backend with
  | (.error e, backend) => (.error e, { c with backend := backend }, lapic)
  | (.ok (), backend) =>
    let (c, lapic) := deliverToGuest hw { c with backend := backend } lapic ioapic
    (.ok (), c, lapic)

/-! ### What a pump leaves -/

theorem feed_tx (fuel : Nat) (c : EgressChannel U) :
    (feed hw fuel c).2.serial.tx = c.serial.tx := by
  induction fuel generalizing c with
  | zero => rfl
  | succ fuel ih =>
    unfold feed
    dsimp only
    split_ifs
    · rfl
    · split
      · rename_i n serial henq
        have htx : serial.tx = c.serial.tx := (congrArg (·.2.tx) henq).symm
        split_ifs
        · exact htx
        · exact (ih _).trans htx
      · rename_i serial _ henq
        exact (congrArg (·.2.tx) henq).symm

theorem deliverToGuest_tx (c : EgressChannel U) (lapic : Lapic) (ioapic : Ioapic) :
    (deliverToGuest hw c lapic ioapic).1.serial.tx = c.serial.tx := by
  unfold deliverToGuest
  dsimp only
  split_ifs
  · exact (Serial.afterIo_tx _ lapic ioapic SERIAL4_IRQ).trans (feed_tx hw _ c)
  · exact feed_tx hw _ c

theorem deliverToGuest_raised (c : EgressChannel U) (lapic : Lapic) (ioapic : Ioapic) :
    lapic.Raised (deliverToGuest hw c lapic ioapic).2 := by
  unfold deliverToGuest
  dsimp only
  split_ifs
  · exact Serial.afterIo_raised _ lapic ioapic SERIAL4_IRQ
  · exact Lapic.Raised.refl lapic

theorem pump_tx (env : Env) (c : EgressChannel U) (lapic : Lapic) (ioapic : Ioapic) :
    (c.pump hw env lapic ioapic).2.1.serial.tx = [] := by
  unfold pump
  dsimp only
  split
  · rfl
  · exact deliverToGuest_tx hw _ lapic ioapic

theorem pump_raised (env : Env) (c : EgressChannel U) (lapic : Lapic) (ioapic : Ioapic) :
    lapic.Raised (c.pump hw env lapic ioapic).2.2 := by
  unfold pump
  dsimp only
  split
  · exact Lapic.Raised.refl lapic
  · exact deliverToGuest_raised hw _ lapic ioapic

end EgressChannel

end Tdvmm.Vmm
