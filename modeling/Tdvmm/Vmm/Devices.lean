import Tdvmm.Vmm.Run

/-!
# Vmm.Devices — what the guest reads and writes

The rest of the board: the PIT counter stub (`src/pit.rs`), the masked PIC
(`src/pic.rs`) and the read side of the I/O APIC. `mainExit` is how the run loop
handles a port or MMIO exit, with the data the guest gets back; on the machine it does
what the exits of `Vmm.Run` do (`mainExit_machine`).

Devices that show the time read the clock at each byte, so an exit takes the vtsc of
its clock readings as an input.
-/

namespace Tdvmm.Vmm

open Lib Proto Egress

/-! ## The PIT -/

def PIT_FREQ_HZ : Nat := 1193182
def PIT_CH0 : UInt16 := 0x40
def PIT_CH2 : UInt16 := 0x42
def PIT_CTRL : UInt16 := 0x43
def ELCR_MASTER : UInt16 := 0x4d0
def ELCR_SLAVE : UInt16 := 0x4d1

inductive AccessMode where
  | loByte
  | hiByte
  | loHiByte
deriving DecidableEq, Repr

def AccessMode.fromBits (bits : UInt8) : AccessMode :=
  if bits &&& 0b11 = 0b01 then .loByte
  else if bits &&& 0b11 = 0b10 then .hiByte
  else .loHiByte

/-- One counter. `anchorVtsc` is when its count was loaded. -/
structure PitChannel where
  access : AccessMode
  writeLoNext : Bool
  writeLoLatch : UInt8
  initial : UInt16
  anchorVtsc : UInt64
  readLoNext : Bool
  latched : Option UInt16
deriving DecidableEq, Repr

/-- The ticks between two vtscs; none if the second is the earlier. -/
def pitTicksSince (anchor now : UInt64) (freq : TscFrequency) : UInt64 :=
  UInt64.ofNat ((now.toNat - anchor.toNat) * PIT_FREQ_HZ / freq.hz.toNat)

namespace PitChannel

def default : PitChannel := ⟨.loHiByte, true, 0, 0xffff, 0, true, none⟩

/-- The live counter: it counts down from its load, modulo `2 ^ 16`. -/
def counter (c : PitChannel) (now : UInt64) (freq : TscFrequency) : UInt16 :=
  (c.initial.toUInt64 - pitTicksSince c.anchorVtsc now freq).toUInt16

def readByte (c : PitChannel) (now : UInt64) (freq : TscFrequency) : UInt8 × PitChannel :=
  let value := c.latched.getD (c.counter now freq)
  match c.access with
  | .loByte => (value.toUInt8, { c with latched := none })
  | .hiByte => ((value >>> 8).toUInt8, { c with latched := none })
  | .loHiByte =>
    -- a latched value is kept until its high byte is read.
    if c.readLoNext then (value.toUInt8, { c with readLoNext := false })
    else ((value >>> 8).toUInt8, { c with readLoNext := true, latched := none })

def writeByte (c : PitChannel) (byte : UInt8) (now : UInt64) : PitChannel :=
  match c.access with
  | .loByte => { c with initial := byte.toUInt16, anchorVtsc := now }
  | .hiByte => { c with initial := byte.toUInt16 <<< 8, anchorVtsc := now }
  | .loHiByte =>
    if c.writeLoNext then { c with writeLoLatch := byte, writeLoNext := false }
    else
      { c with
        initial := (byte.toUInt16 <<< 8) ||| c.writeLoLatch.toUInt16
        writeLoNext := true
        anchorVtsc := now }

/-- A control word other than a latch command. -/
def program (c : PitChannel) (access : AccessMode) : PitChannel :=
  { c with access := access, readLoNext := true, writeLoNext := true, latched := none }

/-- Freeze the count for reading; a latch that is not read yet stays. -/
def latch (c : PitChannel) (now : UInt64) (freq : TscFrequency) : PitChannel :=
  if c.latched.isNone then { c with latched := some (c.counter now freq), readLoNext := true }
  else c

end PitChannel

structure PitStub where
  channels : Vector PitChannel 3
  elcr : UInt8 × UInt8
  freq : TscFrequency

namespace PitStub

def new (freq : TscFrequency) : PitStub := ⟨Vector.replicate 3 .default, (0, 0), freq⟩

def handles (port : UInt16) : Bool :=
  (PIT_CH0 ≤ port && port ≤ PIT_CTRL) || port = ELCR_MASTER || port = ELCR_SLAVE

/-- The channel of a data port. -/
def channelOf (port : UInt16) : Fin 3 := Fin.ofNat 3 (port - PIT_CH0).toNat

def readAt (p : PitStub) (port : UInt16) (now : UInt64) : UInt8 × PitStub :=
  if PIT_CH0 ≤ port ∧ port ≤ PIT_CH2 then
    let (byte, c) := (p.channels.get (channelOf port)).readByte now p.freq
    (byte, { p with channels := p.channels.set (channelOf port) c })
  else if port = ELCR_MASTER then (p.elcr.1, p)
  else if port = ELCR_SLAVE then (p.elcr.2, p)
  -- The control port is write-only.
  else (0xff, p)

/-- The read-back command latches every selected counter, unless it is told not to;
otherwise the word latches or programs its channel. -/
def writeControl (p : PitStub) (cw : UInt8) (now : UInt64) : PitStub :=
  let sel := cw >>> 6
  if sel = 0b11 then
    if cw &&& 0x20 = 0 then
      { p with
        channels := p.channels.mapIdx fun i c =>
          if cw &&& (1 <<< UInt8.ofNat (i + 1)) ≠ 0 then c.latch now p.freq else c }
    else p
  else
    let i : Fin 3 := Fin.ofNat 3 sel.toNat
    let c := p.channels.get i
    let access := (cw >>> 4) &&& 0b11
    let c := if access = 0 then c.latch now p.freq else c.program (.fromBits access)
    { p with channels := p.channels.set i c }

def writeAt (p : PitStub) (port : UInt16) (value : UInt8) (now : UInt64) : PitStub :=
  if PIT_CH0 ≤ port ∧ port ≤ PIT_CH2 then
    let c := (p.channels.get (channelOf port)).writeByte value now
    { p with channels := p.channels.set (channelOf port) c }
  else if port = PIT_CTRL then p.writeControl value now
  else if port = ELCR_MASTER then { p with elcr := (value, p.elcr.2) }
  else if port = ELCR_SLAVE then { p with elcr := (p.elcr.1, value) }
  else p

end PitStub

/-! ## The PIC -/

def PIC1_CMD : UInt16 := 0x20
def PIC1_DATA : UInt16 := 0x21
def PIC2_CMD : UInt16 := 0xa0
def PIC2_DATA : UInt16 := 0xa1

/-- One 8259: its mask and how far its initialisation is. -/
structure Pic8259 where
  imr : UInt8
  icwStep : UInt8
  expectIcw4 : Bool
deriving DecidableEq, Repr

namespace Pic8259

def new : Pic8259 := ⟨0xff, 0, false⟩

/-- ICW1 starts the initialisation; other commands do nothing. -/
def writeCmd (p : Pic8259) (val : UInt8) : Pic8259 :=
  if val &&& 0x10 ≠ 0 then { p with expectIcw4 := val &&& 0x01 ≠ 0, icwStep := 1 } else p

def writeData (p : Pic8259) (val : UInt8) : Pic8259 :=
  if p.icwStep = 1 then { p with icwStep := 2 }
  else if p.icwStep = 2 then { p with icwStep := 3 }
  else if p.icwStep = 3 then { p with icwStep := if p.expectIcw4 then 4 else 0 }
  else if p.icwStep = 4 then { p with icwStep := 0 }
  else { p with imr := val }

end Pic8259

structure PicStub where
  master : Pic8259
  slave : Pic8259
deriving DecidableEq, Repr

namespace PicStub

def new : PicStub := ⟨.new, .new⟩

def handles (port : UInt16) : Bool :=
  port = PIC1_CMD || port = PIC1_DATA || port = PIC2_CMD || port = PIC2_DATA

def write (p : PicStub) (port : UInt16) (val : UInt8) : PicStub :=
  if port = PIC1_CMD then { p with master := p.master.writeCmd val }
  else if port = PIC1_DATA then { p with master := p.master.writeData val }
  else if port = PIC2_CMD then { p with slave := p.slave.writeCmd val }
  else if port = PIC2_DATA then { p with slave := p.slave.writeData val }
  else p

/-- Nothing is ever pending, so the command ports read as zero. -/
def read (p : PicStub) (port : UInt16) : UInt8 :=
  if port = PIC1_DATA then p.master.imr
  else if port = PIC2_DATA then p.slave.imr
  else if port = PIC1_CMD ∨ port = PIC2_CMD then 0
  else 0xff

end PicStub

/-! ## The I/O APIC, read -/

def IOAPIC_REG_VER : UInt32 := 0x01
def IOAPIC_REG_ARB : UInt32 := 0x02
def IOAPIC_VERSION : UInt32 := (0x17 : UInt32) ||| ((23 : UInt32) <<< 16)

namespace Ioapic

def readIndirect (io : Ioapic) (index : UInt32) : UInt32 :=
  if index = IOAPIC_REG_ID then io.id
  else if index = IOAPIC_REG_VER then IOAPIC_VERSION
  else if index = IOAPIC_REG_ARB then io.id
  else if IOAPIC_REG_REDTBL_BASE ≤ index ∧ index < IOAPIC_REG_REDTBL_END then
    let rel := (index - IOAPIC_REG_REDTBL_BASE).toNat
    let rte := io.redtbl.getD (rel / 2) 0
    if rel % 2 = 0 then rte.toUInt32 else (rte >>> 32).toUInt32
  else 0

def mmioRead (io : Ioapic) (addr : UInt64) : UInt32 :=
  if addr - IOAPIC_BASE = IOREGSEL then io.ioregsel
  else if addr - IOAPIC_BASE = IOWIN then io.readIndirect io.ioregsel
  else 0

end Ioapic

/-! ## The exits of the run loop -/

variable {U D : Type}

/-- The machine with the devices its own exits leave out. -/
structure Board (U D : Type) where
  machine : Machine U D
  pit : PitStub
  pic : PicStub

/-- A port or MMIO exit. A read comes with the buffer it is to fill. -/
inductive Access where
  | ioOut (port : UInt16) (data : Bytes)
  | ioIn (port : UInt16) (data : Bytes)
  | mmioRead (addr : UInt64) (data : Bytes)
  | mmioWrite (addr : UInt64) (data : Bytes)
deriving DecidableEq, Repr

/-- Write the bytes one by one; `k` counts the clock readings. -/
def writeEach {S : Type} (f : Nat → S → UInt8 → S) : Nat → Bytes → S → S
  | _, [], s => s
  | k, b :: bs, s => writeEach f (k + 1) bs (f k s b)

/-- Fill a buffer of the length byte by byte. -/
def readEach {S : Type} (f : Nat → S → UInt8 × S) : Nat → Nat → S → Bytes × S
  | _, 0, s => ([], s)
  | k, n + 1, s =>
    let (b, s) := f k s
    let (bs, s) := readEach f (k + 1) n s
    (b :: bs, s)

/-- The first four bytes of the buffer are replaced, as many as there are. -/
def writeU32Le (data : Bytes) (val : UInt32) : Bytes :=
  (u32ToLeBytes val).take data.length ++ data.drop 4

def POST_PORT : UInt16 := 0x80

section Exits

variable (P : Platform U D)

def consoleRead (off : UInt8) (len : Nat) (m : Machine U D) : Bytes × Machine U D :=
  let (bytes, console) := readEach (fun _ s => s.read P.uart off) 0 len m.console
  let (console, lapic) := console.afterIo m.lapic m.ioapic SERIAL_IRQ
  (bytes, { m with console := console, lapic := lapic })

def com2ReadByte (port : UInt16) (m : Machine U D) : UInt8 × Machine U D :=
  ((m.com2.serial.read P.uart (port - SERIAL2_PORT_BASE).toUInt8).1, com2Read P port m)

/-- One byte read from COM4, with its value; the value without egress is not used. -/
def com4ReadByte (port : UInt16) (m : Machine U D) : UInt8 × Machine U D :=
  ((m.egress.map fun eg => (eg.serial.read P.uart (port - SERIAL4_PORT_BASE).toUInt8).1).getD 0xff,
    com4Read P port m)

def mmioValue (addr : UInt64) (now : UInt64) (m : Machine U D) : UInt32 :=
  if inLapic addr then m.lapic.mmioRead (addr - XAPIC_BASE).toUInt32 now
  else if Ioapic.handles addr then m.ioapic.mmioRead addr
  else 0

def mmioStore (addr : UInt64) (data : Bytes) (now : UInt64) (m : Machine U D) : Machine U D :=
  let val := readU32Le data
  if inLapic addr then
    { m with lapic := m.lapic.mmioWrite (addr - XAPIC_BASE).toUInt32 val now }
  else if Ioapic.handles addr then { m with ioapic := m.ioapic.mmioWrite addr val }
  else m

def pitOut (now : Nat → UInt64) (port : UInt16) (data : Bytes) (b : Board U D) : Board U D :=
  { b with pit := writeEach (fun k p byte => p.writeAt port byte (now k)) 0 data b.pit }

def picOut (port : UInt16) (data : Bytes) (b : Board U D) : Board U D :=
  { b with pic := data.foldl (fun p byte => p.write port byte) b.pic }

def pitIn (now : Nat → UInt64) (port : UInt16) (len : Nat) (b : Board U D) : Bytes × Board U D :=
  let (bytes, pit) := readEach (fun k (p : PitStub) => p.readAt port (now k)) 0 len b.pit
  (bytes, { b with pit := pit })

/-- The run loop's handling of an exit: the buffer the guest gets and the board after.
`now` is the vtsc of the clock readings. -/
def mainExit (now : Nat → UInt64) (b : Board U D) : Access → Bytes × Board U D
  | .ioOut port data =>
    (data,
      if portHandles SERIAL_PORT_BASE port then
        { b with machine := consoleOut P (port - SERIAL_PORT_BASE).toUInt8 data b.machine }
      else if ControlChannel.handles port then
        { b with machine := data.foldl (com2Write P port) b.machine }
      else if (b.machine.egress.filter fun _ => EgressChannel.handles port).isSome then
        { b with machine := data.foldl (com4Write P port) b.machine }
      else if PitStub.handles port then pitOut now port data b
      else if PicStub.handles port then picOut port data b
      else if port = POST_PORT then b
      else b)
  | .ioIn port data =>
    if portHandles SERIAL_PORT_BASE port then
      let (bytes, m) := consoleRead P (port - SERIAL_PORT_BASE).toUInt8 data.length b.machine
      (bytes, { b with machine := m })
    else if ControlChannel.handles port then
      let (bytes, m) := readEach (fun _ => com2ReadByte P port) 0 data.length b.machine
      (bytes, { b with machine := m })
    else if (b.machine.egress.filter fun _ => EgressChannel.handles port).isSome then
      let (bytes, m) := readEach (fun _ => com4ReadByte P port) 0 data.length b.machine
      (bytes, { b with machine := m })
    else if PitStub.handles port then pitIn now port data.length b
    else if PicStub.handles port then (data.map fun _ => b.pic.read port, b)
    else (data.map fun _ => 0xff, b)
  | .mmioRead addr data => (writeU32Le data (mmioValue addr (now 0) b.machine), b)
  | .mmioWrite addr data => (data, { b with machine := mmioStore addr data (now 0) b.machine })

end Exits

/-! ## On the machine these are the exits of the run -/

/-- The exit as the run has it. -/
def Access.exit (hostTsc : UInt64) : Access → Exit
  | .ioOut port data => .ioOut port data
  | .ioIn port data => .ioIn port data.length
  | .mmioRead addr _ => .mmioRead addr
  | .mmioWrite addr data => .mmioWrite addr data hostTsc

theorem readEach_state {S : Type} (f : S → UInt8 × S) (k n : Nat) (s : S) :
    (readEach (fun _ => f) k n s).2 = (fun s => (f s).2)^[n] s := by
  induction n generalizing k s with
  | zero => rfl
  | succ n ih => exact ih (k + 1) (f s).2

theorem foldl_range_iterate {S : Type} (f : S → S) (n : Nat) (s : S) :
    (List.range n).foldl (fun s _ => f s) s = f^[n] s := by
  induction n generalizing s with
  | zero => rfl
  | succ n ih =>
    rw [List.range_succ_eq_map, List.foldl_cons, List.foldl_map, Function.iterate_succ_apply]
    exact ih (f s)

section Machine

variable (P : Platform U D)

theorem com4_off {m : Machine U D} (h : m.egress = none) (port : UInt16) (data : Bytes) (n : Nat) :
    data.foldl (com4Write P port) m = m ∧ (com4Read P port)^[n] m = m := by
  constructor
  · induction data with
    | nil => rfl
    | cons b bs ih => simpa [com4Write, h] using ih
  · exact Function.iterate_fixed (by simp [com4Read, h]) n

theorem filter_isSome {eg : Option (EgressChannel U)} {p : Bool} :
    (eg.filter fun _ => p).isSome = (eg.isSome && p) := by
  cases eg <;> cases p <;> rfl

/-- The serial ports are decoded alike; the other devices leave the machine alone, and so does
COM4 without egress. -/
theorem decode_machine {T : Type} (f : T → Machine U D) {eg : Option (EgressChannel U)}
    {com1 com2 com4 : Bool} {x₁ x₂ x₄ y : T} {m₁ m₂ m₄ m : Machine U D} (h₁ : f x₁ = m₁)
    (h₂ : f x₂ = m₂) (h₄ : f x₄ = m₄) (hoff : eg = none → m₄ = m) (hrest : f y = m) :
    f (if com1 then x₁ else if com2 then x₂
        else if (eg.filter fun _ => com4).isSome then x₄ else y) =
      if com1 then m₁ else if com2 then m₂ else if com4 then m₄ else m := by
  rw [filter_isSome]
  cases com1 with
  | true => exact h₁
  | false =>
    cases com2 with
    | true => exact h₂
    | false =>
      rcases eg with _ | eg
      · cases com4 with
        | true => exact hrest.trans (hoff rfl).symm
        | false => exact hrest
      · cases com4 with
        | true => exact h₄
        | false => exact hrest

theorem ioOut_machine (now : Nat → UInt64) (b : Board U D) (port : UInt16) (data : Bytes) :
    (mainExit P now b (.ioOut port data)).2.machine = ioOut P port data b.machine := by
  refine decode_machine Board.machine rfl rfl rfl ?_ ?_
  · intro heg
    exact (com4_off P heg port data 0).1
  · split_ifs <;> rfl

theorem ioIn_machine (now : Nat → UInt64) (b : Board U D) (port : UInt16) (data : Bytes) :
    (mainExit P now b (.ioIn port data)).2.machine = ioIn P port data.length b.machine := by
  have hcom1 : (consoleRead P (port - SERIAL_PORT_BASE).toUInt8 data.length b.machine).2 =
      consoleIn P (port - SERIAL_PORT_BASE).toUInt8 data.length b.machine := by
    unfold consoleRead consoleIn
    rw [foldl_range_iterate, ← readEach_state (fun s : Serial U => s.read P.uart _) 0]
  refine decode_machine (fun r : Bytes × Board U D => r.2.machine) hcom1
    (readEach_state (com2ReadByte P port) 0 _ _) (readEach_state (com4ReadByte P port) 0 _ _) ?_ ?_
  · intro heg
    exact (com4_off P heg port [] data.length).2
  · split_ifs <;> rfl

/-- On the machine an exit does what the run has it do, with the clock reading of an
MMIO write taken from the clock. -/
theorem mainExit_machine (now : Nat → UInt64) (b : Board U D) (a : Access) (hostTsc : UInt64)
    (hnow : now 0 = b.machine.lapic.clock.vtscFromHost b.machine.tsc hostTsc) :
    (handleExit P (a.exit hostTsc)).run b.machine = (.ok .run, (mainExit P now b a).2.machine) := by
  cases a with
  | ioOut port data =>
    rw [ioOut_machine]
    rfl
  | ioIn port data =>
    rw [ioIn_machine]
    rfl
  | mmioRead addr data => rfl
  | mmioWrite addr data =>
    show (Except.ok Next.run, mmioWrite addr data hostTsc b.machine) = _
    unfold mainExit mmioWrite mmioStore
    dsimp only
    rw [hnow]

end Machine

end Tdvmm.Vmm
