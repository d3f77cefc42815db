import Mathlib.Tactic.IntervalCases
import Tdvmm.Vmm.Devices

/-!
# Vmm.Capture — the exits of the log capture

After the verdict the VMM drives the guest once more to pull its logs (`drive_until_reply`),
with a loop of its own. Its handling of port and MMIO exits is a second chain of devices,
written out beside that of the run loop. The two agree on every exit that is not on a port of
COM4 with egress on (`capture_agrees_iff`): the capture has no arm for COM4, so there a write is
dropped and a read finds an open bus.
-/

namespace Tdvmm.Vmm

open Lib Proto Egress

variable {U D : Type} (P : Platform U D)

def captureExit (now : Nat → UInt64) (b : Board U D) : Access → Bytes × Board U D
  | .ioOut port data =>
    (data,
      if portHandles SERIAL_PORT_BASE port then
        { b with machine := consoleOut P (port - SERIAL_PORT_BASE).toUInt8 data b.machine }
      else if ControlChannel.handles port then
        { b with machine := data.foldl (com2Write P port) b.machine }
      else if PitStub.handles port then pitOut now port data b
      else if PicStub.handles port then picOut port data b
      else b)
  | .ioIn port data =>
    if portHandles SERIAL_PORT_BASE port then
      let (bytes, m) := consoleRead P (port - SERIAL_PORT_BASE).toUInt8 data.length b.machine
      (bytes, { b with machine := m })
    else if ControlChannel.handles port then
      let (bytes, m) := readEach (fun _ => com2ReadByte P port) 0 data.length b.machine
      (bytes, { b with machine := m })
    else if PitStub.handles port then pitIn now port data.length b
    else if PicStub.handles port then (data.map fun _ => b.pic.read port, b)
    else (data.map fun _ => 0xff, b)
  | .mmioRead addr data => (writeU32Le data (mmioValue addr (now 0) b.machine), b)
  | .mmioWrite addr data => (data, { b with machine := mmioStore addr data (now 0) b.machine })

def Access.OnCom4 : Access → Prop
  | .ioOut port _ | .ioIn port _ => EgressChannel.handles port = true
  | _ => False

/-- The UART after a run of writes, with what it emitted and whether it signalled. -/
def Uart.writes (hw : Uart U) (off : UInt8) : U → Bytes → U × Bytes × Bool
  | u, [] => (u, [], false)
  | u, byte :: data =>
    let (u, out, fired) := hw.write u off byte
    let (u, more, again) := hw.writes off u data
    (u, out ++ more, fired || again)

/-- The UART after a run of reads, with the values and whether it signalled. -/
def Uart.reads (hw : Uart U) (off : UInt8) : U → Nat → Bytes × U × Bool
  | u, 0 => ([], u, false)
  | u, n + 1 =>
    let (v, u, fired) := hw.read u off
    let (vs, u, again) := hw.reads off u n
    (v :: vs, u, fired || again)

/-- The UART of COM4 is as it was, and an interrupt that it signalled was pending already. -/
structure Machine.Untouched (m : Machine U D) (eg : EgressChannel U) (u : U) (fired : Bool) :
    Prop where
  uart : u = eg.serial.uart
  drained : eg.serial.irq = false
  pending : fired = true → raiseIrq m.lapic m.ioapic SERIAL4_IRQ = m.lapic

/-- COM4 takes the exit without a trace: the bytes written change nothing and emit nothing, the
bytes read are those of an open bus. -/
def Board.Inert (b : Board U D) : Access → Prop
  | .ioOut port data => data = [] ∨ ∃ eg u fired, b.machine.egress = some eg ∧
      P.uart.writes (port - SERIAL4_PORT_BASE).toUInt8 eg.serial.uart data = (u, [], fired) ∧
      b.machine.Untouched eg u fired
  | .ioIn port data => data = [] ∨ ∃ eg u fired, b.machine.egress = some eg ∧
      P.uart.reads (port - SERIAL4_PORT_BASE).toUInt8 eg.serial.uart data.length =
        (data.map fun _ => 0xff, u, fired) ∧ b.machine.Untouched eg u fired
  | _ => True

theorem com4_alone {port : UInt16} (h : EgressChannel.handles port = true) :
    portHandles SERIAL_PORT_BASE port = false ∧ ControlChannel.handles port = false ∧
      PitStub.handles port = false ∧ PicStub.handles port = false := by
  -- the ports of COM4 belong to no other device
  obtain ⟨hle, hlt⟩ := Bool.and_eq_true_iff.mp h
  have hle' : 0x2e8 ≤ port.toNat := UInt16.le_iff_toNat_le.mp (of_decide_eq_true hle)
  have hlt' : port.toNat < 0x2f0 := UInt16.lt_iff_toNat_lt.mp (of_decide_eq_true hlt)
  have hport : port = UInt16.ofNat port.toNat := by simp
  clear h hle hlt
  generalize port.toNat = n at hle' hlt' hport
  subst hport
  interval_cases n <;> decide

section Agree

variable {P} {now : Nat → UInt64} {b : Board U D}

theorem capture_eq_main {a : Access} (h : b.machine.egress = none ∨ ¬ a.OnCom4) :
    captureExit P now b a = mainExit P now b a := by
  have hoff : ∀ port : UInt16, (b.machine.egress = none ∨ ¬ EgressChannel.handles port = true) →
      (b.machine.egress.filter fun _ => EgressChannel.handles port).isSome = false := by
    rintro port (hnone | hport)
    · rw [hnone]
      rfl
    · rw [filter_isSome]
      simp [hport]
  cases a with
  | ioOut port data =>
    unfold captureExit mainExit
    dsimp only
    rw [hoff port h]
    simp only [Bool.false_eq_true, if_false, ite_self]
  | ioIn port data =>
    unfold captureExit mainExit
    dsimp only
    rw [hoff port h]
    simp only [Bool.false_eq_true, if_false]
  | mmioRead addr data => rfl
  | mmioWrite addr data => rfl

theorem mainExit_com4 {eg : EgressChannel U} (heg : b.machine.egress = some eg) {port : UInt16}
    (hport : EgressChannel.handles port = true) (data : Bytes) :
    mainExit P now b (.ioOut port data) =
        (data, { b with machine := data.foldl (com4Write P port) b.machine }) ∧
      mainExit P now b (.ioIn port data) =
        ((readEach (fun _ => com4ReadByte P port) 0 data.length b.machine).1,
          { b with
            machine := (readEach (fun _ => com4ReadByte P port) 0 data.length b.machine).2 }) := by
  obtain ⟨hcom1, hcom2, -, -⟩ := com4_alone hport
  simp [mainExit, hcom1, hcom2, hport, heg]

theorem captureExit_com4 {port : UInt16} (hport : EgressChannel.handles port = true)
    (data : Bytes) :
    captureExit P now b (.ioOut port data) = (data, b) ∧
      captureExit P now b (.ioIn port data) = (data.map fun _ => 0xff, b) := by
  obtain ⟨hcom1, hcom2, hpit, hpic⟩ := com4_alone hport
  simp [captureExit, hcom1, hcom2, hpit, hpic]

end Agree

section Com4

variable {P} {m : Machine U D} {eg : EgressChannel U} {port : UInt16}

theorem VecBits.set_set (v : VecBits) (vec : UInt8) : (v.set vec).set vec = v.set vec := by
  simp [VecBits.set, UInt32.or_assoc]

theorem raiseIrq_raiseIrq (l : Lapic) (io : Ioapic) (irq : UInt8) :
    raiseIrq (raiseIrq l io irq) io irq = raiseIrq l io irq := by
  unfold raiseIrq
  split
  · simp only [Lapic.raise, VecBits.set_set]
  · rfl

/-- The machine after COM4 has been accessed. -/
def Machine.afterCom4 (m : Machine U D) (eg : EgressChannel U) (u : U) (out : Bytes)
    (fired : Bool) : Machine U D :=
  { m with
    egress := some { eg with serial := ⟨u, false, eg.serial.tx ++ out⟩ }
    lapic := if eg.serial.irq || fired then raiseIrq m.lapic m.ioapic SERIAL4_IRQ else m.lapic }

theorem afterCom4_twice (u u' : U) (out out' : Bytes) (fired fired' : Bool) :
    (m.afterCom4 eg u out fired).afterCom4 { eg with serial := ⟨u, false, eg.serial.tx ++ out⟩ }
        u' out' fired' = m.afterCom4 eg u' (out ++ out') (fired || fired') := by
  unfold Machine.afterCom4
  cases eg.serial.irq <;> cases fired <;> cases fired' <;>
    simp [raiseIrq_raiseIrq, List.append_assoc]

theorem com4Write_eq (heg : m.egress = some eg) (byte : UInt8) :
    com4Write P port m byte =
      let (u, out, fired) := P.uart.write eg.serial.uart (port - SERIAL4_PORT_BASE).toUInt8 byte
      m.afterCom4 eg u out fired := by
  unfold com4Write Machine.afterCom4
  rw [heg]
  simp only [EgressChannel.pioWrite, EgressChannel.afterUartIo, Serial.write, Serial.afterIo]
  split_ifs <;> simp_all

theorem foldl_com4Write (heg : m.egress = some eg) {data : Bytes} (hne : data ≠ []) :
    data.foldl (com4Write P port) m =
      let (u, out, fired) := P.uart.writes (port - SERIAL4_PORT_BASE).toUInt8 eg.serial.uart data
      m.afterCom4 eg u out fired := by
  induction data generalizing m eg with
  | nil => exact absurd rfl hne
  | cons byte data ih =>
    rw [List.foldl_cons, com4Write_eq heg]
    rcases hwrite : P.uart.write eg.serial.uart (port - SERIAL4_PORT_BASE).toUInt8 byte with
      ⟨u, out, fired⟩
    simp only [Uart.writes, hwrite]
    cases data with
    | nil => simp [Uart.writes]
    | cons next data =>
      rw [ih rfl (List.cons_ne_nil _ _)]
      exact afterCom4_twice ..

theorem com4ReadByte_eq (heg : m.egress = some eg) :
    com4ReadByte P port m =
      let (v, u, fired) := P.uart.read eg.serial.uart (port - SERIAL4_PORT_BASE).toUInt8
      (v, m.afterCom4 eg u [] fired) := by
  unfold com4ReadByte com4Read Machine.afterCom4
  rw [heg]
  simp only [EgressChannel.pioRead, EgressChannel.afterUartIo, Serial.read, Serial.afterIo]
  split_ifs <;> simp_all

theorem readEach_com4ReadByte (heg : m.egress = some eg) {n : Nat} (hne : n ≠ 0) (k : Nat) :
    readEach (fun _ => com4ReadByte P port) k n m =
      let (vs, u, fired) := P.uart.reads (port - SERIAL4_PORT_BASE).toUInt8 eg.serial.uart n
      (vs, m.afterCom4 eg u [] fired) := by
  induction n generalizing m eg k with
  | zero => exact absurd rfl hne
  | succ n ih =>
    rw [readEach, com4ReadByte_eq heg]
    rcases hread : P.uart.read eg.serial.uart (port - SERIAL4_PORT_BASE).toUInt8 with ⟨v, u, fired⟩
    simp only [Uart.reads, hread]
    cases n with
    | zero => simp [Uart.reads, readEach]
    | succ n =>
      rw [ih rfl (Nat.succ_ne_zero n)]
      exact congrArg _ (afterCom4_twice ..)

theorem afterCom4_eq_self (heg : m.egress = some eg) {u : U} {out : Bytes} {fired : Bool} :
    m.afterCom4 eg u out fired = m ↔ out = [] ∧ m.Untouched eg u fired := by
  constructor
  · intro h
    have hserial := congrArg (·.egress.map (·.serial)) h
    have hlapic := congrArg Machine.lapic h
    simp only [Machine.afterCom4, heg, Option.map_some, Option.some.injEq] at hserial hlapic
    have hirq : false = eg.serial.irq := congrArg Serial.irq hserial
    have htx : eg.serial.tx ++ out = eg.serial.tx := congrArg Serial.tx hserial
    refine ⟨List.append_right_eq_self.mp htx, congrArg Serial.uart hserial, hirq.symm, ?_⟩
    intro hfired
    rwa [hfired, Bool.or_true, if_pos rfl] at hlapic
  · rintro ⟨rfl, rfl, hirq, hpending⟩
    have hlapic : (if eg.serial.irq || fired then raiseIrq m.lapic m.ioapic SERIAL4_IRQ
        else m.lapic) = m.lapic := by
      rw [hirq, Bool.false_or]
      split_ifs with hfired
      · exact hpending hfired
      · rfl
    unfold Machine.afterCom4
    rw [hlapic, List.append_nil, ← hirq, ← heg]

theorem board_afterCom4 {b : Board U D} (heg : b.machine.egress = some eg) {u : U} {out : Bytes}
    {fired : Bool} : b = { b with machine := b.machine.afterCom4 eg u out fired } ↔
      out = [] ∧ b.machine.Untouched eg u fired := by
  rw [← afterCom4_eq_self heg]
  constructor
  · exact fun h => (congrArg Board.machine h).symm
  · intro h
    rw [h]

end Com4

/-- For every board and every port or MMIO exit, the capture leaves the board and the
guest's buffer as the run loop would exactly when egress is off, or the exit is not on
COM4, or COM4 would take it without a trace. -/
theorem capture_agrees_iff (now : Nat → UInt64) (b : Board U D) (a : Access) :
    captureExit P now b a = mainExit P now b a ↔
      b.machine.egress = none ∨ ¬ a.OnCom4 ∨ b.Inert P a := by
  by_cases hoff : b.machine.egress = none ∨ ¬ a.OnCom4
  · constructor
    · intro _
      rcases hoff with hnone | hport
      · exact .inl hnone
      · exact .inr (.inl hport)
    · intro _
      exact capture_eq_main hoff
  · -- COM4 is there and the access is to it: the capture ignores what the run loop serves
    obtain ⟨hsome, hport⟩ := not_or.mp hoff
    rw [not_not] at hport
    obtain ⟨eg, heg⟩ := Option.ne_none_iff_exists'.mp hsome
    have hiff : (b.machine.egress = none ∨ ¬ a.OnCom4 ∨ b.Inert P a) ↔ b.Inert P a := by
      simp [hsome, hport]
    rw [hiff]
    cases a with
    | ioOut port data =>
      rw [(captureExit_com4 hport data).1, (mainExit_com4 heg hport data).1]
      by_cases hempty : data = []
      · exact iff_of_true (by rw [hempty]; rfl) (.inl hempty)
      · rw [foldl_com4Write heg hempty]
        rcases hw : P.uart.writes (port - SERIAL4_PORT_BASE).toUInt8 eg.serial.uart data with
          ⟨u, out, fired⟩
        simp only [Board.Inert, hempty, heg, board_afterCom4 heg, Prod.mk.injEq, true_and]
        constructor
        · rintro ⟨rfl, h⟩
          exact .inr ⟨eg, u, fired, rfl, hw, h⟩
        · rintro (h | ⟨_, u', fired', heg', hsame, h⟩)
          · exact h.elim
          · cases heg'
            cases hw.symm.trans hsame
            exact ⟨rfl, h⟩
    | ioIn port data =>
      rw [(captureExit_com4 hport data).2, (mainExit_com4 heg hport data).2]
      by_cases hempty : data = []
      · exact iff_of_true (by rw [hempty]; rfl) (.inl hempty)
      · rw [readEach_com4ReadByte heg (by simpa using hempty)]
        rcases hr : P.uart.reads (port - SERIAL4_PORT_BASE).toUInt8 eg.serial.uart data.length with
          ⟨vs, u, fired⟩
        simp only [Board.Inert, hempty, heg, board_afterCom4 heg, Prod.mk.injEq, true_and]
        constructor
        · rintro ⟨rfl, h⟩
          exact .inr ⟨eg, u, fired, rfl, hr, h⟩
        · rintro (h | ⟨_, u', fired', heg', hsame, h⟩)
          · exact h.elim
          · cases heg'
            cases hr.symm.trans hsame
            exact ⟨rfl, h⟩
    | mmioRead addr data | mmioWrite addr data => exact absurd hport id

def egressBoard : Board Unit Unit :=
  ⟨(Config.bare 0 true none none).machine, .new ⟨1000, TscFrequency.kilohertz_pos⟩, .new⟩

/-- The guest sends a byte of a frame, then reads the receive buffer: the run loop
captures the byte and serves the register, the capture drops the one and returns an
open bus for the other. -/
theorem capture_misses_com4 :
    ((mainExit Platform.bare (fun _ => 0) egressBoard (.ioOut 0x2e8 [0x41])).2.machine.egress.map
        (·.serial.tx)) = some [0x41] ∧
      ((captureExit Platform.bare (fun _ => 0) egressBoard
        (.ioOut 0x2e8 [0x41])).2.machine.egress.map (·.serial.tx)) = some [] ∧
      (mainExit Platform.bare (fun _ => 0) egressBoard (.ioIn 0x2e8 [0])).1 = [0] ∧
      (captureExit Platform.bare (fun _ => 0) egressBoard (.ioIn 0x2e8 [0])).1 = [0xff] := by
  decide +kernel

end Tdvmm.Vmm
