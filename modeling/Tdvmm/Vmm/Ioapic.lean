import Tdvmm.Vmm.Lapic

/-!
# Vmm.Ioapic — interrupt lines

The I/O APIC (`src/ioapic.rs`): 24 redirection entries behind an index and a
data window, edge-triggered only. `raiseIrq` is the way of every device
interrupt: ISA line, pin, redirection entry, vector, IRR.
-/

namespace Tdvmm.Vmm

def IOAPIC_BASE : UInt64 := 0xfec00000
def IOAPIC_LEN : UInt64 := 0x20
def IOREGSEL : UInt64 := 0x00
def IOWIN : UInt64 := 0x10
def IOAPIC_REG_ID : UInt32 := 0x00
def IOAPIC_REG_REDTBL_BASE : UInt32 := 0x10
def IOAPIC_REG_REDTBL_END : UInt32 := IOAPIC_REG_REDTBL_BASE + 48
def RTE_MASK : UInt64 := 0x10000
def RTE_TRIGGER_LEVEL : UInt64 := 0x8000

structure Ioapic where
  ioregsel : UInt32
  id : UInt32
  redtbl : Vector UInt64 24
deriving DecidableEq, Repr

namespace Ioapic

/-- Power-on: every entry masked. -/
def new (apicId : UInt8) : Ioapic where
  ioregsel := 0
  id := apicId.toUInt32 <<< 24
  redtbl := Vector.replicate 24 RTE_MASK

def handles (addr : UInt64) : Bool := IOAPIC_BASE ≤ addr && addr < IOAPIC_BASE + IOAPIC_LEN

/-- The low or high half of a redirection entry is replaced. -/
def writeRte (rte : UInt64) (high : Bool) (val : UInt32) : UInt64 :=
  if high then (rte &&& (0x00000000ffffffff : UInt64)) ||| (val.toUInt64 <<< 32)
  else (rte &&& (0xffffffff00000000 : UInt64)) ||| val.toUInt64

def writeIndirect (io : Ioapic) (index val : UInt32) : Ioapic :=
  if index = IOAPIC_REG_ID then { io with id := val &&& 0x0f000000 }
  else if IOAPIC_REG_REDTBL_BASE ≤ index ∧ index < IOAPIC_REG_REDTBL_END then
    let rel := (index - IOAPIC_REG_REDTBL_BASE).toNat
    { io with
      redtbl := io.redtbl.setIfInBounds (rel / 2)
        (writeRte (io.redtbl.getD (rel / 2) 0) (rel % 2 = 1) val) }
  -- Version and arbitration are read-only.
  else io

def mmioWrite (io : Ioapic) (addr : UInt64) (val : UInt32) : Ioapic :=
  if addr - IOAPIC_BASE = IOREGSEL then { io with ioregsel := val &&& 0xff }
  else if addr - IOAPIC_BASE = IOWIN then io.writeIndirect io.ioregsel val
  else io

/-- The vector of an edge on `pin`: none if the entry is masked, and none for a
level-triggered one, which is refused. -/
def edgeVector (io : Ioapic) (pin : Nat) : Option UInt8 :=
  match io.redtbl[pin]? with
  | none => none
  | some rte =>
    if rte &&& RTE_MASK ≠ 0 then none
    else if rte &&& RTE_TRIGGER_LEVEL ≠ 0 then none
    else some (rte &&& 0xff).toUInt8

end Ioapic

/-- The pin of an ISA line: the timer and the cascade swap places. -/
def isaIrqToIoapicPin (irq : UInt8) : UInt8 :=
  if irq = 0 then 2 else if irq = 2 then 0 else irq

def raiseIrq (lapic : Lapic) (ioapic : Ioapic) (irq : UInt8) : Lapic :=
  match ioapic.edgeVector (isaIrqToIoapicPin irq).toNat with
  | some vector => lapic.raise vector
  | none => lapic

/-! ## Interrupts only reach the IRR -/

/-- Nothing of the LAPIC but its IRR has been touched. -/
def Lapic.Raised (l l' : Lapic) : Prop := ∃ irr, l' = { l with irr := irr }

theorem Lapic.Raised.refl (l : Lapic) : l.Raised l := ⟨l.irr, rfl⟩

theorem Lapic.Raised.trans {a b c : Lapic} (hab : a.Raised b) (hbc : b.Raised c) : a.Raised c := by
  obtain ⟨irr, rfl⟩ := hab
  obtain ⟨irr', rfl⟩ := hbc
  exact ⟨irr', rfl⟩

theorem Lapic.Raised.tpr {l l' : Lapic} (h : l.Raised l') : l'.tpr = l.tpr := by
  obtain ⟨irr, rfl⟩ := h
  rfl

structure Lapic.SameTimer (l l' : Lapic) : Prop where
  deadline : l'.timerDeadline = l.timerDeadline
  period : l'.timerPeriod = l.timerPeriod

theorem Lapic.Raised.sameTimer {l l' : Lapic} (h : l.Raised l') : l.SameTimer l' := by
  obtain ⟨irr, rfl⟩ := h
  exact ⟨rfl, rfl⟩

theorem Lapic.raiseTimer_raised (l : Lapic) : l.Raised l.raiseTimer := by
  unfold raiseTimer
  split_ifs
  · exact Raised.refl l
  · exact ⟨_, rfl⟩

@[simp] theorem Lapic.raiseTimer_timerDeadline (l : Lapic) :
    l.raiseTimer.timerDeadline = l.timerDeadline :=
  l.raiseTimer_raised.sameTimer.deadline

theorem raiseIrq_raised (l : Lapic) (io : Ioapic) (irq : UInt8) : l.Raised (raiseIrq l io irq) := by
  unfold raiseIrq
  split
  · exact ⟨_, rfl⟩
  · exact Lapic.Raised.refl l

end Tdvmm.Vmm
