import Mathlib.Algebra.Ring.Nat
import Mathlib.Data.Nat.Bitwise
import Mathlib.Data.UInt
import Mathlib.Tactic.SplitIfs
import Tdvmm.Vmm.Vtsc

/-!
# Vmm.Lapic — the local APIC

The userspace xAPIC the guest programs over MMIO (`src/lapic.rs`): task and processor priority,
the IRR and ISR bitmaps, and the one-shot or periodic timer.

A due periodic timer re-arms itself by adding its period, in wrapping `u64` arithmetic, until
the sum lies after `now` (`advancePast`). Close to the end of the clock there may be no such
sum; the loop of the source then never ends, which the model says with `none`
(`advancePast_eq_none_iff`).
-/

namespace Tdvmm.Vmm

def XAPIC_BASE : UInt64 := 0xfee00000
def XAPIC_LEN : UInt64 := 0x1000

def inLapic (addr : UInt64) : Bool := XAPIC_BASE ≤ addr && addr < XAPIC_BASE + XAPIC_LEN

def REG_ID : UInt32 := 0x020
def REG_VERSION : UInt32 := 0x030
def REG_TPR : UInt32 := 0x080
def REG_APR : UInt32 := 0x090
def REG_PPR : UInt32 := 0x0a0
def REG_EOI : UInt32 := 0x0b0
def REG_LDR : UInt32 := 0x0d0
def REG_DFR : UInt32 := 0x0e0
def REG_SVR : UInt32 := 0x0f0
def REG_ISR0 : UInt32 := 0x100
def REG_IRR0 : UInt32 := 0x200
def REG_ESR : UInt32 := 0x280
def REG_ICR_LOW : UInt32 := 0x300
def REG_LVT_TIMER : UInt32 := 0x320
def REG_LVT_THERMAL : UInt32 := 0x330
def REG_LVT_PERF : UInt32 := 0x340
def REG_LVT_LINT0 : UInt32 := 0x350
def REG_LVT_LINT1 : UInt32 := 0x360
def REG_LVT_ERROR : UInt32 := 0x370
def REG_TIMER_ICT : UInt32 := 0x380
def REG_TIMER_CCT : UInt32 := 0x390
def REG_TIMER_DCR : UInt32 := 0x3e0

def SVR_ENABLE : UInt32 := 0x100
def LVT_MASK : UInt32 := 0x10000
def LVT_TIMER_MODE_SHIFT : UInt32 := 17
def LVT_TIMER_MODE_ONESHOT : UInt32 := 0
def LVT_TIMER_MODE_PERIODIC : UInt32 := 1
def LVT_TIMER_MODE_TSCDEADLINE : UInt32 := 2
def LAPIC_VERSION : UInt32 := (0x14 : UInt32) ||| ((5 : UInt32) <<< 16)

/-! ## Vector bitmaps -/

/-- A 256 bit vector bitmap as eight 32 bit words. -/
structure VecBits where
  words : Vector UInt32 8
deriving DecidableEq, Repr

namespace VecBits

def empty : VecBits := ⟨Vector.replicate 8 0⟩

def wordOf (vec : UInt8) : Fin 8 := ⟨vec.toNat / 32, by have := vec.toNat_lt; omega⟩

def bitOf (vec : UInt8) : UInt32 := 1 <<< (vec &&& 31).toUInt32

def set (v : VecBits) (vec : UInt8) : VecBits :=
  ⟨v.words.set (wordOf vec) (v.words[wordOf vec] ||| bitOf vec)⟩

def clear (v : VecBits) (vec : UInt8) : VecBits :=
  ⟨v.words.set (wordOf vec) (v.words[wordOf vec] &&& ~~~(bitOf vec))⟩

def get (v : VecBits) (vec : UInt8) : Bool := v.words[wordOf vec] &&& bitOf vec ≠ 0

theorem bitOf_toNat (vec : UInt8) : (bitOf vec).toNat = 2 ^ (vec.toNat % 32) := by
  have hmod : (vec &&& 31).toNat = vec.toNat % 32 := by
    rw [UInt8.toNat_and]
    exact Nat.and_two_pow_sub_one_eq_mod vec.toNat 5
  have hlt : vec.toNat % 32 < 32 := Nat.mod_lt _ (by decide)
  have hpow : 2 ^ (vec.toNat % 32) < 2 ^ 32 := Nat.pow_lt_pow_right (by decide) hlt
  simp only [bitOf, UInt32.toNat_shiftLeft, UInt8.toNat_toUInt32, hmod]
  rw [Nat.mod_eq_of_lt hlt, Nat.shiftLeft_eq]
  simpa using hpow

theorem get_eq_testBit (v : VecBits) (vec : UInt8) :
    v.get vec = v.words[wordOf vec].toNat.testBit (vec.toNat % 32) := by
  unfold get
  rw [Bool.eq_iff_iff]
  simp only [decide_eq_true_eq, ne_eq, ← UInt32.toNat_inj, UInt32.toNat_and, bitOf_toNat]
  rw [Nat.and_two_pow]
  cases v.words[wordOf vec].toNat.testBit (vec.toNat % 32) <;> simp

def highest (v : VecBits) : Option UInt8 :=
  ((List.finRange 8).reverse.find? fun i => v.words[i] ≠ 0).map fun i =>
    UInt8.ofNat (i.val * 32 + Nat.log2 v.words[i].toNat)

end VecBits

/-- The LAPIC. The TSC cycles per timer count are the ratio `num / den` of CPUID
0x15, which the constructor checks to be non-zero. -/
structure Lapic where
  clock : VirtualClock
  tscPerCountNum : UInt64
  tscPerCountDen : UInt64
  ratio : 0 < tscPerCountNum ∧ 0 < tscPerCountDen
  id : UInt32
  tpr : UInt32
  svr : UInt32
  ldr : UInt32
  dfr : UInt32
  esr : UInt32
  lvtTimer : UInt32
  lvtThermal : UInt32
  lvtPerf : UInt32
  lvtLint0 : UInt32
  lvtLint1 : UInt32
  lvtError : UInt32
  irr : VecBits
  isr : VecBits
  timerDeadline : Option UInt64
  timerPeriod : UInt64
  timerDcr : UInt32
  timerIct : UInt32

namespace Lapic

theorem one_to_one : (0 : UInt64) < 1 ∧ (0 : UInt64) < 1 := by decide

/-- Reset: soft-disabled, every LVT masked, nothing armed. -/
def new (clock : VirtualClock) (num den : UInt64) (ratio : 0 < num ∧ 0 < den) : Lapic where
  clock := clock
  tscPerCountNum := num
  tscPerCountDen := den
  ratio := ratio
  id := 0
  tpr := 0
  svr := 0xff
  ldr := 0
  dfr := 0xffffffff
  esr := 0
  lvtTimer := LVT_MASK
  lvtThermal := LVT_MASK
  lvtPerf := LVT_MASK
  lvtLint0 := LVT_MASK
  lvtLint1 := LVT_MASK
  lvtError := LVT_MASK
  irr := VecBits.empty
  isr := VecBits.empty
  timerDeadline := none
  timerPeriod := 0
  timerDcr := 0
  timerIct := 0

/-! ## Priority and delivery -/

def enabled (l : Lapic) : Bool := l.svr &&& SVR_ENABLE ≠ 0

/-- CR8 is the task priority without its low four bits. -/
def syncTprFromCr8 (l : Lapic) (cr8 : UInt64) : Lapic :=
  { l with tpr := (cr8 &&& 0xf).toUInt32 <<< 4 }

def highestIsr (l : Lapic) : UInt32 := (l.isr.highest.map UInt8.toUInt32).getD 0

def highestIrr (l : Lapic) : UInt32 := (l.irr.highest.map UInt8.toUInt32).getD 0

/-- The processor priority: the task priority, or the class of the highest
in-service vector where that is larger. -/
def ppr (l : Lapic) : UInt32 :=
  if l.highestIsr &&& 0xf0 ≤ l.tpr &&& 0xf0 then l.tpr else l.highestIsr &&& 0xf0

/-- The vector to inject now: the highest pending one, if the APIC is enabled and
its class exceeds that of the processor priority. -/
def deliverableVector (l : Lapic) : Option UInt8 :=
  if ¬ l.enabled then none
  else if l.highestIrr = 0 then none
  else if l.ppr &&& 0xf0 < l.highestIrr &&& 0xf0 then some l.highestIrr.toUInt8
  else none

/-- Move a vector that was handed to KVM from the IRR into service. -/
def ackInjected (l : Lapic) (vec : UInt8) : Lapic :=
  { l with irr := l.irr.clear vec, isr := l.isr.set vec }

def raise (l : Lapic) (vec : UInt8) : Lapic := { l with irr := l.irr.set vec }

/-- End of interrupt: the highest in-service vector is done. -/
def eoi (l : Lapic) : Lapic :=
  match l.isr.highest with
  | some vec => { l with isr := l.isr.clear vec }
  | none => l

/-- An IPI: fixed delivery to this one CPU, in every shorthand but
`all-excluding-self`; other delivery modes are dropped. -/
def writeIcr (l : Lapic) (val : UInt32) : Lapic :=
  if (val >>> 8) &&& 0x7 ≠ 0 then l
  else if (val >>> 18) &&& 0x3 = 3 then l
  else l.raise (val &&& 0xff).toUInt8

/-! ## The timer -/

def timerMode (l : Lapic) : UInt32 := (l.lvtTimer >>> LVT_TIMER_MODE_SHIFT) &&& 0x3

def timerVector (l : Lapic) : UInt8 := (l.lvtTimer &&& 0xff).toUInt8

def timerMasked (l : Lapic) : Bool := l.lvtTimer &&& LVT_MASK ≠ 0

/-- The divide value of TDCR: bits 0, 1 and 3 form the code. -/
def timerDivisor (l : Lapic) : UInt64 :=
  match (((l.timerDcr &&& 0x8) >>> 1) ||| (l.timerDcr &&& 0x3)).toNat with
  | 0 => 2
  | 1 => 4
  | 2 => 8
  | 3 => 16
  | 4 => 32
  | 5 => 64
  | 6 => 128
  | _ => 1

/-- The vtsc span of `count` decrements at the current divisor. -/
def spanFromCount (l : Lapic) (count : UInt32) : UInt64 :=
  UInt64.ofNat
    (count.toNat * l.timerDivisor.toNat * l.tscPerCountNum.toNat / l.tscPerCountDen.toNat)

def countUntil (l : Lapic) (deadline now : UInt64) : UInt32 :=
  if deadline ≤ now then 0
  else
    UInt32.ofNat (min ((deadline - now).toNat * l.tscPerCountDen.toNat /
      (l.timerDivisor.toNat * l.tscPerCountNum.toNat)) (2 ^ 32 - 1))

/-- A write that changes the mode disarms the timer; one that keeps the mode, such
as a toggle of the mask, leaves it running. -/
def writeLvtTimer (l : Lapic) (val : UInt32) : Lapic :=
  let l' := { l with lvtTimer := val }
  if l'.timerMode ≠ l.timerMode then { l' with timerDeadline := none, timerPeriod := 0 } else l'

/-- A write of the initial count arms the timer, or with zero disarms it. -/
def writeTimerIct (l : Lapic) (val : UInt32) (now : UInt64) : Lapic :=
  let l := { l with timerIct := val }
  if l.timerMode = LVT_TIMER_MODE_TSCDEADLINE then l
  else if val = 0 then { l with timerDeadline := none, timerPeriod := 0 }
  else
    let span := l.spanFromCount val
    { l with
      timerDeadline := some (now + span)
      timerPeriod := if l.timerMode = LVT_TIMER_MODE_PERIODIC then span else 0 }

def timerCurrentCount (l : Lapic) (now : UInt64) : UInt32 :=
  if l.timerMode = LVT_TIMER_MODE_ONESHOT ∨ l.timerMode = LVT_TIMER_MODE_PERIODIC then
    match l.timerDeadline with
    | some dl => l.countUntil dl now
    | none => 0
  else 0

/-- The re-arm loop of a periodic timer: the first of `next`, `next + period`, …
after `now`. -/
def advancePast (now period : UInt64) : Nat → UInt64 → Option UInt64
  | 0, _ => none
  | fuel + 1, next => if next ≤ now then advancePast now period fuel (next + period) else some next

/-- Where a periodic timer due at `now` is armed next. After `2 ^ 64` additions the
sums repeat. -/
def rearm (l : Lapic) (dl now : UInt64) : Option UInt64 :=
  advancePast now l.timerPeriod (2 ^ 64) dl

def raiseTimer (l : Lapic) : Lapic := if l.timerMasked then l else l.raise l.timerVector

/-- Fire the timer if it is armed and due: a one-shot disarms, a periodic timer
re-arms to its next boundary after `now`. `none` when the re-arm loop never ends. -/
def fireTimerIfDue (l : Lapic) (now : UInt64) : Option (Bool × Lapic) :=
  match l.timerDeadline with
  | some dl =>
    if dl ≤ now then
      if 0 < l.timerPeriod then
        (l.rearm dl now).map fun next => (true, { l with timerDeadline := some next }.raiseTimer)
      else some (true, { l with timerDeadline := none }.raiseTimer)
    else some (false, l)
  | none => some (false, l)

/-! ## MMIO -/

def mmioRead (l : Lapic) (off : UInt32) (now : UInt64) : UInt32 :=
  if off = REG_ID then l.id <<< 24
  else if off = REG_VERSION then LAPIC_VERSION
  else if off = REG_TPR then l.tpr
  else if off = REG_APR then l.ppr
  else if off = REG_PPR then l.ppr
  else if off = REG_LDR then l.ldr
  else if off = REG_DFR then l.dfr
  else if off = REG_SVR then l.svr
  else if off = REG_LVT_TIMER then l.lvtTimer
  else if off = REG_LVT_THERMAL then l.lvtThermal
  else if off = REG_LVT_PERF then l.lvtPerf
  else if off = REG_LVT_LINT0 then l.lvtLint0
  else if off = REG_LVT_LINT1 then l.lvtLint1
  else if off = REG_LVT_ERROR then l.lvtError
  else if off = REG_TIMER_ICT then l.timerIct
  else if off = REG_TIMER_CCT then l.timerCurrentCount now
  else if off = REG_TIMER_DCR then l.timerDcr
  else if REG_ISR0 ≤ off ∧ off < REG_ISR0 + 0x80 ∧ off % 0x10 = 0 then
    l.isr.words.getD ((off - REG_ISR0) / 0x10).toNat 0
  else if REG_IRR0 ≤ off ∧ off < REG_IRR0 + 0x80 ∧ off % 0x10 = 0 then
    l.irr.words.getD ((off - REG_IRR0) / 0x10).toNat 0
  -- ESR, ICR, the trigger mode words and unknown registers read as zero.
  else 0

def mmioWrite (l : Lapic) (off val : UInt32) (now : UInt64) : Lapic :=
  if off = REG_ID then { l with id := val >>> 24 }
  else if off = REG_TPR then { l with tpr := val &&& 0xff }
  else if off = REG_EOI then l.eoi
  else if off = REG_LDR then { l with ldr := val }
  else if off = REG_DFR then { l with dfr := val }
  else if off = REG_SVR then { l with svr := val }
  else if off = REG_ESR then { l with esr := 0 }
  else if off = REG_ICR_LOW then l.writeIcr val
  else if off = REG_LVT_TIMER then l.writeLvtTimer val
  else if off = REG_LVT_THERMAL then { l with lvtThermal := val }
  else if off = REG_LVT_PERF then { l with lvtPerf := val }
  else if off = REG_LVT_LINT0 then { l with lvtLint0 := val }
  else if off = REG_LVT_LINT1 then { l with lvtLint1 := val }
  else if off = REG_LVT_ERROR then { l with lvtError := val }
  else if off = REG_TIMER_ICT then l.writeTimerIct val now
  else if off = REG_TIMER_DCR then { l with timerDcr := val }
  -- Version, priorities, the bitmaps and unknown registers are read-only.
  else l

/-! ## The re-arm loop -/

theorem lt_of_advancePast {now period : UInt64} {fuel : Nat} {next out : UInt64}
    (h : advancePast now period fuel next = some out) : now < out := by
  induction fuel generalizing next with
  | zero => simp [advancePast] at h
  | succ fuel ih =>
    unfold advancePast at h
    split_ifs at h with hle
    · exact ih h
    · rw [← Option.some.inj h]
      exact UInt64.not_le.mp hle

theorem le_of_advancePast_none {now period : UInt64} {fuel : Nat} {next : UInt64}
    (h : advancePast now period fuel next = none) (k : Nat) (hk : k < fuel) :
    next + UInt64.ofNat k * period ≤ now := by
  induction fuel generalizing next k with
  | zero => omega
  | succ fuel ih =>
    unfold advancePast at h
    split_ifs at h with hle
    cases k with
    | zero => simpa using hle
    | succ k =>
      have hnext := ih h k (by omega)
      have hsum : next + UInt64.ofNat (k + 1) * period =
          next + period + UInt64.ofNat k * period := by
        rw [UInt64.ofNat_add, UInt64.add_mul, UInt64.add_assoc, UInt64.add_comm period]
        simp
      rw [hsum]
      exact hnext

/-- `none` is the loop that never ends: no multiple of the period leads past `now`. -/
theorem advancePast_eq_none_iff (now period next : UInt64) :
    advancePast now period (2 ^ 64) next = none ↔
      ∀ k : Nat, next + UInt64.ofNat k * period ≤ now := by
  constructor
  · intro h k
    -- The sums only depend on `k` modulo `2 ^ 64`.
    have hmod : UInt64.ofNat k = UInt64.ofNat (k % 2 ^ 64) := by
      apply UInt64.toNat.inj
      simp [UInt64.toNat_ofNat']
    rw [hmod]
    exact le_of_advancePast_none h _ (Nat.mod_lt _ (Nat.two_pow_pos 64))
  · intro h
    have hstuck : ∀ fuel j, advancePast now period fuel (next + UInt64.ofNat j * period) =
        none := by
      intro fuel
      induction fuel with
      | zero => exact fun _ => rfl
      | succ fuel ih =>
        intro j
        have hsum : next + UInt64.ofNat j * period + period =
            next + UInt64.ofNat (j + 1) * period := by
          rw [UInt64.ofNat_add, UInt64.add_mul, UInt64.add_assoc]
          simp
        rw [advancePast, if_pos (h j), hsum]
        exact ih (j + 1)
    have hstart : next + UInt64.ofNat 0 * period = next := by simp
    rw [← hstart]
    exact hstuck (2 ^ 64) 0

end Lapic

end Tdvmm.Vmm
