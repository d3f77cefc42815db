import Mathlib.Data.List.Infix
import Tdvmm.Vmm.Timer

/-!
# Vmm.Count — the count the guest reads while the timer runs

The current count is the cycles left to the deadline over the cycles of one count at the divisor
that is set when it is read. The deadline was set with the divisor of the time the initial count
was loaded, so the two belong together only while the divide register is left alone.

1. `Loads` is what a sequence of register writes says by itself, without a clock: the registers, and
   the divisor at which the count was loaded.
2. `Tracks` is the invariant of a run: a deadline is at most the span of the loaded count away.
3. `count_kept_iff`: the reads of every run with these writes are at most the initial count exactly
   when the divide register was not set below the divisor of the load while the count runs.
-/

namespace Tdvmm.Vmm

open Lib

/-! ## Runs of the timer -/

/-- The guest writes or reads a register, or the VMM asks whether the timer is due; each with the
clock reading it sees. A read is of the two count registers. -/
inductive TimerOp where
  | write (off val : UInt32) (now : UInt64)
  | service (now : UInt64)
  | read (now : UInt64)
deriving DecidableEq, Repr

namespace TimerOp

def now : TimerOp → UInt64
  | write _ _ now | service now | read now => now

def written : TimerOp → Option (UInt32 × UInt32)
  | write off val _ => some (off, val)
  | service _ | read _ => none

end TimerOp

namespace Lapic

/-- One step; none if the re-arm loop does not end. -/
def timerStep (l : Lapic) : TimerOp → Option Lapic
  | .write off val now => some (l.mmioWrite off val now)
  | .service now => (l.fireTimerIfDue now).map (·.2)
  | .read _ => some l

def timerRun (l : Lapic) (ops : List TimerOp) : Option Lapic := ops.foldlM timerStep l

theorem timerRun_cons {l l' : Lapic} {op : TimerOp} {ops : List TimerOp}
    (h : l.timerStep op = some l') : l.timerRun (op :: ops) = l'.timerRun ops := by
  simp [timerRun, h]

/-- The step arms no deadline past 64 bits. -/
def InRange (l : Lapic) : TimerOp → Prop
  | .write off val now => off = REG_TIMER_ICT → l.timerMode ≠ LVT_TIMER_MODE_TSCDEADLINE →
      now.toNat + l.span val.toNat < 2 ^ 64
  | .service now => ∀ d, l.timerDeadline = some d → d ≤ now → 0 < l.timerPeriod →
      d.toNat + periodsPast d.toNat now.toNat l.timerPeriod.toNat * l.timerPeriod.toNat < 2 ^ 64
  | .read _ => True

def RunInRange : Lapic → List TimerOp → Prop
  | _, [] => True
  | l, op :: ops => l.InRange op ∧ ∀ l', l.timerStep op = some l' → l'.RunInRange ops

/-- The step is no write and no fire. -/
def Still (l : Lapic) : TimerOp → Prop
  | .write _ _ _ => False
  | .service now => ∀ d, l.timerDeadline = some d → now < d
  | .read _ => True

/-- The run goes through; every read of the current count is at most the initial count; and of two
reads with no write and no fire between them the second is at most the first. -/
structure CountKept (l : Lapic) (ops : List TimerOp) : Prop where
  ends : (l.timerRun ops).isSome
  bounded : ∀ pre now post, ops = pre ++ .read now :: post → ∀ l', l.timerRun pre = some l' →
    l'.mmioRead REG_TIMER_CCT now ≤ l'.mmioRead REG_TIMER_ICT now
  falls : ∀ pre now mid now' post, ops = pre ++ .read now :: (mid ++ .read now' :: post) →
    ∀ l' l'', l.timerRun pre = some l' → (∀ op ∈ mid, l'.Still op) →
      l.timerRun (pre ++ .read now :: mid) = some l'' →
      l''.mmioRead REG_TIMER_CCT now' ≤ l'.mmioRead REG_TIMER_CCT now

/-! ## The writes alone -/

/-- The timer mode of an LVT entry, and the divide value of the divide register. -/
def modeOf (lvt : UInt32) : UInt32 := (lvt >>> LVT_TIMER_MODE_SHIFT) &&& 0x3

def divisorOf (dcr : UInt32) : UInt64 :=
  match (((dcr &&& 0x8) >>> 1) ||| (dcr &&& 0x3)).toNat with
  | 0 => 2
  | 1 => 4
  | 2 => 8
  | 3 => 16
  | 4 => 32
  | 5 => 64
  | 6 => 128
  | _ => 1

end Lapic

open Lapic

/-- The timer registers after some writes, and the divisor at which the count was loaded, if one is
loaded. -/
structure Loads where
  lvt : UInt32 := LVT_MASK
  dcr : UInt32 := 0
  ict : UInt32 := 0
  loadedAt : Option UInt64 := none
deriving DecidableEq, Repr

namespace Loads

/-- A change of the mode unloads the count. In TSC-deadline mode no count is loaded. -/
def write (s : Loads) (w : UInt32 × UInt32) : Loads :=
  if w.1 = REG_LVT_TIMER then
    { s with lvt := w.2, loadedAt := if modeOf w.2 = modeOf s.lvt then s.loadedAt else none }
  else if w.1 = REG_TIMER_ICT then
    { s with
      ict := w.2
      loadedAt :=
        if modeOf s.lvt = LVT_TIMER_MODE_TSCDEADLINE then s.loadedAt
        else if w.2 = 0 then none else some (divisorOf s.dcr) }
  else if w.1 = REG_TIMER_DCR then { s with dcr := w.2 }
  else s

/-- The registers after these writes from reset on. -/
def after (ws : List (UInt32 × UInt32)) : Loads := ws.foldl write {}

/-- The count is one the guest can read. -/
def Counts (s : Loads) : Prop :=
  modeOf s.lvt = LVT_TIMER_MODE_ONESHOT ∨ modeOf s.lvt = LVT_TIMER_MODE_PERIODIC

/-- The divisor is not below that of the load while the count runs. Two counts read right all the
same: the largest one, which no read exceeds, and a one whose span had a rest, at half the
divisor. -/
def Sound (num den : UInt64) (s : Loads) : Prop :=
  ∀ at₀, s.loadedAt = some at₀ → s.Counts →
    at₀ ≤ divisorOf s.dcr ∨ s.ict = 0xffffffff ∨
      (s.ict = 1 ∧ at₀ = 2 * divisorOf s.dcr ∧ ¬ den.toNat ∣ at₀.toNat * num.toNat)

end Loads

/-! ## What a register write does to the timer -/

theorem Lapic.timerMode_eq (l : Lapic) : l.timerMode = modeOf l.lvtTimer := rfl

theorem Lapic.timerDivisor_eq (l : Lapic) : l.timerDivisor = divisorOf l.timerDcr := rfl

structure Lapic.SameCounter (l l' : Lapic) : Prop where
  lvt : l'.lvtTimer = l.lvtTimer
  dcr : l'.timerDcr = l.timerDcr
  ict : l'.timerIct = l.timerIct
  deadline : l'.timerDeadline = l.timerDeadline
  period : l'.timerPeriod = l.timerPeriod
  num : l'.tscPerCountNum = l.tscPerCountNum
  den : l'.tscPerCountDen = l.tscPerCountDen

inductive Lapic.TimerWrite (l : Lapic) (val : UInt32) (now : UInt64) : UInt32 → Lapic → Prop where
  | lvt : l.TimerWrite val now REG_LVT_TIMER (l.writeLvtTimer val)
  | ict : l.TimerWrite val now REG_TIMER_ICT (l.writeTimerIct val now)
  | dcr : l.TimerWrite val now REG_TIMER_DCR { l with timerDcr := val }
  | other {off : UInt32} {l' : Lapic} (hlvt : off ≠ REG_LVT_TIMER) (hict : off ≠ REG_TIMER_ICT)
      (hdcr : off ≠ REG_TIMER_DCR) (hsame : l.SameCounter l') : l.TimerWrite val now off l'

theorem Lapic.mmioWrite_timer (l : Lapic) (off val : UInt32) (now : UInt64) :
    l.TimerWrite val now off (l.mmioWrite off val now) := by
  by_cases hlvt : off = REG_LVT_TIMER
  · rw [hlvt]
    exact .lvt
  by_cases hict : off = REG_TIMER_ICT
  · rw [hict]
    exact .ict
  by_cases hdcr : off = REG_TIMER_DCR
  · rw [hdcr]
    exact .dcr
  refine .other hlvt hict hdcr ?_
  unfold mmioWrite writeIcr eoi
  rw [if_neg hlvt, if_neg hict, if_neg hdcr]
  repeat' refine iteInduction (fun _ => ?_) fun _ => ?_
  -- an EOI with nothing in service changes nothing at all
  all_goals first
    | exact ⟨rfl, rfl, rfl, rfl, rfl, rfl, rfl⟩
    | split <;> exact ⟨rfl, rfl, rfl, rfl, rfl, rfl, rfl⟩

section Registers

variable (s : Loads) (val : UInt32)

theorem Loads.write_lvt : s.write (REG_LVT_TIMER, val) =
    { s with lvt := val, loadedAt := if modeOf val = modeOf s.lvt then s.loadedAt else none } := rfl

theorem Loads.write_ict : s.write (REG_TIMER_ICT, val) =
    { s with
      ict := val
      loadedAt :=
        if modeOf s.lvt = LVT_TIMER_MODE_TSCDEADLINE then s.loadedAt
        else if val = 0 then none else some (divisorOf s.dcr) } := rfl

theorem Loads.write_dcr : s.write (REG_TIMER_DCR, val) = { s with dcr := val } := rfl

theorem Loads.write_other {off : UInt32} (hlvt : off ≠ REG_LVT_TIMER) (hict : off ≠ REG_TIMER_ICT)
    (hdcr : off ≠ REG_TIMER_DCR) : s.write (off, val) = s := by
  simp only [write, if_neg hlvt, if_neg hict, if_neg hdcr]

end Registers

/-! ## The invariant of a run -/

/-- The span of a count loaded at a divisor. -/
def spanAt (num den at₀ : UInt64) (count : UInt32) : Nat :=
  count.toNat * (at₀.toNat * num.toNat) / den.toNat

/-- The LAPIC has the registers that were written, and a deadline is at most the span of the loaded
count after `now`. -/
structure Tracks (num den : UInt64) (s : Loads) (l : Lapic) (now : Nat) : Prop where
  numerator : l.tscPerCountNum = num
  denominator : l.tscPerCountDen = den
  lvt : l.lvtTimer = s.lvt
  dcr : l.timerDcr = s.dcr
  ict : l.timerIct = s.ict
  idle : modeOf s.lvt = LVT_TIMER_MODE_TSCDEADLINE → s.loadedAt = none
  deadline : ∀ d, l.timerDeadline = some d → ∃ at₀, s.loadedAt = some at₀ ∧
    d.toNat ≤ now + spanAt num den at₀ s.ict ∧ l.timerPeriod.toNat ≤ spanAt num den at₀ s.ict

section Tracking

variable {num den : UInt64} {s : Loads} {l : Lapic} {t : Nat} {off val : UInt32} {now : UInt64}

theorem Tracks.later (h : Tracks num den s l t) {t' : Nat} (hle : t ≤ t') :
    Tracks num den s l t' := by
  refine ⟨h.numerator, h.denominator, h.lvt, h.dcr, h.ict, h.idle, ?_⟩
  intro d hd
  obtain ⟨at₀, hat, hnear, hperiod⟩ := h.deadline d hd
  exact ⟨at₀, hat, Nat.le_trans hnear (Nat.add_le_add_right hle _), hperiod⟩

theorem Tracks.mode (h : Tracks num den s l t) : l.timerMode = modeOf s.lvt := by
  rw [Lapic.timerMode_eq, h.lvt]

theorem Tracks.span_eq (h : Tracks num den s l t) (count : UInt32) :
    l.span count.toNat = spanAt num den (divisorOf s.dcr) count := by
  rw [Lapic.span, Lapic.perCount, Lapic.timerDivisor_eq, h.numerator, h.denominator, h.dcr, spanAt]

theorem Tracks.writeLvt (h : Tracks num den s l t) (val : UInt32) :
    Tracks num den (s.write (REG_LVT_TIMER, val)) (l.writeLvtTimer val) t := by
  rw [Loads.write_lvt]
  unfold writeLvtTimer
  have hmode : { l with lvtTimer := val }.timerMode = modeOf val := rfl
  dsimp only
  rw [hmode, h.mode]
  by_cases hsame : modeOf val = modeOf s.lvt
  · rw [if_neg (not_not.mpr hsame), if_pos hsame]
    refine ⟨h.numerator, h.denominator, rfl, h.dcr, h.ict, ?_, h.deadline⟩
    intro htsc
    exact h.idle (hsame.symm.trans htsc)
  · rw [if_pos hsame, if_neg hsame]
    exact ⟨h.numerator, h.denominator, rfl, h.dcr, h.ict, fun _ => rfl, fun d hd => nomatch hd⟩

theorem Tracks.writeIct (h : Tracks num den s l t)
    (hrange : l.timerMode ≠ LVT_TIMER_MODE_TSCDEADLINE → now.toNat + l.span val.toNat < 2 ^ 64) :
    Tracks num den (s.write (REG_TIMER_ICT, val)) (l.writeTimerIct val now) now.toNat := by
  rw [Loads.write_ict]
  unfold writeTimerIct
  have hmode : { l with timerIct := val }.timerMode = modeOf s.lvt := h.mode
  rw [h.mode] at hrange
  dsimp only
  rw [hmode]
  by_cases htsc : modeOf s.lvt = LVT_TIMER_MODE_TSCDEADLINE
  · -- nothing is loaded in this mode, so nothing is armed
    rw [if_pos htsc, if_pos htsc]
    refine ⟨h.numerator, h.denominator, h.lvt, h.dcr, rfl, h.idle, ?_⟩
    intro d hd
    obtain ⟨at₀, hat, -⟩ := h.deadline d hd
    rw [h.idle htsc] at hat
    cases hat
  · rw [if_neg htsc, if_neg htsc]
    by_cases hzero : val = 0
    · rw [if_pos hzero, if_pos hzero]
      exact ⟨h.numerator, h.denominator, h.lvt, h.dcr, rfl, fun _ => rfl, fun d hd => nomatch hd⟩
    · rw [if_neg hzero, if_neg hzero]
      have hroom := hrange htsc
      have hspan : (l.spanFromCount val).toNat = spanAt num den (divisorOf s.dcr) val := by
        rw [Lapic.spanFromCount_toNat (by omega), h.span_eq]
      have hspan' : { l with timerIct := val }.spanFromCount val = l.spanFromCount val := rfl
      refine ⟨h.numerator, h.denominator, h.lvt, h.dcr, rfl, fun h => absurd h htsc, ?_⟩
      intro d hd
      refine ⟨_, rfl, ?_, ?_⟩
      · have hsum : (now + l.spanFromCount val).toNat =
            now.toNat + spanAt num den (divisorOf s.dcr) val := by
          rw [UInt64.toNat_add, hspan, ← h.span_eq, Nat.mod_eq_of_lt hroom]
        rw [← Option.some.inj hd, hspan', hsum]
      · dsimp only
        split
        · exact hspan.le
        · exact Nat.zero_le _

theorem Tracks.write (h : Tracks num den s l t) (hlater : t ≤ now.toNat)
    (hrange : l.InRange (.write off val now)) :
    Tracks num den (s.write (off, val)) (l.mmioWrite off val now) now.toNat := by
  have hnow := h.later hlater
  cases l.mmioWrite_timer off val now with
  | lvt => exact hnow.writeLvt val
  | ict => exact hnow.writeIct (hrange rfl)
  | dcr =>
    rw [Loads.write_dcr]
    exact ⟨hnow.numerator, hnow.denominator, hnow.lvt, rfl, hnow.ict, hnow.idle, hnow.deadline⟩
  | other hlvt hict hdcr hsame =>
    rw [Loads.write_other s val hlvt hict hdcr]
    refine ⟨hsame.num.trans hnow.numerator, hsame.den.trans hnow.denominator,
      hsame.lvt.trans hnow.lvt, hsame.dcr.trans hnow.dcr, hsame.ict.trans hnow.ict, hnow.idle, ?_⟩
    intro d hd
    rw [hsame.period]
    exact hnow.deadline d (hsame.deadline.symm.trans hd)

theorem Tracks.service (h : Tracks num den s l t) (hlater : t ≤ now.toNat)
    (hrange : l.InRange (.service now)) :
    ∃ l', l.timerStep (.service now) = some l' ∧ Tracks num den s l' now.toNat := by
  have hnow := h.later hlater
  rcases hd : l.timerDeadline with _ | d
  · exact ⟨l, by rw [timerStep, fire_disarmed hd]; rfl, hnow⟩
  · by_cases hearly : now < d
    · exact ⟨l, by rw [timerStep, fire_early hd hearly]; rfl, hnow⟩
    · have hdue : d ≤ now := UInt64.not_lt.mp hearly
      obtain ⟨at₀, hat, -, hperiod⟩ := hnow.deadline d hd
      by_cases hpos : 0 < l.timerPeriod
      · obtain ⟨next, hrearm, hnext⟩ := rearm_eq hpos hdue (hrange d hd hdue hpos)
        obtain ⟨-, -, hle⟩ := periodsPast_spec (toNat_pos hpos) (UInt64.le_iff_toNat_le.mp hdue)
        refine ⟨l.fired (some next), ?_, ?_⟩
        · rw [timerStep, fire_periodic hd hpos hdue, hrearm]
          rfl
        · refine ⟨hnow.numerator, hnow.denominator, hnow.lvt, hnow.dcr, hnow.ict, hnow.idle, ?_⟩
          intro d' hd'
          refine ⟨at₀, hat, ?_, hperiod⟩
          rw [← Option.some.inj hd', hnext]
          omega
      · have hzero : l.timerPeriod = 0 :=
          UInt64.le_antisymm (UInt64.not_lt.mp hpos) (UInt64.zero_le)
        refine ⟨l.fired none, ?_, ?_⟩
        · rw [timerStep, fire_oneShot hd hzero hdue]
          rfl
        · exact ⟨hnow.numerator, hnow.denominator, hnow.lvt, hnow.dcr, hnow.ict, hnow.idle,
            fun d hd => nomatch hd⟩

end Tracking

/-! ## A read -/

theorem Lapic.mmioRead_cct (l : Lapic) (now : UInt64) :
    l.mmioRead REG_TIMER_CCT now = l.timerCurrentCount now := rfl

theorem Lapic.mmioRead_ict (l : Lapic) (now : UInt64) :
    l.mmioRead REG_TIMER_ICT now = l.timerIct := rfl

theorem Lapic.countUntil_anti (l : Lapic) (d : UInt64) {now now' : UInt64} (h : now ≤ now') :
    l.countUntil d now' ≤ l.countUntil d now := by
  rw [UInt32.le_iff_toNat_le, countUntil_toNat, countUntil_toNat]
  have hle : d.toNat - now'.toNat ≤ d.toNat - now.toNat :=
    Nat.sub_le_sub_left (UInt64.le_iff_toNat_le.mp h) _
  have hdiv : (d.toNat - now'.toNat) * l.tscPerCountDen.toNat / l.perCount ≤
      (d.toNat - now.toNat) * l.tscPerCountDen.toNat / l.perCount :=
    Nat.div_le_div_right (Nat.mul_le_mul_right _ hle)
  omega

theorem Lapic.timerCurrentCount_anti (l : Lapic) {now now' : UInt64} (h : now ≤ now') :
    l.timerCurrentCount now' ≤ l.timerCurrentCount now := by
  unfold timerCurrentCount
  split
  · split
    · exact l.countUntil_anti _ h
    · exact UInt32.le_refl 0
  · exact UInt32.le_refl 0

section Reading

variable {num den : UInt64} {s : Loads} {l : Lapic} {now : UInt64}

/-- The largest count that the span of the load can read as. -/
def Loads.readAs (s : Loads) (num den at₀ : UInt64) : Nat :=
  min (spanAt num den at₀ s.ict * den.toNat / ((divisorOf s.dcr).toNat * num.toNat)) (2 ^ 32 - 1)

theorem Tracks.perCount_eq {t : Nat} (h : Tracks num den s l t) :
    l.perCount = (divisorOf s.dcr).toNat * num.toNat := by
  rw [Lapic.perCount, Lapic.timerDivisor_eq, h.dcr, h.numerator]

theorem Tracks.read_le (h : Tracks num den s l now.toNat) :
    l.timerCurrentCount now = 0 ∨ ∃ at₀, s.loadedAt = some at₀ ∧ s.Counts ∧
      (l.timerCurrentCount now).toNat ≤ s.readAs num den at₀ := by
  unfold timerCurrentCount
  rw [h.mode]
  split
  · rename_i hcounts
    split
    · rename_i d hd
      obtain ⟨at₀, hat, hnear, -⟩ := h.deadline d hd
      refine .inr ⟨at₀, hat, hcounts, ?_⟩
      rw [countUntil_toNat, h.perCount_eq, h.denominator, Loads.readAs]
      have hleft : d.toNat - now.toNat ≤ spanAt num den at₀ s.ict := by omega
      have hdiv := @Nat.div_le_div_right _ _ ((divisorOf s.dcr).toNat * num.toNat)
        (Nat.mul_le_mul_right den.toNat hleft)
      omega
    · exact .inl rfl
  · exact .inl rfl

theorem Loads.Sound.readAs_le (hsound : s.Sound num den) {at₀ : UInt64}
    (hat : s.loadedAt = some at₀) (hcounts : s.Counts) :
    s.readAs num den at₀ ≤ s.ict.toNat := by
  -- a sound load reads as no more than the initial count
  unfold readAs spanAt
  rcases hsound at₀ hat hcounts with hle | hmax | ⟨hone, hhalf, hrest⟩
  · have hscale := @scale_back_le s.ict.toNat _ _ den.toNat
      (Nat.mul_le_mul_right num.toNat (UInt64.le_iff_toNat_le.mp hle))
    exact Nat.le_trans (Nat.min_le_left _ _) hscale
  · rw [hmax]
    exact Nat.min_le_right _ _
  · -- less than two counts are left
    have hlt : at₀.toNat * num.toNat / den.toNat * den.toNat < at₀.toNat * num.toNat := by
      refine Nat.lt_of_le_of_ne (Nat.div_mul_le_self _ _) ?_
      intro heq
      exact hrest ⟨_, (heq.symm.trans (Nat.mul_comm _ _))⟩
    have hdouble : at₀.toNat ≤ (divisorOf s.dcr).toNat * 2 := by
      rw [hhalf, UInt64.toNat_mul]
      exact Nat.le_trans (Nat.mod_le _ _) (by rw [Nat.mul_comm]; exact Nat.le_refl _)
    have htwo : at₀.toNat * num.toNat ≤ (divisorOf s.dcr).toNat * num.toNat * 2 := by
      calc at₀.toNat * num.toNat ≤ (divisorOf s.dcr).toNat * 2 * num.toNat :=
            Nat.mul_le_mul_right _ hdouble
        _ = (divisorOf s.dcr).toNat * num.toNat * 2 := Nat.mul_right_comm _ _ _
    rw [hone]
    refine Nat.le_trans (Nat.min_le_left _ _) (Nat.le_of_lt_succ (Nat.div_lt_of_lt_mul ?_))
    have hspan : UInt32.toNat 1 * (at₀.toNat * num.toNat) = at₀.toNat * num.toNat := Nat.one_mul _
    rw [hspan]
    exact Nat.lt_of_lt_of_le hlt htwo

end Reading

/-! ## Runs -/

section Run

variable {num den : UInt64} {s : Loads} {l : Lapic}

theorem Tracks.step {t : Nat} (h : Tracks num den s l t) {op : TimerOp}
    (hlater : t ≤ op.now.toNat) (hrange : l.InRange op) :
    ∃ l', l.timerStep op = some l' ∧
      Tracks num den (op.written.toList.foldl Loads.write s) l' op.now.toNat := by
  cases op with
  | write off val now => exact ⟨_, rfl, h.write hlater hrange⟩
  | service now => exact h.service hlater hrange
  | read now => exact ⟨l, rfl, h.later hlater⟩

variable {ops ops' : List TimerOp} {l l' : Lapic}

theorem Tracks.run {t : Nat} (h : Tracks num den s l t)
    (htimes : (ops.map TimerOp.now).Pairwise (· ≤ ·)) (hfirst : ∀ op ∈ ops, t ≤ op.now.toNat)
    (hrange : l.RunInRange ops) {last : Nat} (hle : t ≤ last)
    (hlast : ∀ op ∈ ops, op.now.toNat ≤ last) :
    ∃ l', l.timerRun ops = some l' ∧
      Tracks num den ((ops.filterMap TimerOp.written).foldl Loads.write s) l' last := by
  induction ops generalizing s l t with
  | nil => exact ⟨l, rfl, h.later hle⟩
  | cons op ops ih =>
    obtain ⟨l₁, hstep, htracks⟩ := h.step (hfirst op List.mem_cons_self) hrange.1
    rw [List.map_cons, List.pairwise_cons] at htimes
    have hnext : ∀ o ∈ ops, op.now.toNat ≤ o.now.toNat := by
      intro o ho
      exact UInt64.le_iff_toNat_le.mp (htimes.1 _ (List.mem_map_of_mem ho))
    obtain ⟨l', hrun, hends⟩ := ih htracks htimes.2 hnext (hrange.2 l₁ hstep)
      (hlast op List.mem_cons_self) fun o ho => hlast o (List.mem_cons_of_mem op ho)
    refine ⟨l', (timerRun_cons hstep).trans hrun, ?_⟩
    rw [List.filterMap_cons]
    cases hw : op.written with
    | none | some w =>
      rw [hw] at hends
      exact hends

theorem Lapic.timerRun_append
    (h : l.timerRun ops = some l') : l.timerRun (ops ++ ops') = l'.timerRun ops' := by
  simp only [timerRun, List.foldlM_append] at h ⊢
  rw [h]
  rfl

theorem Lapic.RunInRange.append (h : l.RunInRange ops)
    (hrun : l.timerRun ops = some l') (h' : l'.RunInRange ops') : l.RunInRange (ops ++ ops') := by
  induction ops generalizing l with
  | nil => exact Option.some.inj hrun ▸ h'
  | cons op ops ih =>
    refine ⟨h.1, ?_⟩
    intro l₁ hstep
    rw [timerRun_cons hstep] at hrun
    exact ih (h.2 l₁ hstep) hrun

theorem Lapic.RunInRange.front
    (h : l.RunInRange (ops ++ ops')) : l.RunInRange ops := by
  induction ops generalizing l with
  | nil => trivial
  | cons op ops ih => exact ⟨h.1, fun l₁ hstep => ih (h.2 l₁ hstep)⟩

theorem Lapic.RunInRange.back
    (h : l.RunInRange (ops ++ ops')) (hrun : l.timerRun ops = some l') : l'.RunInRange ops' := by
  induction ops generalizing l with
  | nil => exact Option.some.inj hrun ▸ h
  | cons op ops ih =>
    cases hstep : l.timerStep op with
    | none => simp [timerRun, hstep] at hrun
    | some l₁ =>
      rw [timerRun_cons hstep] at hrun
      exact ih (h.2 l₁ hstep) hrun

theorem Lapic.timerRun_still (h : ∀ op ∈ ops, l.Still op) :
    l.timerRun ops = some l := by
  induction ops with
  | nil => rfl
  | cons op ops ih =>
    have hstep : l.timerStep op = some l := by
      have hop := h op List.mem_cons_self
      cases op with
      | write off val now => exact False.elim hop
      | read now => rfl
      | service now =>
        rcases hd : l.timerDeadline with _ | d
        · rw [timerStep, fire_disarmed hd]
          rfl
        · rw [timerStep, fire_early hd (hop d hd)]
          rfl
    rw [timerRun_cons hstep]
    exact ih fun o ho => h o (List.mem_cons_of_mem op ho)

end Run

section FromReset

variable (clock : VirtualClock) (num den : UInt64) (ratio : 0 < num ∧ 0 < den)

theorem tracks_new : Tracks num den {} (Lapic.new clock num den ratio) 0 :=
  ⟨rfl, rfl, rfl, rfl, rfl, fun _ => rfl, fun _ hd => nomatch hd⟩

variable {clock num den ratio}

/-- With sound loads all along, the reads of a run are as they should be. -/
theorem count_kept_of_sound {ops : List TimerOp}
    (htimes : (ops.map TimerOp.now).Pairwise (· ≤ ·))
    (hrange : (Lapic.new clock num den ratio).RunInRange ops)
    (hsound : ∀ pre, pre <+: ops.filterMap TimerOp.written → (Loads.after pre).Sound num den) :
    (Lapic.new clock num den ratio).CountKept ops := by
  -- the state before a read
  have hbefore : ∀ pre now post, ops = pre ++ .read now :: post →
      ∃ l', (Lapic.new clock num den ratio).timerRun pre = some l' ∧
        Tracks num den (Loads.after (pre.filterMap TimerOp.written)) l' now.toNat := by
    intro pre now post hops
    subst hops
    rw [List.map_append, List.pairwise_append] at htimes
    refine (tracks_new clock num den ratio).run htimes.1 (fun _ _ => Nat.zero_le _) hrange.front
      (Nat.zero_le _) ?_
    intro op hop
    exact UInt64.le_iff_toNat_le.mp
      (htimes.2.2 _ (List.mem_map_of_mem hop) now (List.mem_cons_self ..))
  refine ⟨?_, ?_, ?_⟩
  · obtain ⟨l', hrun, -⟩ := (tracks_new clock num den ratio).run htimes (fun _ _ => Nat.zero_le _)
      hrange (Nat.zero_le (2 ^ 64)) fun op _ => Nat.le_of_lt op.now.toNat_lt
    rw [hrun]
    rfl
  · intro pre now post hops l' hrun
    obtain ⟨l₁, hrun₁, htracks⟩ := hbefore pre now post hops
    obtain rfl : l₁ = l' := Option.some.inj (hrun₁.symm.trans hrun)
    rw [mmioRead_cct, mmioRead_ict, htracks.ict]
    rcases htracks.read_le with hzero | ⟨at₀, hat, hcounts, hle⟩
    · rw [hzero]
      exact UInt32.zero_le
    · have hfront : pre.filterMap TimerOp.written <+: ops.filterMap TimerOp.written := by
        rw [hops, List.filterMap_append]
        exact List.prefix_append _ _
      exact UInt32.le_iff_toNat_le.mpr
        (Nat.le_trans hle ((hsound _ hfront).readAs_le hat hcounts))
  · intro pre now mid now' post hops l' l'' hrun hstill hrun'
    rw [timerRun_append hrun, timerRun_cons rfl, timerRun_still hstill] at hrun'
    obtain rfl : l' = l'' := Option.some.inj hrun'
    rw [mmioRead_cct, mmioRead_cct]
    apply timerCurrentCount_anti
    subst hops
    rw [List.map_append, List.pairwise_append, List.map_cons, List.pairwise_cons] at htimes
    refine htimes.2.1.1 now' ?_
    rw [List.map_append]
    exact List.mem_append_right _ List.mem_cons_self

/-! ## A load that is not sound -/

theorem Lapic.divisorOf_pow (dcr : UInt32) : ∃ k, (divisorOf dcr).toNat = 2 ^ k := by
  unfold divisorOf
  split
  · exact ⟨1, rfl⟩
  · exact ⟨2, rfl⟩
  · exact ⟨3, rfl⟩
  · exact ⟨4, rfl⟩
  · exact ⟨5, rfl⟩
  · exact ⟨6, rfl⟩
  · exact ⟨7, rfl⟩
  · exact ⟨0, rfl⟩

theorem Lapic.divisorOf_dvd {dcr dcr' : UInt32} (h : divisorOf dcr < divisorOf dcr') :
    ∃ m, 2 ≤ m ∧ (divisorOf dcr').toNat = m * (divisorOf dcr).toNat := by
  obtain ⟨j, hj⟩ := divisorOf_pow dcr
  obtain ⟨k, hk⟩ := divisorOf_pow dcr'
  have hlt : j < k := by
    rw [UInt64.lt_iff_toNat_lt, hj, hk] at h
    exact (Nat.pow_lt_pow_iff_right (by decide)).mp h
  refine ⟨2 ^ (k - j), ?_, ?_⟩
  · exact Nat.le_self_pow (Nat.sub_ne_zero_of_lt hlt) 2
  · rw [hj, hk, ← Nat.pow_add, Nat.sub_add_cancel (Nat.le_of_lt hlt)]

/-- What is loaded is a count above zero, at a divisor of the divide register. -/
def Loads.Proper (s : Loads) : Prop :=
  ∀ at₀, s.loadedAt = some at₀ → s.ict ≠ 0 ∧ ∃ dcr, at₀ = divisorOf dcr

theorem Loads.Proper.write {s : Loads} (h : s.Proper)
    (hidle : modeOf s.lvt = LVT_TIMER_MODE_TSCDEADLINE → s.loadedAt = none)
    (w : UInt32 × UInt32) : (s.write w).Proper := by
  intro at₀ hat
  unfold Loads.write at hat ⊢
  split at hat
  · rename_i hlvt
    rw [if_pos hlvt]
    dsimp only at hat
    split at hat
    · exact h at₀ hat
    · cases hat
  · rename_i hlvt
    rw [if_neg hlvt]
    split at hat
    · rename_i hict
      rw [if_pos hict]
      dsimp only at hat
      split at hat
      · rename_i htsc
        rw [hidle htsc] at hat
        cases hat
      · split at hat
        · cases hat
        · rename_i hzero
          exact ⟨hzero, s.dcr, (Option.some.inj hat).symm⟩
    · rename_i hict
      rw [if_neg hict]
      split at hat
      · rename_i hdcr
        rw [if_pos hdcr]
        exact h at₀ hat
      · rename_i hdcr
        rw [if_neg hdcr]
        exact h at₀ hat

theorem Loads.readAs_gt {s : Loads} (hden : 0 < den.toNat)
    (hcycle : den.toNat ≤ (divisorOf s.dcr).toNat * num.toNat) (hproper : s.Proper) {at₀ : UInt64}
    (hat : s.loadedAt = some at₀) (hlow : divisorOf s.dcr < at₀) (hmax : s.ict ≠ 0xffffffff)
    (hrest : ¬ (s.ict = 1 ∧ at₀ = 2 * divisorOf s.dcr ∧ ¬ den.toNat ∣ at₀.toNat * num.toNat)) :
    s.ict.toNat < s.readAs num den at₀ := by
  -- read at once, a load that is not sound is more than the initial count
  obtain ⟨hzero, dcr, rfl⟩ := hproper at₀ hat
  obtain ⟨m, hm, hmul⟩ := divisorOf_dvd hlow
  have hspan : s.ict.toNat * ((divisorOf dcr).toNat * num.toNat) =
      s.ict.toNat * m * ((divisorOf s.dcr).toNat * num.toNat) := by
    rw [hmul]
    ac_rfl
  have hpos : 0 < s.ict.toNat := by
    rcases Nat.eq_zero_or_pos s.ict.toNat with h | h
    · exact absurd (UInt32.toNat.inj h) hzero
    · exact h
  have hbelow : s.ict.toNat < 2 ^ 32 - 1 := by
    have hlt := s.ict.toNat_lt
    have hne : s.ict.toNat ≠ 2 ^ 32 - 1 := fun h => hmax (UInt32.toNat.inj h)
    omega
  have htwice : s.ict.toNat * 2 ≤ s.ict.toNat * m := Nat.mul_le_mul_left _ hm
  unfold readAs spanAt
  rw [hspan, scale_back hden hcycle]
  split
  · omega
  · rename_i hdvd
    by_cases hone : s.ict.toNat = 1
    · -- a count of one: the divisor was not just halved
      have hthree : 3 ≤ m := by
        rcases Nat.eq_or_lt_of_le hm with heq | hlt
        · exfalso
          refine hrest ⟨UInt32.toNat.inj hone, UInt64.toNat.inj ?_, ?_⟩
          · have hsmall : (2 * (divisorOf s.dcr)).toNat = 2 * (divisorOf s.dcr).toNat := by
              rw [UInt64.toNat_mul]
              have hlt := (divisorOf dcr).toNat_lt
              rw [hmul, ← heq] at hlt
              exact Nat.mod_eq_of_lt hlt
            rw [hsmall, hmul, ← heq]
          · rw [← hspan, hone, Nat.one_mul] at hdvd
            exact hdvd
        · exact hlt
      rw [hone] at htwice ⊢
      omega
    · omega

/-- The count that is loaded runs, with all of its span left: what the writes of a moment leave. -/
structure Whole (num den : UInt64) (s : Loads) (l : Lapic) : Prop extends Tracks num den s l 0 where
  proper : s.Proper
  armed : ∀ at₀, s.loadedAt = some at₀ →
    ∃ d, l.timerDeadline = some d ∧ d.toNat = spanAt num den at₀ s.ict

theorem Whole.write {s : Loads} {l : Lapic} (h : Whole num den s l) {off val : UInt32}
    (hrange : l.InRange (.write off val 0)) :
    Whole num den (s.write (off, val)) (l.mmioWrite off val 0) := by
  refine ⟨h.toTracks.write (Nat.le_refl 0) hrange, h.proper.write h.idle _, ?_⟩
  cases l.mmioWrite_timer off val 0 with
  | lvt =>
    -- the deadline survives a write that keeps the mode
    rw [Loads.write_lvt]
    intro at₀ hat
    dsimp only at hat
    split at hat
    · rename_i hsame
      have hmode : ¬ { l with lvtTimer := val }.timerMode ≠ l.timerMode := by
        rw [not_not, h.mode]
        exact hsame
      have hwrite : l.mmioWrite REG_LVT_TIMER val 0 = l.writeLvtTimer val := rfl
      rw [hwrite, writeLvtTimer]
      dsimp only
      rw [if_neg hmode]
      exact h.armed at₀ hat
    · cases hat
  | ict =>
    -- the load arms a deadline one span ahead, unless it is zero or in deadline mode
    rw [Loads.write_ict]
    intro at₀ hat
    dsimp only at hat
    split at hat
    · rename_i htsc
      rw [h.idle htsc] at hat
      cases hat
    · rename_i htsc
      split at hat
      · cases hat
      · rename_i hzero
        have hmode : { l with timerIct := val }.timerMode ≠ LVT_TIMER_MODE_TSCDEADLINE := by
          rw [Lapic.timerMode_eq]
          exact h.lvt ▸ htsc
        have hroom : l.span val.toNat < 2 ^ 64 := by
          have hsum := hrange rfl hmode
          rwa [UInt64.toNat_zero, Nat.zero_add] at hsum
        have hwrite : l.mmioWrite REG_TIMER_ICT val 0 = l.writeTimerIct val 0 := rfl
        rw [hwrite, writeTimerIct]
        dsimp only
        rw [if_neg hmode, if_neg hzero]
        refine ⟨_, rfl, ?_⟩
        have hspan : { l with timerIct := val }.spanFromCount val = l.spanFromCount val := rfl
        rw [hspan, UInt64.zero_add, Lapic.spanFromCount_toNat hroom, h.span_eq,
          Option.some.inj hat]
  | dcr =>
    rw [Loads.write_dcr]
    exact h.armed
  | other hlvt hict hdcr hsame =>
    rw [Loads.write_other s val hlvt hict hdcr, hsame.deadline]
    exact h.armed

theorem Whole.read_eq {s : Loads} {l : Lapic} (h : Whole num den s l) {at₀ : UInt64}
    (hat : s.loadedAt = some at₀) (hcounts : s.Counts) :
    (l.timerCurrentCount 0).toNat = s.readAs num den at₀ := by
  obtain ⟨d, hd, hspan⟩ := h.armed at₀ hat
  unfold timerCurrentCount
  rw [h.mode, if_pos (show _ ∨ _ from hcounts), hd]
  dsimp only
  rw [countUntil_toNat, h.perCount_eq, h.denominator, hspan, UInt64.toNat_zero, Nat.sub_zero,
    Loads.readAs]

/-! ## When the count is kept -/

def atOnce (ws : List (UInt32 × UInt32)) : List TimerOp := ws.map fun w => .write w.1 w.2 0

theorem written_atOnce (ws : List (UInt32 × UInt32)) :
    (atOnce ws).filterMap TimerOp.written = ws := by
  unfold atOnce
  rw [List.filterMap_map]
  exact List.filterMap_some

theorem now_atOnce {ws : List (UInt32 × UInt32)} {op : TimerOp} (h : op ∈ atOnce ws) :
    op.now = 0 := by
  obtain ⟨w, -, rfl⟩ := List.mem_map.mp h
  rfl

/-- Every count that is loaded fits 64 bits at the divisor set then. -/
def SpansFit (num den : UInt64) (ws : List (UInt32 × UInt32)) : Prop :=
  ∀ pre w, pre ++ [w] <+: ws → w.1 = REG_TIMER_ICT →
    modeOf (Loads.after pre).lvt ≠ LVT_TIMER_MODE_TSCDEADLINE →
    spanAt num den (divisorOf (Loads.after pre).dcr) w.2 < 2 ^ 64

theorem whole_atOnce {ws : List (UInt32 × UInt32)} (hfits : SpansFit num den ws) :
    (Lapic.new clock num den ratio).RunInRange (atOnce ws) ∧
      ∃ l', (Lapic.new clock num den ratio).timerRun (atOnce ws) = some l' ∧
        Whole num den (Loads.after ws) l' := by
  induction ws using List.reverseRecOn with
  | nil =>
    refine ⟨trivial, _, rfl, tracks_new clock num den ratio, ?_, ?_⟩
    · intro at₀ hat
      cases hat
    · intro at₀ hat
      cases hat
  | append_singleton ws w ih =>
    have hfits' : SpansFit num den ws := by
      intro pre w' hpre
      exact hfits pre w' (hpre.trans (List.prefix_append ws [w]))
    obtain ⟨hrange, l', hrun, hwhole⟩ := ih hfits'
    have hstep : l'.InRange (.write w.1 w.2 0) := by
      intro hict hmode
      rw [hwhole.mode] at hmode
      rw [hwhole.span_eq, UInt64.toNat_zero, Nat.zero_add]
      exact hfits ws w List.prefix_rfl hict hmode
    have happ : atOnce (ws ++ [w]) = atOnce ws ++ [.write w.1 w.2 0] := List.map_append
    have hafter : Loads.after (ws ++ [w]) = (Loads.after ws).write (w.1, w.2) :=
      List.foldl_concat ..
    rw [happ, hafter]
    exact ⟨hrange.append hrun ⟨hstep, fun _ _ => trivial⟩, _, timerRun_append hrun,
      hwhole.write hstep⟩

end FromReset

/-- A sequence of register writes from reset on, at divisors at which one count is at least one
cycle and whose counts fit 64 bits. In every run with these writes, at any nondecreasing clock
readings and with any services and reads between them, the current count is at most the initial
count and does not grow between writes and fires, exactly when at every point of the sequence
the divisor is not below that of the load. -/
theorem count_kept_iff (clock : VirtualClock) (num den : UInt64) (ratio : 0 < num ∧ 0 < den)
    (ws : List (UInt32 × UInt32))
    (hcycle : ∀ pre, pre <+: ws →
      den.toNat ≤ (divisorOf (Loads.after pre).dcr).toNat * num.toNat)
    (hfits : SpansFit num den ws) :
    (∀ ops : List TimerOp, ops.filterMap TimerOp.written = ws →
        (ops.map TimerOp.now).Pairwise (· ≤ ·) → (Lapic.new clock num den ratio).RunInRange ops →
        (Lapic.new clock num den ratio).CountKept ops) ↔
      ∀ pre, pre <+: ws → (Loads.after pre).Sound num den := by
  constructor
  · intro hkept pre hpre at₀ hat hcounts
    by_contra hnot
    rw [not_or, not_or] at hnot
    obtain ⟨hlow, hmax, hrest⟩ := hnot
    -- the guest reads right after the write that lowers the divisor
    obtain ⟨rest, rfl⟩ := hpre
    have hfits' : SpansFit num den pre := by
      intro pre' w hpre'
      exact hfits pre' w (hpre'.trans (List.prefix_append pre rest))
    obtain ⟨hrange, l', hrun, hwhole⟩ := @whole_atOnce clock num den ratio pre hfits'
    have hall := (@whole_atOnce clock num den ratio (pre ++ rest) hfits).1
    have happ : atOnce (pre ++ rest) = atOnce pre ++ atOnce rest := List.map_append
    rw [happ] at hall
    have hread := (hkept (atOnce pre ++ .read 0 :: atOnce rest) ?_ ?_ ?_).bounded _ 0 _ rfl l' hrun
    · rw [mmioRead_cct, mmioRead_ict, hwhole.ict, UInt32.le_iff_toNat_le,
        hwhole.read_eq hat hcounts] at hread
      have hgt := Loads.readAs_gt (toNat_pos ratio.2) (hcycle pre (List.prefix_append pre rest))
        hwhole.proper hat (UInt64.not_le.mp hlow) hmax hrest
      omega
    · rw [List.filterMap_append, List.filterMap_cons_none rfl, written_atOnce, written_atOnce]
    · refine List.pairwise_of_forall_mem_list ?_
      have hzero : ∀ a ∈ (atOnce pre ++ .read 0 :: atOnce rest).map TimerOp.now, a = 0 := by
        intro a ha
        obtain ⟨op, hop, rfl⟩ := List.mem_map.mp ha
        rcases List.mem_append.mp hop with hop | hop
        · exact now_atOnce hop
        · rcases List.mem_cons.mp hop with rfl | hop
          · rfl
          · exact now_atOnce hop
      intro a ha b hb
      rw [hzero a ha, hzero b hb]
      exact UInt64.le_refl 0
    · refine hrange.append hrun ⟨trivial, ?_⟩
      intro l'' hstep
      obtain rfl : l' = l'' := Option.some.inj hstep
      exact hall.back hrun
  · intro hsound ops hwritten htimes hrange
    rw [← hwritten] at hsound
    exact count_kept_of_sound htimes hrange hsound

theorem spansFit_one (ws : List (UInt32 × UInt32)) : SpansFit 1 1 ws := by
  intro pre w _ _ _
  have hdivisor : (divisorOf (Loads.after pre).dcr).toNat ≤ 128 := by
    unfold divisorOf
    split <;> decide
  have hcount := w.2.toNat_lt
  have hspan : spanAt 1 1 (divisorOf (Loads.after pre).dcr) w.2 =
      w.2.toNat * (divisorOf (Loads.after pre).dcr).toNat := by
    simp [spanAt]
  rw [hspan]
  calc w.2.toNat * (divisorOf (Loads.after pre).dcr).toNat ≤ 2 ^ 32 * 128 :=
        Nat.mul_le_mul (Nat.le_of_lt hcount) hdivisor
    _ < 2 ^ 64 := by decide

theorem oneCycle_one (dcr : UInt32) : UInt64.toNat 1 ≤ (divisorOf dcr).toNat * UInt64.toNat 1 := by
  obtain ⟨k, hk⟩ := divisorOf_pow dcr
  rw [hk]
  exact Nat.le_mul_of_pos_left _ (Nat.two_pow_pos k)

theorem count_kept_iff_divided :
    (Lapic.new ⟨0, ⟨1000, TscFrequency.kilohertz_pos⟩⟩ 1 1 one_to_one).CountKept
      [.write REG_TIMER_DCR 0xb 0, .write REG_TIMER_ICT 100 10, .read 20, .read 60] := by
  -- a guest that sets the divisor to 1, loads 100 at 10, and reads at 20 and at 60
  refine (count_kept_iff ⟨0, ⟨1000, TscFrequency.kilohertz_pos⟩⟩ 1 1 one_to_one
    [(REG_TIMER_DCR, 0xb), (REG_TIMER_ICT, 100)] (fun pre _ => oneCycle_one _)
    (spansFit_one _)).mpr ?_ _ rfl (by decide) ?_
  · intro pre hpre at₀ hat _
    left
    have hmem : pre ∈ [[], [(REG_TIMER_DCR, 0xb)], [(REG_TIMER_DCR, 0xb), (REG_TIMER_ICT, 100)]] :=
      (List.mem_inits _ _).mpr hpre
    simp only [List.mem_cons, List.not_mem_nil, or_false] at hmem
    rcases hmem with rfl | rfl | rfl
    · cases hat
    · cases hat
    · rw [← Option.some.inj hat]
      decide
  · refine ⟨fun h => absurd h (by decide), fun l₁ h₁ => ⟨fun _ _ => ?_, fun l₂ _ =>
      ⟨trivial, fun _ _ => ⟨trivial, fun _ _ => trivial⟩⟩⟩⟩
    obtain rfl := Option.some.inj h₁
    decide +kernel

/-- The guest loads 100 at the divisor 128, then sets the divisor to 1 and reads: the count is
12800. -/
theorem count_exceeds :
    let l := Lapic.new ⟨0, ⟨1000, TscFrequency.kilohertz_pos⟩⟩ 1 1 one_to_one
    let ops := [.write REG_TIMER_DCR 0xa 0, .write REG_TIMER_ICT 100 0, .write REG_TIMER_DCR 0xb 0]
    (l.timerRun ops).map (fun l => (l.mmioRead REG_TIMER_ICT 0, l.mmioRead REG_TIMER_CCT 0)) =
        some (100, 12800) ∧
      l.RunInRange (ops ++ [.read 0]) ∧ ¬ l.CountKept (ops ++ [.read 0]) := by
  intro l ops
  have hreads : (l.timerRun ops).map
      (fun l => (l.mmioRead REG_TIMER_ICT 0, l.mmioRead REG_TIMER_CCT 0)) = some (100, 12800) := by
    decide +kernel
  refine ⟨hreads, ?_, ?_⟩
  · refine ⟨fun h => absurd h (by decide), fun l₁ h₁ => ⟨fun _ _ => ?_, fun l₂ h₂ =>
      ⟨fun h => absurd h (by decide), fun l₃ h₃ => ⟨trivial, fun _ _ => trivial⟩⟩⟩⟩
    obtain rfl := Option.some.inj h₁
    decide +kernel
  · intro hkept
    rcases hrun : l.timerRun ops with _ | l'
    · rw [hrun] at hreads
      cases hreads
    · have hle := hkept.bounded ops 0 [] rfl l' hrun
      rw [hrun] at hreads
      obtain ⟨hict, hcct⟩ := Prod.mk.inj (Option.some.inj hreads)
      rw [hict, hcct] at hle
      exact absurd hle (by decide)

end Tdvmm.Vmm
