import Mathlib.Data.Nat.ModEq
import Tdvmm.Lib.Scale
import Tdvmm.Vmm.Lapic

/-!
# Vmm.Timer — the LAPIC timer over time

The re-arm loop adds the period until the sum lies after `now`; while no sum leaves 64 bits that
is the next multiple of the period (`rearm_eq`), so a periodic timer keeps its phase over any
sequence of fires and a one-shot timer fires once (`timer_rearms`).

The current count is not kept: it is computed from the deadline with the divisor that is set
*now*. With the divisor the count was loaded at it is the inverse of the span, but for the rest
of one division (`count_inverse`).
-/

namespace Tdvmm.Vmm

open Lib

namespace Lapic

/-! ## The re-arm -/

theorem toNat_pos {p : UInt64} (h : 0 < p) : 0 < p.toNat := by
  simpa [UInt64.lt_iff_toNat_lt] using h

theorem advancePast_eq {now period : UInt64} {k : Nat} {fuel : Nat}
    {next : UInt64} (hfuel : k < fuel)
    (hbefore : ∀ j < k, next.toNat + j * period.toNat ≤ now.toNat)
    (hafter : now.toNat < next.toNat + k * period.toNat)
    (hroom : next.toNat + k * period.toNat < 2 ^ 64) :
    advancePast now period fuel next = some (next + UInt64.ofNat (k * period.toNat)) := by
  induction k generalizing fuel next with
  | zero =>
    cases fuel with
    | zero => omega
    | succ fuel =>
      have hlt : ¬ next ≤ now := by
        rw [UInt64.le_iff_toNat_le]
        omega
      rw [advancePast, if_neg hlt]
      simp
  | succ k ih =>
    cases fuel with
    | zero => omega
    | succ fuel =>
      have hsucc : (k + 1) * period.toNat = period.toNat + k * period.toNat := by
        rw [Nat.succ_mul, Nat.add_comm]
      have hle : next ≤ now := by
        have h := hbefore 0 (Nat.succ_pos k)
        rw [UInt64.le_iff_toNat_le]
        omega
      -- no sum up to this one wraps
      have hnext : (next + period).toNat = next.toNat + period.toNat := by
        rw [UInt64.toNat_add, Nat.mod_eq_of_lt (by omega)]
      rw [advancePast, if_pos hle, ih (Nat.lt_of_succ_lt_succ hfuel)]
      · congr 1
        rw [hsucc, UInt64.ofNat_add, UInt64.ofNat_toNat, UInt64.add_assoc]
      · intro j hj
        have h := hbefore (j + 1) (Nat.succ_lt_succ hj)
        rw [hnext]
        rw [Nat.succ_mul] at h
        omega
      · rw [hnext]
        omega
      · rw [hnext]
        omega

/-- The number of periods a timer due since `d` is moved on by. -/
def periodsPast (d now period : Nat) : Nat := (now - d) / period + 1

theorem periodsPast_spec {d now period : Nat} (hpos : 0 < period) (hdue : d ≤ now) :
    now < d + periodsPast d now period * period ∧
      (∀ j < periodsPast d now period, d + j * period ≤ now) ∧
      d + periodsPast d now period * period ≤ now + period := by
  unfold periodsPast
  have hsum : (now - d) / period * period + (now - d) % period = now - d := Nat.div_add_mod' _ _
  have hlt : (now - d) % period < period := Nat.mod_lt _ hpos
  have hsucc : ((now - d) / period + 1) * period = (now - d) / period * period + period :=
    Nat.succ_mul _ _
  refine ⟨by omega, ?_, by omega⟩
  intro j hj
  have hj' : j * period ≤ (now - d) / period * period :=
    Nat.mul_le_mul_right period (Nat.le_of_lt_succ hj)
  omega

theorem rearm_eq {l : Lapic} {d now : UInt64} (hpos : 0 < l.timerPeriod) (hdue : d ≤ now)
    (hroom : d.toNat + periodsPast d.toNat now.toNat l.timerPeriod.toNat * l.timerPeriod.toNat <
      2 ^ 64) :
    ∃ next, l.rearm d now = some next ∧ next.toNat =
      d.toNat + periodsPast d.toNat now.toNat l.timerPeriod.toNat * l.timerPeriod.toNat := by
  have hp := toNat_pos hpos
  obtain ⟨hafter, hbefore, -⟩ := periodsPast_spec hp (UInt64.le_iff_toNat_le.mp hdue)
  generalize periodsPast d.toNat now.toNat l.timerPeriod.toNat = k at *
  have hfuel : k < 2 ^ 64 := by
    have hk : k ≤ k * l.timerPeriod.toNat := Nat.le_mul_of_pos_right k hp
    omega
  refine ⟨_, advancePast_eq hfuel hbefore hafter hroom, ?_⟩
  rw [UInt64.toNat_add, UInt64.toNat_ofNat']
  rw [Nat.mod_eq_of_lt (Nat.lt_of_le_of_lt (Nat.le_add_left _ _) hroom), Nat.mod_eq_of_lt hroom]

/-! ## A fire -/

/-- The LAPIC after a fire that leaves this deadline: the vector is raised unless it is masked. -/
def fired (l : Lapic) (deadline : Option UInt64) : Lapic :=
  { l with
    timerDeadline := deadline
    irr := if l.timerMasked then l.irr else l.irr.set l.timerVector }

theorem raiseTimer_eq_fired (l : Lapic) (deadline : Option UInt64) :
    { l with timerDeadline := deadline }.raiseTimer = l.fired deadline := by
  unfold raiseTimer fired
  cases hmask : l.timerMasked with
  | false =>
    have hmask' : { l with timerDeadline := deadline }.timerMasked = false := hmask
    rw [hmask']
    rfl
  | true =>
    have hmask' : { l with timerDeadline := deadline }.timerMasked = true := hmask
    rw [hmask']
    rfl

section Fire

variable {l : Lapic} {d now : UInt64}

theorem fire_periodic (hd : l.timerDeadline = some d) (hpos : 0 < l.timerPeriod) (hdue : d ≤ now) :
    l.fireTimerIfDue now = (l.rearm d now).map fun next => (true, l.fired (some next)) := by
  simp only [fireTimerIfDue, hd, if_pos hdue, if_pos hpos, raiseTimer_eq_fired]

theorem fire_oneShot (hd : l.timerDeadline = some d) (hperiod : l.timerPeriod = 0)
    (hdue : d ≤ now) :
    l.fireTimerIfDue now = some (true, l.fired none) := by
  have hnot : ¬ 0 < l.timerPeriod := by
    rw [hperiod]
    exact UInt64.lt_irrefl 0
  simp only [fireTimerIfDue, hd, if_pos hdue, if_neg hnot, raiseTimer_eq_fired]

theorem fire_early (hd : l.timerDeadline = some d) (hearly : now < d) :
    l.fireTimerIfDue now = some (false, l) := by
  simp only [fireTimerIfDue, hd, if_neg (UInt64.not_le.mpr hearly)]

theorem fire_disarmed (hd : l.timerDeadline = none) : l.fireTimerIfDue now = some (false, l) := by
  simp only [fireTimerIfDue, hd]

end Fire

/-- The answers to a sequence of calls, each with the LAPIC after it; none if one does not
return. -/
def fireAll (l : Lapic) : List UInt64 → Option (List (Bool × Lapic))
  | [] => some []
  | now :: nows =>
    match l.fireTimerIfDue now with
    | none => none
    | some (b, l') => (l'.fireAll nows).map ((b, l') :: ·)

theorem fireAll_cons {l l' : Lapic} {now : UInt64} {b : Bool} {nows : List UInt64}
    {rs : List (Bool × Lapic)} (h : l.fireTimerIfDue now = some (b, l'))
    (hrest : l'.fireAll nows = some rs) : l.fireAll (now :: nows) = some ((b, l') :: rs) := by
  simp only [fireAll, h, hrest, Option.map_some]

theorem fireAll_disarmed {l : Lapic} (hd : l.timerDeadline = none) (nows : List UInt64) :
    l.fireAll nows = some (nows.map fun _ => (false, l)) := by
  induction nows with
  | nil => rfl
  | cons now nows ih => exact fireAll_cons (fire_disarmed hd) ih

theorem fireAll_phase {p : UInt64} (hpos : 0 < p) {nows : List UInt64}
    (hroom : ∀ now ∈ nows, now.toNat + p.toNat < 2 ^ 64) {l : Lapic} {d : UInt64}
    (hd : l.timerDeadline = some d) (hp : l.timerPeriod = p) :
    ∃ rs, l.fireAll nows = some rs ∧
      ∀ r ∈ rs, ∃ d', r.2.timerDeadline = some d' ∧ d'.toNat ≡ d.toNat [MOD p.toNat] := by
  induction nows generalizing l d with
  | nil => exact ⟨[], rfl, fun r hr => nomatch hr⟩
  | cons now nows ih =>
    have hlater : ∀ t ∈ nows, t.toNat + p.toNat < 2 ^ 64 := fun t ht =>
      hroom t (List.mem_cons_of_mem now ht)
    by_cases hearly : now < d
    · obtain ⟨rs, hrs, hphase⟩ := ih hlater hd hp
      refine ⟨_, fireAll_cons (fire_early hd hearly) hrs, ?_⟩
      intro r hr
      rcases List.mem_cons.mp hr with rfl | hr
      · exact ⟨d, hd, rfl⟩
      · exact hphase r hr
    · have hdue : d ≤ now := UInt64.not_lt.mp hearly
      have hpos' : 0 < l.timerPeriod := hp ▸ hpos
      obtain ⟨-, -, hle⟩ := periodsPast_spec (toNat_pos hpos') (UInt64.le_iff_toNat_le.mp hdue)
      have hnow := hroom now List.mem_cons_self
      rw [← hp] at hnow
      obtain ⟨next, hrearm, hnext⟩ := rearm_eq hpos' hdue (Nat.lt_of_le_of_lt hle hnow)
      have hfire : l.fireTimerIfDue now = some (true, l.fired (some next)) := by
        rw [fire_periodic hd hpos' hdue, hrearm, Option.map_some]
      have hsame : next.toNat ≡ d.toNat [MOD p.toNat] := by
        rw [hnext, hp]
        exact Nat.add_mul_mod_self_right _ _ _
      obtain ⟨rs, hrs, hphase⟩ := @ih hlater (l.fired (some next)) next rfl hp
      refine ⟨_, fireAll_cons hfire hrs, ?_⟩
      intro r hr
      rcases List.mem_cons.mp hr with rfl | hr
      · exact ⟨next, rfl, hsame⟩
      · obtain ⟨d', hd', hphase'⟩ := hphase r hr
        exact ⟨d', hd', hphase'.trans hsame⟩

/-- The answers of a one-shot timer due at `d`: it fires at the first call that finds it due, if
one does, and is disarmed from then on. -/
def oneShotAnswers (l : Lapic) (d : UInt64) : List UInt64 → List (Bool × Lapic)
  | [] => []
  | now :: nows =>
    if now < d then (false, l) :: l.oneShotAnswers d nows
    else (true, l.fired none) :: nows.map fun _ => (false, l.fired none)

theorem fireAll_oneShot {l : Lapic} {d : UInt64} (hd : l.timerDeadline = some d)
    (hperiod : l.timerPeriod = 0) (nows : List UInt64) :
    l.fireAll nows = some (l.oneShotAnswers d nows) := by
  induction nows with
  | nil => rfl
  | cons now nows ih =>
    by_cases hearly : now < d
    · rw [fireAll_cons (fire_early hd hearly) ih, oneShotAnswers, if_pos hearly]
    · have hdue : d ≤ now := UInt64.not_lt.mp hearly
      rw [fireAll_cons (fire_oneShot hd hperiod hdue) (fireAll_disarmed rfl nows), oneShotAnswers,
        if_neg hearly]

/-- An armed timer. A periodic one that is due, with a period of room behind `now`, is re-armed to
the first multiple after `now`, and its vector is raised unless masked; over any calls it keeps
its phase. A one-shot timer fires at the first call that finds it due, and then no more. -/
theorem timer_rearms (l : Lapic) (d : UInt64) (hd : l.timerDeadline = some d) :
    (0 < l.timerPeriod → ∀ now, d ≤ now → now.toNat + l.timerPeriod.toNat < 2 ^ 64 →
      ∃ next k, l.fireTimerIfDue now = some (true, l.fired (some next)) ∧
        next.toNat = d.toNat + k * l.timerPeriod.toNat ∧ now < next ∧
        ∀ j, now.toNat < d.toNat + j * l.timerPeriod.toNat → k ≤ j) ∧
    (0 < l.timerPeriod → ∀ nows : List UInt64,
      (∀ now ∈ nows, now.toNat + l.timerPeriod.toNat < 2 ^ 64) →
      ∃ rs, l.fireAll nows = some rs ∧ ∀ r ∈ rs, ∃ d',
        r.2.timerDeadline = some d' ∧ d'.toNat ≡ d.toNat [MOD l.timerPeriod.toNat]) ∧
    (l.timerPeriod = 0 → ∀ nows, l.fireAll nows = some (l.oneShotAnswers d nows)) := by
  refine ⟨?_, ?_, ?_⟩
  · intro hpos now hdue hroom
    obtain ⟨hafter, hbefore, hle⟩ :=
      periodsPast_spec (toNat_pos hpos) (UInt64.le_iff_toNat_le.mp hdue)
    obtain ⟨next, hrearm, hnext⟩ := rearm_eq hpos hdue (Nat.lt_of_le_of_lt hle hroom)
    refine ⟨next, _, ?_, hnext, ?_, ?_⟩
    · rw [fire_periodic hd hpos hdue, hrearm, Option.map_some]
    · rw [UInt64.lt_iff_toNat_lt, hnext]
      exact hafter
    · intro j hj
      by_contra hlt
      exact absurd hj (Nat.not_lt.mpr (hbefore j (Nat.not_le.mp hlt)))
  · intro hpos nows hroom
    exact fireAll_phase hpos hroom hd rfl
  · intro hperiod nows
    exact fireAll_oneShot hd hperiod nows

/-- A LAPIC of a 1 kHz clock whose timer counts at the clock's rate, with this timer entry. -/
def counting (lvt : UInt32) : Lapic :=
  (Lapic.new ⟨0, ⟨1000, TscFrequency.kilohertz_pos⟩⟩ 1 1 one_to_one).writeLvtTimer lvt

theorem timer_rearms_loaded :
    (∃ next k, ((counting 0x20020).writeTimerIct 100 10).fireTimerIfDue 1000 =
        some (true, ((counting 0x20020).writeTimerIct 100 10).fired (some next)) ∧
      next.toNat = 210 + k * 200 ∧ 1000 < next ∧ ∀ j, 1000 < 210 + j * 200 → k ≤ j) ∧
    (((counting 0x20).writeTimerIct 100 10).fireAll [5, 1000, 2000]).map (·.map (·.1)) =
      some [false, true, false] := by
  -- a count of 100 loaded at 10, divided by 2, is due at 210; found due at 1000 it is moved on
  -- to 1010. The one-shot is gone after that.
  constructor
  · exact (timer_rearms ((counting 0x20020).writeTimerIct 100 10) 210 rfl).1
      (by decide +kernel) 1000 (by decide) (by decide +kernel)
  · rw [(timer_rearms ((counting 0x20).writeTimerIct 100 10) 210 rfl).2.2 rfl]
    rfl

/-! ## The current count -/

/-- A count at the divisor set now takes this many cycles, times the denominator of the ratio. -/
def perCount (l : Lapic) : Nat := l.timerDivisor.toNat * l.tscPerCountNum.toNat

/-- The span of a count before it is cut to 64 bits. -/
def span (l : Lapic) (count : Nat) : Nat := count * l.perCount / l.tscPerCountDen.toNat

theorem den_pos (l : Lapic) : 0 < l.tscPerCountDen.toNat := toNat_pos l.ratio.2

theorem spanFromCount_eq (l : Lapic) (count : UInt32) :
    l.spanFromCount count = UInt64.ofNat (l.span count.toNat) := by
  rw [spanFromCount, span, perCount, Nat.mul_assoc]

theorem spanFromCount_toNat {l : Lapic} {count : UInt32} (h : l.span count.toNat < 2 ^ 64) :
    (l.spanFromCount count).toNat = l.span count.toNat := by
  rw [spanFromCount_eq, UInt64.toNat_ofNat', Nat.mod_eq_of_lt h]

/-- The count that is left: that of the cycles left, cut to 32 bits from above. -/
theorem countUntil_toNat (l : Lapic) (d now : UInt64) :
    (l.countUntil d now).toNat =
      min ((d.toNat - now.toNat) * l.tscPerCountDen.toNat / l.perCount) (2 ^ 32 - 1) := by
  unfold countUntil
  split
  · rename_i hle
    rw [Nat.sub_eq_zero_of_le (UInt64.le_iff_toNat_le.mp hle)]
    simp
  · rename_i hlt
    rw [UInt64.toNat_sub_of_le _ _ (UInt64.le_of_lt (UInt64.not_le.mp hlt)), perCount,
      UInt32.toNat_ofNat', Nat.mod_eq_of_lt]
    exact Nat.lt_of_le_of_lt (Nat.min_le_right _ _) (by decide)

/-- Just loaded, a count reads as itself, or as one less where its span had a rest. One count is at
least one cycle, and the deadline stays in 64 bits. -/
theorem count_inverse (l : Lapic) (c : UInt32) (now : UInt64) (hc : 0 < c)
    (hcycle : l.tscPerCountDen.toNat ≤ l.timerDivisor.toNat * l.tscPerCountNum.toNat)
    (hroom : now.toNat + c.toNat * l.timerDivisor.toNat * l.tscPerCountNum.toNat /
      l.tscPerCountDen.toNat < 2 ^ 64) :
    (l.countUntil (now + l.spanFromCount c) now = c ∨
      l.countUntil (now + l.spanFromCount c) now = c - 1) ∧
    (l.countUntil (now + l.spanFromCount c) now = c ↔
      l.tscPerCountDen.toNat ∣ c.toNat * l.timerDivisor.toNat * l.tscPerCountNum.toNat) := by
  have hroom' : now.toNat + l.span c.toNat < 2 ^ 64 := by
    rwa [span, perCount, ← Nat.mul_assoc]
  rw [← perCount] at hcycle
  have hc' : 0 < c.toNat := by simpa [UInt32.lt_iff_toNat_lt] using hc
  have hmax : c.toNat < 2 ^ 32 := c.toNat_lt
  have hleft : (now + l.spanFromCount c).toNat - now.toNat = l.span c.toNat := by
    rw [UInt64.toNat_add, spanFromCount_toNat (by omega), Nat.mod_eq_of_lt hroom']
    omega
  -- what is read, as a number
  have hread : (l.countUntil (now + l.spanFromCount c) now).toNat =
      if l.tscPerCountDen.toNat ∣ c.toNat * l.perCount then c.toNat else c.toNat - 1 := by
    rw [countUntil_toNat, hleft, span, scale_back l.den_pos hcycle]
    split
    · exact Nat.min_eq_left (by omega)
    · exact Nat.min_eq_left (by omega)
  have hpred : (c - 1).toNat = c.toNat - 1 :=
    UInt32.toNat_sub_of_le _ _ (UInt32.le_iff_toNat_le.mpr hc')
  rw [Nat.mul_assoc, ← perCount]
  by_cases hdvd : l.tscPerCountDen.toNat ∣ c.toNat * l.perCount
  · rw [if_pos hdvd] at hread
    have heq := UInt32.toNat.inj hread
    exact ⟨.inl heq, iff_of_true heq hdvd⟩
  · rw [if_neg hdvd] at hread
    refine ⟨.inr (UInt32.toNat.inj (hread.trans hpred.symm)), iff_of_false ?_ hdvd⟩
    intro heq
    rw [heq] at hread
    omega

theorem count_inverse_fifths :
    let l := Lapic.new ⟨0, ⟨1000, TscFrequency.kilohertz_pos⟩⟩ 5 3 (by decide)
    (l.countUntil (100 + l.spanFromCount 7) 100 = 6 ∧
        ¬ l.tscPerCountDen.toNat ∣ 7 * l.timerDivisor.toNat * l.tscPerCountNum.toNat) ∧
      l.countUntil (100 + l.spanFromCount 9) 100 = 9 := by
  -- a ratio of 5 to 3 and a divisor of 2: a count of 7 spans 23 cycles and two thirds, so it
  -- reads as 6; a count of 9 spans 30 cycles
  intro l
  have hseven := count_inverse l 7 100 (by decide) (by decide +kernel) (by decide +kernel)
  have hnine := count_inverse l 9 100 (by decide) (by decide +kernel) (by decide +kernel)
  have hrest : ¬ l.tscPerCountDen.toNat ∣ 7 * l.timerDivisor.toNat * l.tscPerCountNum.toNat := by
    decide +kernel
  refine ⟨⟨?_, hrest⟩, hnine.2.mpr (by decide +kernel)⟩
  rcases hseven.1 with h | h
  · exact absurd (hseven.2.mp h) hrest
  · exact h

end Lapic

end Tdvmm.Vmm
