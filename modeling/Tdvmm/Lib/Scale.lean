import Mathlib.Algebra.Ring.Nat

/-!
# Lib.Scale — scaling by a ratio and back, in whole numbers

A count `c` scaled by `m / e` is `c * m / e`; scaled back by `e / m` it is the count again, or one
less where the first division had a rest.
-/

namespace Lib

variable {c m m₀ e : Nat}

theorem scale_back_le (h : m₀ ≤ m) : c * m₀ / e * e / m ≤ c := by
  apply Nat.div_le_of_le_mul
  calc c * m₀ / e * e ≤ c * m₀ := Nat.div_mul_le_self _ _
    _ ≤ c * m := Nat.mul_le_mul_left c h
    _ = m * c := Nat.mul_comm c m

theorem scale_back (he : 0 < e) (hem : e ≤ m) :
    c * m / e * e / m = if e ∣ c * m then c else c - 1 := by
  have hm : 0 < m := Nat.lt_of_lt_of_le he hem
  split
  · rename_i hdvd
    rw [Nat.div_mul_cancel hdvd, Nat.mul_div_cancel c hm]
  · rename_i hdvd
    cases c with
    | zero => simp at hdvd
    | succ k =>
      -- the rest is not zero and less than one count
      have hrest : 0 < (k + 1) * m % e := by
        rcases Nat.eq_zero_or_pos ((k + 1) * m % e) with h | h
        · exact absurd (Nat.dvd_of_mod_eq_zero h) hdvd
        · exact h
      have hlt : (k + 1) * m % e < e := Nat.mod_lt _ he
      have hsum : (k + 1) * m / e * e + (k + 1) * m % e = (k + 1) * m := Nat.div_add_mod' _ _
      have hsucc : (k + 1) * m = k * m + m := Nat.succ_mul k m
      apply Nat.div_eq_of_lt_le
      · rw [Nat.add_sub_cancel]
        omega
      · rw [Nat.add_sub_cancel]
        omega

end Lib
