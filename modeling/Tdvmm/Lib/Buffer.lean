import Mathlib.Data.List.Basic

/-!
# Lib.Buffer — ranges of a buffer of fixed length

`put h k bs` is the buffer `h` with `bs` written from position `k` on; it never grows.
`slice h a b` is the range `a..b`. The lemmas say what a range shows of what was written:
all of it, or nothing.
-/

namespace Lib

section Buffer

variable {α : Type}

def put (h : List α) (k : Nat) (bs : List α) : List α :=
  h.take k ++ bs.take (h.length - k) ++ h.drop (k + bs.length)

def slice (h : List α) (a b : Nat) : List α := (h.take b).drop a

variable {h bs cs : List α} {k a b : Nat}

@[simp]
theorem length_put : (put h k bs).length = h.length := by
  simp only [put, List.length_append, List.length_take, List.length_drop]
  omega

theorem getElem?_put (i : Nat) :
    (put h k bs)[i]? = if k ≤ i ∧ i < k + bs.length ∧ i < h.length then bs[i - k]? else h[i]? := by
  unfold put
  by_cases hk : i < k
  · rw [if_neg (by omega)]
    grind
  · by_cases hb : i < k + bs.length ∧ i < h.length
    · rw [if_pos ⟨by omega, hb⟩]
      grind
    · rw [if_neg (by omega)]
      grind

theorem getElem?_slice (i : Nat) : (slice h a b)[i]? = if a + i < b then h[a + i]? else none := by
  unfold slice
  grind

theorem slice_put_self (hfit : k + bs.length ≤ h.length) :
    slice (put h k bs) k (k + bs.length) = bs := by
  apply List.ext_getElem?
  intro i
  rw [getElem?_slice, getElem?_put]
  by_cases hi : i < bs.length
  · rw [if_pos (by omega), if_pos (by omega), Nat.add_sub_cancel_left]
  · rw [if_neg (by omega), List.getElem?_eq_none (by omega)]

theorem slice_put_of_disjoint (hdisj : b ≤ k ∨ k + bs.length ≤ a) :
    slice (put h k bs) a b = slice h a b := by
  apply List.ext_getElem?
  intro i
  rw [getElem?_slice, getElem?_slice, getElem?_put]
  by_cases hi : a + i < b
  · rw [if_pos hi, if_pos hi, if_neg (by omega)]
  · rw [if_neg hi, if_neg hi]

theorem put_put_of_covered {j : Nat} (hj : k ≤ j) (hend : j + cs.length ≤ k + bs.length) :
    put (put h j cs) k bs = put h k bs := by
  apply List.ext_getElem?
  intro i
  rw [getElem?_put, getElem?_put, getElem?_put, length_put]
  split
  · rfl
  · rw [if_neg (by omega)]

theorem put_slice_self (hslice : slice h k (k + bs.length) = bs) : put h k bs = h := by
  apply List.ext_getElem?
  intro i
  rw [getElem?_put]
  split
  · rename_i hi
    have hget : (slice h k (k + bs.length))[i - k]? = bs[i - k]? := by rw [hslice]
    rw [getElem?_slice, if_pos (by omega), show k + (i - k) = i by omega] at hget
    rw [← hget]
  · rfl

end Buffer

end Lib
