import Mathlib.Data.List.Pairwise

/-!
# Lib.Range — ranges of addresses

A range is a start and a length. Two ranges are apart when they share no address, so an
empty range is apart from every other; `apart_iff` turns this into comparisons of the
ends.
-/

namespace Lib

structure Range where
  start : Nat
  len : Nat
deriving DecidableEq, Repr

namespace Range

variable {r s : Range} {x : Nat}

def stop (r : Range) : Nat := r.start + r.len

def Has (r : Range) (x : Nat) : Prop := r.start ≤ x ∧ x < r.stop

def Within (r s : Range) : Prop := s.start ≤ r.start ∧ r.stop ≤ s.stop

def Apart (r s : Range) : Prop := ∀ x, r.Has x → ¬ s.Has x

instance : Decidable (r.Has x) := inferInstanceAs (Decidable (_ ∧ _))

instance : Decidable (r.Within s) := inferInstanceAs (Decidable (_ ∧ _))

theorem Apart.symm (h : r.Apart s) : s.Apart r := fun x hs hr => h x hr hs

theorem apart_iff :
    r.Apart s ↔ r.len = 0 ∨ s.len = 0 ∨ r.stop ≤ s.start ∨ s.stop ≤ r.start := by
  unfold Apart Has stop
  constructor
  · intro h
    -- where both are nonempty, the later of the two starts is in both
    have hmax := h (max r.start s.start)
    omega
  · omega

instance : Decidable (r.Apart s) := decidable_of_iff' _ apart_iff

end Range

end Lib
