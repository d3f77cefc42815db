import Mathlib.Data.Multiset.AddSub
import Mathlib.Data.List.Sort

/-!
# Lib.Heap — a priority queue by its contract

A max-heap over a comparison, given by what it promises of its elements: pushing
adds one, clearing removes all, and what it shows or takes out is an element that
none of the others exceeds. Which of several equal elements that is stays open.
`sortedHeap` keeps the contract with a sorted list.
-/

namespace Lib

structure MaxHeap (α : Type) (cmp : α → α → Ordering) where
  Heap : Type
  elems : Heap → Multiset α
  new : Heap
  push : Heap → α → Heap
  peek : Heap → Option α
  pop : Heap → Option (α × Heap)
  clear : Heap → Heap
  elems_new : elems new = 0
  elems_push : ∀ h a, elems (push h a) = a ::ₘ elems h
  elems_clear : ∀ h, elems (clear h) = 0
  peek_none : ∀ h, peek h = none → elems h = 0
  peek_mem : ∀ h a, peek h = some a → a ∈ elems h
  peek_greatest : ∀ h a, peek h = some a → ∀ b ∈ elems h, cmp b a ≠ .gt
  pop_none : ∀ h, pop h = none → peek h = none
  pop_peek : ∀ h a h', pop h = some (a, h') → peek h = some a
  elems_pop : ∀ h a h', pop h = some (a, h') → elems h = a ::ₘ elems h'

variable {α : Type} {cmp : α → α → Ordering}

section Sorted

variable (total : ∀ a b, cmp a b ≠ .gt ∨ cmp b a ≠ .gt)
  (trans : ∀ a b c, cmp a b ≠ .gt → cmp b c ≠ .gt → cmp a c ≠ .gt)

include total trans

theorem pairwise_orderedInsert_ge {l : List α} (a : α)
    (h : l.Pairwise fun x y => cmp y x ≠ .gt) :
    (l.orderedInsert (fun x y => cmp y x ≠ .gt) a).Pairwise fun x y => cmp y x ≠ .gt := by
  have : Std.Total fun x y => cmp y x ≠ .gt := ⟨fun x y => total y x⟩
  have : IsTrans α fun x y => cmp y x ≠ .gt := ⟨fun x y z hxy hyz => trans z y x hyz hxy⟩
  exact h.orderedInsert _ _

/-- A list sorted from the greatest element down is a max-heap. -/
def sortedHeap : MaxHeap α cmp where
  Heap := { l : List α // l.Pairwise fun x y => cmp y x ≠ .gt }
  elems := fun l => ↑l.1
  new := ⟨[], List.Pairwise.nil⟩
  push := fun l a => ⟨l.1.orderedInsert (fun x y => cmp y x ≠ .gt) a,
    pairwise_orderedInsert_ge total trans a l.2⟩
  peek := fun l => l.1.head?
  pop := fun l => l.1.head?.map fun a => (a, ⟨l.1.tail, l.2.tail⟩)
  clear := fun _ => ⟨[], List.Pairwise.nil⟩
  elems_new := rfl
  elems_push := fun l a => Multiset.coe_eq_coe.mpr (List.perm_orderedInsert _ a l.1)
  elems_clear := fun _ => rfl
  peek_none := by
    rintro ⟨_ | ⟨x, l⟩, _⟩ h
    · rfl
    · simp at h
  peek_mem := fun l a h => Multiset.mem_coe.mpr (List.mem_of_mem_head? (Option.mem_def.mpr h))
  peek_greatest := by
    rintro ⟨_ | ⟨x, l⟩, hl⟩ a h b hb
    · simp at h
    · have hx : x = a := by simpa using h
      subst hx
      rcases List.mem_cons.mp (Multiset.mem_coe.mp hb) with rfl | hb
      · exact (total b b).elim (fun h => h) (fun h => h)
      · exact (List.pairwise_cons.mp hl).1 b hb
  pop_none := fun l h => Option.map_eq_none_iff.mp h
  pop_peek := by
    rintro ⟨_ | ⟨x, l⟩, _⟩ a h' h
    · simp at h
    · simpa using congrArg (Option.map Prod.fst) h
  elems_pop := by
    rintro ⟨_ | ⟨x, l⟩, _⟩ a h' h
    · simp at h
    · have heq := Option.some.inj h
      obtain ⟨rfl, rfl⟩ := Prod.mk.inj heq
      rfl

end Sorted

end Lib
