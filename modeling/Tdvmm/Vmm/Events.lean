import Mathlib.Data.List.Sort

/-!
# Vmm.Events — the virtual-time event queue

The one queue of future events, ordered by deadline and, for equal deadlines, by
insertion (`src/events.rs`). The source keeps a binary heap of the standard
library; only the order in which it hands events out matters, so the queue is
the list of its events in that order, which is a field of the queue. The counter of
insertions wraps as in a build without overflow checks.
-/

namespace Tdvmm.Vmm

variable {T : Type}

/-- One scheduled event. `seq` is its place in the order of insertion. -/
structure Event (T : Type) where
  deadline : UInt64
  payload : T
  seq : UInt64
deriving DecidableEq, Repr

/-- The order of the queue: by deadline, and by insertion among equal ones. -/
def Event.before (a b : Event T) : Prop :=
  a.deadline < b.deadline ∨ a.deadline = b.deadline ∧ a.seq ≤ b.seq

instance : DecidableRel (Event.before (T := T)) := fun a b =>
  inferInstanceAs (Decidable (a.deadline < b.deadline ∨ a.deadline = b.deadline ∧ a.seq ≤ b.seq))

theorem Event.before_trans {a b c : Event T} (hab : a.before b) (hbc : b.before c) :
    a.before c := by
  rcases hab with hab | ⟨hab, hseq⟩
  · rcases hbc with hbc | ⟨hbc, -⟩
    · exact .inl (UInt64.lt_trans hab hbc)
    · exact .inl (hbc ▸ hab)
  · rcases hbc with hbc | ⟨hbc, hseq'⟩
    · exact .inl (hab ▸ hbc)
    · exact .inr ⟨hab.trans hbc, UInt64.le_trans hseq hseq'⟩

theorem Event.before_total (a b : Event T) : a.before b ∨ b.before a := by
  unfold Event.before
  rcases Nat.lt_trichotomy a.deadline.toNat b.deadline.toNat with h | h | h
  · exact .inl (.inl h)
  · have h := UInt64.toNat.inj h
    rcases UInt64.le_total a.seq b.seq with hs | hs
    · exact .inl (.inr ⟨h, hs⟩)
    · exact .inr (.inr ⟨h.symm, hs⟩)
  · exact .inr (.inl h)

instance : IsTrans (Event T) Event.before := ⟨fun _ _ _ => Event.before_trans⟩

instance : Std.Total (Event.before (T := T)) := ⟨Event.before_total⟩

/-- The queue: its events in the order it hands them out, and the next sequence number. -/
structure EventQueue (T : Type) where
  heap : List (Event T)
  nextSeq : UInt64
  sorted : heap.Pairwise Event.before

namespace EventQueue

def new : EventQueue T where
  heap := []
  nextSeq := 0
  sorted := List.Pairwise.nil

def push (q : EventQueue T) (deadline : UInt64) (payload : T) : EventQueue T where
  heap := q.heap.orderedInsert Event.before ⟨deadline, payload, q.nextSeq⟩
  nextSeq := q.nextSeq + 1
  sorted := q.sorted.orderedInsert _ _

def peekDeadline (q : EventQueue T) : Option UInt64 := q.heap.head?.map (·.deadline)

/-- Drop all pending events; the sequence numbers go on. -/
def clear (q : EventQueue T) : EventQueue T where
  heap := []
  nextSeq := q.nextSeq
  sorted := List.Pairwise.nil

def pop (q : EventQueue T) : EventQueue T where
  heap := q.heap.tail
  nextSeq := q.nextSeq
  sorted := q.sorted.tail

def popDue (q : EventQueue T) (now : UInt64) : Option (Event T × EventQueue T) :=
  match q.heap.head? with
  | some e => if e.deadline ≤ now then some (e, q.pop) else none
  | none => none

end EventQueue

end Tdvmm.Vmm
