import Tdvmm.Lib.Heap
import Tdvmm.Vmm.Timer
import Tdvmm.Vmm.Turns

/-!
# Vmm.Queue — the event queue over the binary heap

`EventQueue` is the list of its events in the order it hands them out. Here is the
queue as `src/events.rs` has it: a max-heap of the standard library under an order
reversed by hand, and a counter that numbers the events in a machine word. Of the
heap only its contract is used (`MaxHeap`).

What the queue is for is `Pending`: the events in the order of insertion, of which
a due-pop takes out the first by deadline and insertion. A run of the heap queue
is a run of `Pending` as long as the counter does not start over, and a timer service
over the heap queue is the one over the list.
-/

namespace Tdvmm.Vmm

open Lib

variable {T : Type}

/-! ## The queue of the source -/

namespace Event

/-- The order of the heap, reversed: the earlier deadline, then the earlier
insertion, is the greater event. -/
def cmp (self other : Event T) : Ordering :=
  (compare other.deadline self.deadline).then (compare other.seq self.seq)

theorem compare_eq (a b : UInt64) :
    compare a b = if a < b then .lt else if a = b then .eq else .gt := rfl

theorem cmp_ne_gt_iff (a b : Event T) : b.cmp a ≠ .gt ↔ a.before b := by
  have hseq : compare a.seq b.seq ≠ .gt ↔ a.seq ≤ b.seq := by
    rw [compare_eq, UInt64.le_iff_lt_or_eq]
    split_ifs with hlt heq
    · simp [hlt]
    · simp [heq]
    · simp [hlt, heq]
  unfold cmp before
  rw [compare_eq a.deadline]
  by_cases hlt : a.deadline < b.deadline
  · simp [hlt, Ordering.then]
  · by_cases heq : a.deadline = b.deadline
    · simpa [heq, Ordering.then] using hseq
    · simp [hlt, heq, Ordering.then]

theorem cmp_total (a b : Event T) : a.cmp b ≠ .gt ∨ b.cmp a ≠ .gt := by
  rw [cmp_ne_gt_iff, cmp_ne_gt_iff]
  exact before_total b a

theorem cmp_trans (a b c : Event T) (hab : a.cmp b ≠ .gt) (hbc : b.cmp c ≠ .gt) :
    a.cmp c ≠ .gt := by
  rw [cmp_ne_gt_iff] at *
  exact before_trans hbc hab

end Event

/-- `EventQueue` of the source: the heap and the next sequence number. -/
structure HeapQueue (H : MaxHeap (Event T) Event.cmp) where
  heap : H.Heap
  nextSeq : UInt64

/-- The operations on the queue. -/
inductive QueueOp (T : Type) where
  | push (deadline : UInt64) (payload : T)
  | clear
  | popDue (now : UInt64)
deriving DecidableEq, Repr

namespace HeapQueue

variable {H : MaxHeap (Event T) Event.cmp}

def new : HeapQueue H := ⟨H.new, 0⟩

def push (q : HeapQueue H) (deadline : UInt64) (payload : T) : HeapQueue H :=
  ⟨H.push q.heap ⟨deadline, payload, q.nextSeq⟩, q.nextSeq + 1⟩

def clear (q : HeapQueue H) : HeapQueue H := ⟨H.clear q.heap, q.nextSeq⟩

def popDue (q : HeapQueue H) (now : UInt64) : Option (Event T × HeapQueue H) :=
  match H.peek q.heap with
  | some e =>
    if e.deadline ≤ now then (H.pop q.heap).map fun (e, heap) => (e, ⟨heap, q.nextSeq⟩)
    else none
  | none => none

def step (q : HeapQueue H) : QueueOp T → Option (Event T) × HeapQueue H
  | .push deadline payload => (none, q.push deadline payload)
  | .clear => (none, q.clear)
  | .popDue now =>
    match q.popDue now with
    | some (e, q) => (some e, q)
    | none => (none, q)

def run (q : HeapQueue H) : List (QueueOp T) → List (Option (Event T)) × HeapQueue H
  | [] => ([], q)
  | op :: ops => ((q.step op).1 :: ((q.step op).2.run ops).1, ((q.step op).2.run ops).2)

end HeapQueue

/-! ## What the queue is for -/

/-- The pending events in the order of insertion, and how many were ever pushed. -/
structure Pending (T : Type) where
  events : List (Event T)
  pushed : Nat

/-- One operation on the pending events. A pop answers the due event that is first
by deadline and, among those of one deadline, by insertion, and takes out just that
one; it answers nothing only when nothing is due. -/
inductive Pending.Step : Pending T → QueueOp T → Option (Event T) → Pending T → Prop where
  | push (s : Pending T) (deadline : UInt64) (payload : T) :
      Step s (.push deadline payload) none
        ⟨s.events ++ [⟨deadline, payload, .ofNat s.pushed⟩], s.pushed + 1⟩
  | clear (s : Pending T) : Step s .clear none ⟨[], s.pushed⟩
  | early (s : Pending T) {now : UInt64} (h : ∀ e ∈ s.events, now < e.deadline) :
      Step s (.popDue now) none s
  | pop {front back : List (Event T)} {e : Event T} {n : Nat} {now : UInt64}
      (hdue : e.deadline ≤ now) (hfront : ∀ e' ∈ front, e.deadline < e'.deadline)
      (hback : ∀ e' ∈ back, e.deadline ≤ e'.deadline) :
      Step ⟨front ++ e :: back, n⟩ (.popDue now) (some e) ⟨front ++ back, n⟩

inductive Pending.Run :
    Pending T → List (QueueOp T) → List (Option (Event T)) → Pending T → Prop where
  | nil (s : Pending T) : Run s [] [] s
  | cons {s s' s'' : Pending T} {op : QueueOp T} {ops : List (QueueOp T)}
      {answer : Option (Event T)} {answers : List (Option (Event T))}
      (hstep : Step s op answer s') (hrun : Run s' ops answers s'') :
      Run s (op :: ops) (answer :: answers) s''

/-- The events a sequence of operations pushes, numbered from `n`. -/
def pushedFrom (n : Nat) : List (QueueOp T) → List (Event T)
  | [] => []
  | .push deadline payload :: ops => ⟨deadline, payload, .ofNat n⟩ :: pushedFrom (n + 1) ops
  | .clear :: ops => pushedFrom n ops
  | .popDue _ :: ops => pushedFrom n ops

/-- No event is lost or duplicated: what was pending or pushed has been popped,
was cleared, or is pending still. -/
theorem Pending.Run.conserves {s s' : Pending T} {ops : List (QueueOp T)}
    {answers : List (Option (Event T))} (h : Run s ops answers s') :
    ∃ cleared, (s.events ++ pushedFrom s.pushed ops).Perm
        (answers.filterMap (fun a => a) ++ cleared ++ s'.events) ∧
      (.clear ∉ ops → cleared = []) := by
  induction h with
  | nil s => exact ⟨[], by simp [pushedFrom], fun _ => rfl⟩
  | @cons s _ _ _ _ _ _ hstep hrun ih =>
    rcases ih with ⟨cleared, hperm, hnone⟩
    cases hstep with
    | push _ deadline payload =>
      refine ⟨cleared, ?_, fun h => hnone fun hm => h (List.mem_cons_of_mem _ hm)⟩
      simpa [pushedFrom] using hperm
    | clear _ =>
      -- The cleared events of this step come before those of the later ones.
      refine ⟨s.events ++ cleared, ?_, fun h => absurd List.mem_cons_self h⟩
      simp only [List.nil_append] at hperm
      simp only [pushedFrom, List.filterMap_cons_none]
      refine (hperm.append_left _).trans ?_
      simp only [← List.append_assoc]
      exact (List.perm_append_comm.append_right _).append_right _
    | early _ hearly =>
      refine ⟨cleared, ?_, fun h => hnone fun hm => h (List.mem_cons_of_mem _ hm)⟩
      simpa [pushedFrom] using hperm
    | pop hdue hfront hback =>
      refine ⟨cleared, ?_, fun h => hnone fun hm => h (List.mem_cons_of_mem _ hm)⟩
      simp only [pushedFrom, List.append_assoc, List.cons_append] at hperm ⊢
      exact List.perm_middle.trans (hperm.cons _)

/-! ## The heap queue is the pending events -/

namespace HeapQueue

variable {H : MaxHeap (Event T) Event.cmp} {q q' : HeapQueue H} {s : Pending T} {now : UInt64}

/-- The heap holds the pending events, numbered in the order of insertion. -/
structure Stores (q : HeapQueue H) (s : Pending T) : Prop where
  elems : H.elems q.heap = ↑s.events
  nextSeq : q.nextSeq.toNat = s.pushed
  numbered : ∀ e ∈ s.events, e.seq < q.nextSeq
  ascending : s.events.Pairwise fun a b => a.seq < b.seq

theorem stores_new : (new : HeapQueue H).Stores ⟨[], 0⟩ where
  elems := H.elems_new
  nextSeq := rfl
  numbered := by simp
  ascending := List.Pairwise.nil

theorem peek_first {events : List (Event T)} (h : H.elems q.heap = ↑events) {e : Event T}
    (he : H.peek q.heap = some e) : e ∈ events ∧ ∀ e' ∈ events, e.before e' := by
  refine ⟨Multiset.mem_coe.mp (h ▸ H.peek_mem _ _ he), fun e' he' => ?_⟩
  refine (Event.cmp_ne_gt_iff e e').mp (H.peek_greatest _ _ he e' ?_)
  rw [h]
  exact Multiset.mem_coe.mpr he'

theorem popDue_early {events : List (Event T)} (h : H.elems q.heap = ↑events)
    (hpop : q.popDue now = none) : ∀ e ∈ events, now < e.deadline := by
  -- nothing comes out only when nothing is due: the first event is the earliest
  intro e he
  unfold popDue at hpop
  rcases hpeek : H.peek q.heap with _ | first
  · have hnil := H.peek_none _ hpeek
    rw [h] at hnil
    simp [(Multiset.coe_eq_zero _).mp hnil] at he
  · have hlate : ¬ first.deadline ≤ now := by
      intro hdue
      simp only [hpeek] at hpop
      rw [if_pos hdue] at hpop
      rw [H.pop_none _ (Option.map_eq_none_iff.mp hpop)] at hpeek
      cases hpeek
    rcases (peek_first h hpeek).2 e he with hlt | ⟨heq, -⟩
    · exact UInt64.lt_trans (UInt64.not_le.mp hlate) hlt
    · rw [← heq]
      exact UInt64.not_le.mp hlate

theorem popDue_first {events : List (Event T)} (h : H.elems q.heap = ↑events) {e : Event T}
    (hpop : q.popDue now = some (e, q')) :
    e ∈ events ∧ e.deadline ≤ now ∧ (∀ e' ∈ events, e.before e') ∧
      H.elems q.heap = e ::ₘ H.elems q'.heap ∧ q'.nextSeq = q.nextSeq := by
  unfold popDue at hpop
  rcases hpeek : H.peek q.heap with _ | first
  · simp [hpeek] at hpop
  · simp only [hpeek] at hpop
    split_ifs at hpop with hdue
    rcases Option.map_eq_some_iff.mp hpop with ⟨⟨e', heap⟩, hout, heq⟩
    obtain ⟨rfl, rfl⟩ := Prod.mk.inj heq
    obtain rfl : first = e' := Option.some.inj (hpeek.symm.trans (H.pop_peek _ _ _ hout))
    obtain ⟨he, hfirst⟩ := peek_first h hpeek
    exact ⟨he, hdue, hfirst, H.elems_pop _ _ _ hout, rfl⟩

namespace Stores

theorem clear (h : q.Stores s) : q.clear.Stores ⟨[], s.pushed⟩ where
  elems := H.elems_clear q.heap
  nextSeq := h.nextSeq
  numbered := by simp
  ascending := List.Pairwise.nil

theorem push (h : q.Stores s) (hroom : s.pushed + 1 < 2 ^ 64) (deadline : UInt64) (payload : T) :
    (q.push deadline payload).Stores
      ⟨s.events ++ [⟨deadline, payload, .ofNat s.pushed⟩], s.pushed + 1⟩ := by
  have hseq : UInt64.ofNat s.pushed = q.nextSeq := by rw [← h.nextSeq, UInt64.ofNat_toNat]
  have hnext : (q.nextSeq + 1).toNat = s.pushed + 1 := by
    rw [UInt64.toNat_add, h.nextSeq]
    exact Nat.mod_eq_of_lt hroom
  have hlt : q.nextSeq < q.nextSeq + 1 := by
    rw [UInt64.lt_iff_toNat_lt, hnext, h.nextSeq]
    exact Nat.lt_succ_self _
  refine ⟨?_, hnext, ?_, ?_⟩
  · rw [HeapQueue.push, H.elems_push, h.elems, hseq]
    exact Multiset.coe_eq_coe.mpr (List.perm_append_singleton _ _).symm
  · intro e he
    rcases List.mem_append.mp he with he | he
    · exact UInt64.lt_trans (h.numbered e he) hlt
    · rw [List.mem_singleton.mp he, hseq]
      exact hlt
  · refine List.pairwise_append.mpr ⟨h.ascending, List.pairwise_singleton _ _, ?_⟩
    intro a ha b hb
    rw [List.mem_singleton.mp hb, hseq]
    exact h.numbered a ha

theorem pop (h : q.Stores s) {e : Event T} (hpop : q.popDue now = some (e, q')) :
    ∃ s', Pending.Step s (.popDue now) (some e) s' ∧ q'.Stores s' ∧ s'.pushed = s.pushed := by
  -- the first event by deadline and number is the first by deadline and insertion
  obtain ⟨he, hdue, hfirst, helems, hnext⟩ := popDue_first h.elems hpop
  rcases s with ⟨events, n⟩
  obtain ⟨front, back, rfl⟩ := List.append_of_mem he
  have hasc := List.pairwise_append.mp h.ascending
  refine ⟨⟨front ++ back, n⟩, .pop hdue ?_ ?_, ⟨?_, hnext ▸ h.nextSeq, ?_, ?_⟩, rfl⟩
  · intro e' he'
    rcases hfirst e' (List.mem_append_left _ he') with hlt | ⟨-, hle⟩
    · exact hlt
    · -- an event in front was pushed before
      exact absurd (hasc.2.2 e' he' e List.mem_cons_self) (UInt64.not_lt.mpr hle)
  · intro e' he'
    rcases hfirst e' (List.mem_append_right _ (List.mem_cons_of_mem _ he')) with hlt | ⟨heq, -⟩
    · exact UInt64.le_of_lt hlt
    · exact UInt64.le_of_eq heq
  · have hmid : H.elems q.heap = e ::ₘ ↑(front ++ back) :=
      h.elems.trans (Multiset.coe_eq_coe.mpr List.perm_middle)
    exact (Multiset.cons_inj_right e).mp (helems.symm.trans hmid)
  · intro e' he'
    rw [hnext]
    refine h.numbered e' ?_
    rcases List.mem_append.mp he' with hin | hin
    · exact List.mem_append_left _ hin
    · exact List.mem_append_right _ (List.mem_cons_of_mem _ hin)
  · refine List.pairwise_append.mpr ⟨hasc.1, (List.pairwise_cons.mp hasc.2.1).2, ?_⟩
    exact fun a ha b hb => hasc.2.2 a ha b (List.mem_cons_of_mem _ hb)

end Stores

theorem step_refines (h : q.Stores s) (op : QueueOp T)
    (hroom : s.pushed + (pushedFrom s.pushed [op]).length < 2 ^ 64) :
    ∃ s', Pending.Step s op (q.step op).1 s' ∧ (q.step op).2.Stores s' ∧
      s'.pushed = s.pushed + (pushedFrom s.pushed [op]).length := by
  cases op with
  | push deadline payload => exact ⟨_, .push s deadline payload, h.push hroom _ _, rfl⟩
  | clear => exact ⟨_, .clear s, h.clear, rfl⟩
  | popDue now =>
    rcases hpop : q.popDue now with _ | ⟨e, q'⟩
    · simp only [step, hpop]
      exact ⟨s, .early s (popDue_early h.elems hpop), h, rfl⟩
    · simp only [step, hpop]
      exact h.pop hpop

theorem pushedFrom_cons (n : Nat) (op : QueueOp T) (ops : List (QueueOp T)) :
    (pushedFrom n (op :: ops)).length =
      (pushedFrom n [op]).length +
        (pushedFrom (n + (pushedFrom n [op]).length) ops).length := by
  cases op with
  | push deadline payload => simp [pushedFrom, Nat.add_comm]
  | clear | popDue now => simp [pushedFrom]

/-- A run of the heap queue is a run of the pending events. -/
theorem run_refines (h : q.Stores s) (ops : List (QueueOp T))
    (hroom : s.pushed + (pushedFrom s.pushed ops).length < 2 ^ 64) :
    ∃ s', Pending.Run s ops (q.run ops).1 s' ∧ (q.run ops).2.Stores s' ∧
      s'.pushed = s.pushed + (pushedFrom s.pushed ops).length := by
  induction ops generalizing q s with
  | nil => exact ⟨s, .nil s, h, rfl⟩
  | cons op ops ih =>
    rw [pushedFrom_cons] at hroom ⊢
    obtain ⟨s₁, hstep, hstores, hn⟩ := step_refines h op (by omega)
    rw [← hn] at hroom ⊢
    obtain ⟨s', hrun, hend, hcount⟩ := ih hstores (by omega)
    exact ⟨s', .cons hstep hrun, hend, by omega⟩

end HeapQueue

/-- The discipline of the queue over a sequence of operations: the answers are those
of the pending events, which stay in the heap, no event is lost or duplicated, and
the counter has counted the pushes. -/
def Disciplined (H : MaxHeap (Event T) Event.cmp) (ops : List (QueueOp T)) : Prop :=
  let (answers, q) := (HeapQueue.new : HeapQueue H).run ops
  ∃ (s : Pending T) (cleared : List (Event T)),
    Pending.Run ⟨[], 0⟩ ops answers s ∧
    H.elems q.heap = ↑s.events ∧
    (pushedFrom 0 ops).Perm (answers.filterMap (fun a => a) ++ cleared ++ s.events) ∧
    (.clear ∉ ops → cleared = []) ∧
    q.nextSeq.toNat = (pushedFrom 0 ops).length

theorem disciplined_iff_numbered (H : MaxHeap (Event T) Event.cmp)
    (ops : List (QueueOp T)) : Disciplined H ops ↔ (pushedFrom 0 ops).length < 2 ^ 64 := by
  constructor
  · rintro ⟨s, cleared, -, -, -, -, hcount⟩
    rw [← hcount]
    exact UInt64.toNat_lt _
  · intro hroom
    obtain ⟨s, hrun, hstores, hcount⟩ :=
      HeapQueue.run_refines (HeapQueue.stores_new (H := H)) ops (by simpa using hroom)
    obtain ⟨cleared, hperm, hnone⟩ := hrun.conserves
    refine ⟨s, cleared, hrun, hstores.elems, hperm, hnone, hstores.nextSeq.trans ?_⟩
    rw [hcount, Nat.zero_add]

/-! ## The timer service over the heap queue -/

/-- How a timer service fails to return: the assert on the queue fails, or the re-arm
loop never ends. -/
inductive ServiceFault where
  | queueDiscipline
  | stuck
deriving DecidableEq, Repr

namespace HeapQueue

variable {H : MaxHeap (Event TimerKind) Event.cmp}

def pushDeadline (q : HeapQueue H) (deadline : Option UInt64) (kind : TimerKind) : HeapQueue H :=
  match deadline with
  | some dl => q.push dl kind
  | none => q

def drainDue (now : UInt64) : Nat → Bool → Lapic → HeapQueue H →
    Except ServiceFault (Bool × Lapic × HeapQueue H)
  | 0, fired, lapic, q => .ok (fired, lapic, q)
  | fuel + 1, fired, lapic, q =>
    match q.popDue now with
    | none => .ok (fired, lapic, q)
    | some (ev, q) =>
      if ¬ ev.deadline ≤ now then .error .queueDiscipline
      else
        match ev.payload with
        | .lapicDeadline =>
          match lapic.fireTimerIfDue now with
          | some (_, lapic) => drainDue now fuel fired lapic q
          | none => .error .stuck
        | .stopRun => drainDue now fuel true lapic q

def serviceTimers (lapic : Lapic) (q : HeapQueue H) (horizon : Option UInt64) (now : UInt64) :
    Except ServiceFault (Bool × Lapic × HeapQueue H) :=
  let q := q.clear.pushDeadline lapic.timerDeadline .lapicDeadline
  let q := q.pushDeadline horizon .stopRun
  drainDue now (H.elems q.heap).card false lapic q

variable {q : HeapQueue H} {events : EventQueue TimerKind} {now : UInt64}

/-- The heap queue and the list queue hold the same events, no two with one number. -/
structure Mirrors (q : HeapQueue H) (events : EventQueue TimerKind) : Prop where
  elems : H.elems q.heap = ↑events.heap
  nextSeq : q.nextSeq = events.nextSeq
  distinct : (events.heap.map Event.seq).Nodup

theorem Mirrors.pushDeadline (h : q.Mirrors events) (deadline : Option UInt64) (kind : TimerKind)
    (hfresh : events.nextSeq ∉ events.heap.map Event.seq) :
    (q.pushDeadline deadline kind).Mirrors (Vmm.pushDeadline events deadline kind) := by
  cases deadline with
  | none => exact h
  | some dl =>
    have hperm := List.perm_orderedInsert Event.before ⟨dl, kind, events.nextSeq⟩ events.heap
    refine ⟨?_, congrArg (· + 1) h.nextSeq, ?_⟩
    · show H.elems (H.push _ _) = _
      rw [H.elems_push, h.elems, h.nextSeq]
      exact Multiset.coe_eq_coe.mpr hperm.symm
    · exact (hperm.map Event.seq).nodup_iff.mpr (List.nodup_cons.mpr ⟨hfresh, h.distinct⟩)

theorem mirrors_pushed (q : HeapQueue H) (d h : Option UInt64) :
    ((q.clear.pushDeadline d .lapicDeadline).pushDeadline h .stopRun).Mirrors
      (Vmm.pushDeadline (Vmm.pushDeadline ⟨[], q.nextSeq, List.Pairwise.nil⟩ d .lapicDeadline) h
        .stopRun) := by
  -- the queues that a service drains hold the same events: it clears them and pushes at most two
  have hclear : q.clear.Mirrors ⟨[], q.nextSeq, List.Pairwise.nil⟩ :=
    ⟨H.elems_clear q.heap, rfl, List.nodup_nil⟩
  refine (hclear.pushDeadline d .lapicDeadline List.not_mem_nil).pushDeadline h .stopRun ?_
  cases d with
  | none => exact List.not_mem_nil
  | some d =>
    -- one number after the other, also where the counter starts over
    have hne : q.nextSeq + 1 ≠ q.nextSeq := by
      intro heq
      simp at heq
    exact fun hin => hne (List.mem_singleton.mp hin)

theorem Mirrors.popDue (h : q.Mirrors events) (now : UInt64) :
    (q.popDue now = none ∧ events.popDue now = none) ∨
      ∃ e q', q.popDue now = some (e, q') ∧ events.popDue now = some (e, events.pop) ∧
        e.deadline ≤ now ∧ q'.Mirrors events.pop := by
  -- a due-pop takes the same event from both
  rcases hpop : q.popDue now with _ | ⟨e, q'⟩
  · refine .inl ⟨rfl, ?_⟩
    have hearly := popDue_early h.elems hpop
    unfold EventQueue.popDue
    rcases hheap : events.heap with _ | ⟨e, es⟩
    · rfl
    · exact if_neg (UInt64.not_le.mpr (hearly e (hheap ▸ List.mem_cons_self)))
  · obtain ⟨he, hdue, hfirst, helems, hnext⟩ := popDue_first h.elems hpop
    refine .inr ⟨e, q', rfl, ?_⟩
    have hsorted := events.sorted
    have hdistinct := h.distinct
    have hall := h.elems
    rcases hheap : events.heap with _ | ⟨first, es⟩
    · simp [hheap] at he
    rw [hheap] at he hfirst hsorted hdistinct hall
    -- The first event of the list is before `e` and after it, so it is `e`.
    obtain rfl : e = first := by
      rcases List.mem_cons.mp he with heq | hin
      · exact heq
      · exfalso
        have hle := hfirst first List.mem_cons_self
        have hge := (List.pairwise_cons.mp hsorted).1 e hin
        have hne : first.seq ≠ e.seq := by
          intro heq
          rw [List.map_cons, heq] at hdistinct
          exact (List.nodup_cons.mp hdistinct).1 (List.mem_map_of_mem hin)
        unfold Event.before at hle hge
        simp only [UInt64.lt_iff_toNat_lt, UInt64.le_iff_toNat_le, ← UInt64.toNat_inj, ne_eq]
          at hle hge hne
        omega
    have hpops : events.popDue now = some (e, events.pop) := by
      unfold EventQueue.popDue
      rw [hheap]
      exact if_pos hdue
    have htail : events.pop.heap = es := by simp [EventQueue.pop, hheap]
    refine ⟨hpops, hdue, ?_, hnext.trans h.nextSeq, ?_⟩
    · rw [htail]
      exact (Multiset.cons_inj_right e).mp (helems.symm.trans hall)
    · rw [htail]
      exact (List.nodup_cons.mp hdistinct).2

/-- What a drain of the heap queue comes to, beside the drain of the list. -/
inductive Drains : Except ServiceFault (Bool × Lapic × HeapQueue H) →
    Except Abort (Bool × Lapic × EventQueue TimerKind) → Prop where
  | ok {fired : Bool} {lapic : Lapic} {q : HeapQueue H} {events : EventQueue TimerKind}
      (h : q.Mirrors events) : Drains (.ok (fired, lapic, q)) (.ok (fired, lapic, events))
  | stuck : Drains (.error .stuck) (.error .stuck)

theorem Mirrors.drainDue (h : q.Mirrors events) (fuel : Nat) (fired : Bool) (lapic : Lapic) :
    Drains (drainDue now fuel fired lapic q) (Vmm.drainDue now fuel fired lapic events) := by
  induction fuel generalizing q events fired lapic with
  | zero => exact .ok h
  | succ fuel ih =>
    unfold HeapQueue.drainDue Vmm.drainDue
    rcases h.popDue now with ⟨hq, he⟩ | ⟨e, q', hq, he, hdue, hnext⟩
    · simp only [hq, he]
      exact .ok h
    · simp only [hq, he, if_neg (not_not.mpr hdue)]
      rcases e.payload with _ | _
      · rcases lapic.fireTimerIfDue now with _ | ⟨b, lapic'⟩
        · exact .stuck
        · exact ih hnext fired lapic'
      · exact ih hnext true lapic

theorem serviceTimers_drains (lapic : Lapic) (q : HeapQueue H) (horizon : Option UInt64)
    (now : UInt64) :
    ∃ events, Drains (serviceTimers lapic q horizon now)
      (Vmm.serviceTimers lapic events horizon now) := by
  have hm := mirrors_pushed q lapic.timerDeadline horizon
  refine ⟨⟨[], q.nextSeq, List.Pairwise.nil⟩, ?_⟩
  unfold serviceTimers Vmm.serviceTimers
  dsimp only
  rw [hm.elems, Multiset.coe_card]
  exact hm.drainDue _ _ _

end HeapQueue

/-- The timer is armed for a time up to `now`. -/
def Lapic.Due (l : Lapic) (now : UInt64) : Prop := ∃ d, l.timerDeadline = some d ∧ d ≤ now

/-- The re-arm loop of a periodic timer meets no sum after `now`. -/
def Lapic.Endless (l : Lapic) (now : UInt64) : Prop :=
  0 < l.timerPeriod ∧
    ∃ d, l.timerDeadline = some d ∧ ∀ k : Nat, d + UInt64.ofNat k * l.timerPeriod ≤ now

theorem Lapic.fireTimerIfDue_eq_none_iff (l : Lapic) (now : UInt64) :
    l.fireTimerIfDue now = none ↔ l.Endless now := by
  rcases hd : l.timerDeadline with _ | d
  · simp [fire_disarmed hd, Endless, hd]
  · by_cases hdue : d ≤ now
    · by_cases hpos : 0 < l.timerPeriod
      · rw [fire_periodic hd hpos hdue, Option.map_eq_none_iff, rearm, advancePast_eq_none_iff]
        simp [Endless, hd, hpos]
      · have hperiod : l.timerPeriod = 0 := by simpa using hpos
        simp [fire_oneShot hd hperiod hdue, Endless, hpos]
    · rw [fire_early hd (UInt64.not_le.mp hdue)]
      refine iff_of_false (by simp) ?_
      rintro ⟨-, d', hd', hall⟩
      obtain rfl : d = d' := Option.some.inj (hd.symm.trans hd')
      exact hdue (by simpa using hall 0)

/-- The timer fires exactly when it is due, and is then armed ahead if at all. -/
def FiresWhenDue (l : Lapic) (now : UInt64) (l' : Lapic) : Prop :=
  (¬ l.Due now → l' = l) ∧
    (l.Due now → ∃ next, l' = l.fired next ∧ ∀ d, next = some d → now < d)

theorem firesWhenDue {l l' : Lapic} {now : UInt64} {b : Bool}
    (h : l.fireTimerIfDue now = some (b, l')) : FiresWhenDue l now l' := by
  rcases hd : l.timerDeadline with _ | d
  · have hnot : ¬ l.Due now := by simp [Lapic.Due, hd]
    rw [Lapic.fire_disarmed hd] at h
    exact ⟨fun _ => (Prod.mk.inj (Option.some.inj h)).2.symm, fun hdue => absurd hdue hnot⟩
  · by_cases hdue : d ≤ now
    · refine ⟨fun hnot => absurd ⟨d, hd, hdue⟩ hnot, fun _ => ?_⟩
      by_cases hpos : 0 < l.timerPeriod
      · rw [Lapic.fire_periodic hd hpos hdue] at h
        rcases Option.map_eq_some_iff.mp h with ⟨next, hnext, heq⟩
        refine ⟨some next, (Prod.mk.inj heq).2.symm, ?_⟩
        rintro _ ⟨rfl⟩
        exact Lapic.lt_of_advancePast hnext
      · have hperiod : l.timerPeriod = 0 := by simpa using hpos
        rw [Lapic.fire_oneShot hd hperiod hdue] at h
        exact ⟨none, (Prod.mk.inj (Option.some.inj h)).2.symm, by simp⟩
    · have hnot : ¬ l.Due now := by
        rintro ⟨d', hd', hle⟩
        exact hdue (Option.some.inj (hd.symm.trans hd') ▸ hle)
      rw [Lapic.fire_early hd (UInt64.not_le.mp hdue)] at h
      exact ⟨fun _ => (Prod.mk.inj (Option.some.inj h)).2.symm, fun hdue => absurd hdue hnot⟩

theorem EventQueue.ahead_of_peek {events : EventQueue T} {now : UInt64}
    (h : ∀ d, events.peekDeadline = some d → now < d) : ∀ e ∈ events.heap, now < e.deadline := by
  intro e he
  rcases hheap : events.heap with _ | ⟨first, rest⟩
  · simp [hheap] at he
  · have hfirst : now < first.deadline := h _ (by simp [peekDeadline, hheap])
    have hsorted := events.sorted
    rw [hheap] at hsorted he
    rcases List.mem_cons.mp he with rfl | he
    · exact hfirst
    · rcases (List.pairwise_cons.mp hsorted).1 e he with hlt | ⟨heq, -⟩
      · exact UInt64.lt_trans hfirst hlt
      · exact heq ▸ hfirst

theorem lt_of_minDeadline_ahead {now d : UInt64} {a b : Option UInt64}
    (h : minDeadline (ahead now a) (ahead now b) = some d) : now < d := by
  have hlt : ∀ {o : Option UInt64} {x}, ahead now o = some x → now < x := by
    intro o x hx
    exact of_decide_eq_true (Option.filter_eq_some_iff.mp hx).2
  rcases ha : ahead now a with _ | x
  · rw [ha, minDeadline_none_left] at h
    exact hlt h
  · rcases hb : ahead now b with _ | y
    · rw [ha, hb, minDeadline_none_right] at h
      exact Option.some.inj h ▸ hlt ha
    · rw [ha, hb] at h
      simp only [minDeadline, Option.some.injEq] at h
      split_ifs at h
      · exact h ▸ hlt ha
      · exact h ▸ hlt hb

/-- One timer service: the timer fires exactly when it is due, the horizon is
reported exactly when it is due, and nothing due stays in the queue. -/
def Serviced {H : MaxHeap (Event TimerKind) Event.cmp} (lapic : Lapic) (q : HeapQueue H)
    (horizon : Option UInt64) (now : UInt64) : Prop :=
  ∃ fired lapic' q', HeapQueue.serviceTimers lapic q horizon now = .ok (fired, lapic', q') ∧
    FiresWhenDue lapic now lapic' ∧
    (fired = true ↔ ∃ h, horizon = some h ∧ h ≤ now) ∧
    ∀ e ∈ H.elems q'.heap, now < e.deadline

theorem serviced_iff {H : MaxHeap (Event TimerKind) Event.cmp} (lapic : Lapic)
    (q : HeapQueue H) (horizon : Option UInt64) (now : UInt64) :
    Serviced lapic q horizon now ↔ ¬ lapic.Endless now := by
  rcases HeapQueue.serviceTimers_drains lapic q horizon now with ⟨events, hdrains⟩
  rcases hfire : lapic.fireTimerIfDue now with _ | ⟨b, lapic'⟩
  · have hendless := (lapic.fireTimerIfDue_eq_none_iff now).mp hfire
    refine iff_of_false ?_ fun h => h hendless
    rw [serviceTimers_stuck events horizon hfire] at hdrains
    rintro ⟨fired, lapic', q', hok, -⟩
    rw [hok] at hdrains
    cases hdrains
  · have hends : ¬ lapic.Endless now := by
      rw [← lapic.fireTimerIfDue_eq_none_iff, hfire]
      simp
    refine iff_of_true ?_ hends
    rcases serviceTimers_spec events horizon hfire with ⟨rest, hserve, hpeek⟩
    rw [hserve] at hdrains
    generalize hres : HeapQueue.serviceTimers lapic q horizon now = res at hdrains
    cases hdrains with
    | @ok _ _ q' _ hm =>
      refine ⟨_, lapic', q', hres, firesWhenDue hfire, ?_, ?_⟩
      · cases horizon <;> simp
      · intro e he
        rw [hm.elems] at he
        exact EventQueue.ahead_of_peek
          (fun d hd => lt_of_minDeadline_ahead (hpeek.symm.trans hd)) e (Multiset.mem_coe.mp he)

def listHeap (T : Type) : MaxHeap (Event T) Event.cmp :=
  sortedHeap Event.cmp_total Event.cmp_trans

end Tdvmm.Vmm
