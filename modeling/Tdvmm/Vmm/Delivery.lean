import Mathlib.Data.List.FinRange
import Mathlib.Data.List.Pairwise
import Tdvmm.Lib.Trace
import Tdvmm.Vmm.Ioapic

/-!
# Vmm.Delivery — which interrupt is delivered, and which one an EOI retires

The LAPIC's two bitmaps as sets of vectors, and the runs of its operations: raises, register
writes (task priority, spurious vector, self-IPIs, EOIs and the rest), timer fires, and
injections, which are made of the deliverable vector only.

1. `deliverableVector_eq_some`: the vector to inject, in terms of the two sets.
2. `Nested`: the vectors in service form a stack of strictly growing class, the most recent
   injection on top. So an EOI, which takes the highest vector, takes the top.
-/

namespace Tdvmm.Vmm

/-! ## The bitmaps as sets -/

namespace VecBits

theorem get_of_word (v : VecBits) {vec : UInt8} {i : Fin 8} (h : wordOf vec = i) :
    v.get vec = v.words[i].toNat.testBit (vec.toNat % 32) := by
  subst h
  exact get_eq_testBit v vec

theorem eq_of_wordOf {vec w : UInt8} (hword : wordOf vec = wordOf w)
    (hbit : vec.toNat % 32 = w.toNat % 32) : vec = w := by
  have hdiv : vec.toNat / 32 = w.toNat / 32 := congrArg Fin.val hword
  apply UInt8.toNat_inj.mp
  omega

theorem bitOf_testBit {vec w : UInt8} (hword : wordOf vec = wordOf w) :
    (bitOf vec).toNat.testBit (w.toNat % 32) = decide (w = vec) := by
  rw [bitOf_toNat, Nat.testBit_two_pow, decide_eq_decide]
  constructor
  · exact fun hbit => (eq_of_wordOf hword hbit).symm
  · rintro rfl
    rfl

theorem get_empty (vec : UInt8) : empty.get vec = false := by
  simp [get_eq_testBit, empty]

theorem ne_of_wordOf_ne {vec w : UInt8} (hword : ¬ wordOf vec = wordOf w) :
    ¬ (wordOf vec).val = (wordOf w).val ∧ w ≠ vec :=
  ⟨fun h => hword (Fin.ext h), by rintro rfl; exact hword rfl⟩

theorem get_set (v : VecBits) (vec w : UInt8) :
    (v.set vec).get w = (v.get w || decide (w = vec)) := by
  rw [get_eq_testBit, get_eq_testBit, set]
  by_cases hword : wordOf vec = wordOf w
  · have hval : (wordOf vec).val = (wordOf w).val := congrArg Fin.val hword
    simp only [Fin.getElem_fin, Vector.getElem_set, hval, if_true, UInt32.toNat_or,
      Nat.testBit_or, bitOf_testBit hword]
  · simp [ne_of_wordOf_ne hword]

theorem get_clear (v : VecBits) (vec w : UInt8) :
    (v.clear vec).get w = (v.get w && !decide (w = vec)) := by
  rw [get_eq_testBit, get_eq_testBit, clear]
  by_cases hword : wordOf vec = wordOf w
  · have hval : (wordOf vec).val = (wordOf w).val := congrArg Fin.val hword
    have hlt : w.toNat % 32 < 32 := Nat.mod_lt _ (by decide)
    have hbit : (bitOf vec).toBitVec.getLsbD (w.toNat % 32) = decide (w = vec) := by
      show (bitOf vec).toNat.testBit (w.toNat % 32) = decide (w = vec)
      rw [bitOf_testBit hword]
    simp only [Fin.getElem_fin, Vector.getElem_set, hval, if_true]
    show ((v.words[(wordOf w).val] &&& ~~~(bitOf vec)).toBitVec).getLsbD (w.toNat % 32) = _
    rw [UInt32.toBitVec_and, UInt32.toBitVec_not, BitVec.getLsbD_and, BitVec.getLsbD_not, hbit]
    simp [hlt]
    rfl
  · simp [ne_of_wordOf_ne hword]

theorem highest_spec (v : VecBits) :
    (v.highest = none ∧ ∀ w, v.get w = false) ∨
      ∃ vec, v.highest = some vec ∧ v.get vec = true ∧ ∀ w, v.get w = true → w ≤ vec := by
  unfold highest
  rcases hfind : (List.finRange 8).reverse.find? fun i => v.words[i] ≠ 0 with _ | i
  · refine .inl ⟨by rw [hfind]; rfl, fun w => ?_⟩
    have hzero := List.find?_eq_none.mp hfind (wordOf w) (by simp)
    have hword : v.words[wordOf w] = 0 := by simpa using hzero
    rw [get_eq_testBit, hword]
    simp
  · refine .inr ⟨_, by rw [hfind]; rfl, ?_⟩
    obtain ⟨hne, before, after, hsplit, hbefore⟩ := List.find?_eq_some_iff_append.mp hfind
    -- the words after `i` are searched first, and they are empty
    have hlater : ∀ j : Fin 8, i < j → v.words[j] = 0 := by
      intro j hij
      have hsorted : (List.finRange 8).reverse.Pairwise (· > ·) := by decide
      have hj : j ∈ before ++ i :: after := hsplit ▸ (by simp : j ∈ (List.finRange 8).reverse)
      rw [hsplit, List.pairwise_append, List.pairwise_cons] at hsorted
      rcases List.mem_append.mp hj with hj | hj
      · simpa using hbefore j hj
      · rcases List.mem_cons.mp hj with rfl | hj
        · exact absurd hij (lt_irrefl _)
        · exact absurd hij (not_lt_of_gt (hsorted.2.1.1 j hj))
    have hne : v.words[i].toNat ≠ 0 := by
      simpa [← UInt32.toNat_inj] using hne
    have hlog : Nat.log2 v.words[i].toNat < 32 :=
      (Nat.log2_lt hne).mpr (UInt32.toNat_lt _)
    have hval : (UInt8.ofNat (i.val * 32 + Nat.log2 v.words[i].toNat)).toNat =
        i.val * 32 + Nat.log2 v.words[i].toNat := by
      rw [UInt8.toNat_ofNat', Nat.mod_eq_of_lt]
      omega
    have hword : wordOf (UInt8.ofNat (i.val * 32 + Nat.log2 v.words[i].toNat)) = i := by
      apply Fin.ext
      simp only [wordOf, hval]
      omega
    constructor
    · have hbit : (i.val * 32 + Nat.log2 v.words[i].toNat) % 32 = Nat.log2 v.words[i].toNat := by
        omega
      rw [get_of_word v hword, hval, hbit]
      exact Nat.testBit_log2 hne
    · intro w hw
      rw [UInt8.le_iff_toNat_le, hval]
      rcases lt_trichotomy (wordOf w) i with hlt | heq | hgt
      · have hdiv : w.toNat / 32 < i.val := hlt
        omega
      · have hdiv : w.toNat / 32 = i.val := congrArg Fin.val heq
        have hle : w.toNat % 32 ≤ Nat.log2 v.words[i].toNat := by
          by_contra hbig
          rw [get_of_word v heq,
            Nat.testBit_eq_false_of_lt ((Nat.log2_lt hne).mp (Nat.not_le.mp hbig))] at hw
          contradiction
        omega
      · rw [get_eq_testBit, hlater (wordOf w) hgt] at hw
        simp at hw

theorem highest_eq_some {v : VecBits} {vec : UInt8} :
    v.highest = some vec ↔ v.get vec = true ∧ ∀ w, v.get w = true → w ≤ vec := by
  rcases highest_spec v with ⟨hnone, hempty⟩ | ⟨top, htop, hget, hmax⟩
  · simp [hnone, hempty]
  · rw [htop]
    constructor
    · rintro ⟨⟩
      exact ⟨hget, hmax⟩
    · rintro ⟨hvec, hbound⟩
      rw [UInt8.le_antisymm (hbound top hget) (hmax vec hvec)]

end VecBits

/-! ## The deliverable vector -/

/-- The priority class of a vector, as the bits of its priority register. -/
def vectorClass (vec : UInt8) : UInt32 := vec.toUInt32 &&& 0xf0

theorem vectorClass_toNat (vec : UInt8) : (vectorClass vec).toNat = vec.toNat / 16 * 16 := by
  have hall : ∀ n < 256, n &&& 0xf0 = n / 16 * 16 := by decide +kernel
  rw [vectorClass, UInt32.toNat_and, UInt8.toNat_toUInt32]
  exact hall vec.toNat vec.toNat_lt

theorem vectorClass_mono {vec w : UInt8} (h : w ≤ vec) : vectorClass w ≤ vectorClass vec := by
  rw [UInt32.le_iff_toNat_le, vectorClass_toNat, vectorClass_toNat]
  exact Nat.mul_le_mul_right 16 (Nat.div_le_div_right (UInt8.le_iff_toNat_le.mp h))

namespace Lapic

def pending (l : Lapic) (vec : UInt8) : Bool := l.irr.get vec

def inService (l : Lapic) (vec : UInt8) : Bool := l.isr.get vec

def taskClass (l : Lapic) : UInt32 := l.tpr &&& 0xf0

/-- The processor priority is beaten by a class that beats the task priority and
every vector in service. -/
theorem ppr_lt_iff (l : Lapic) (k : UInt32) :
    l.ppr &&& 0xf0 < k ↔ l.taskClass < k ∧ ∀ w, l.inService w = true → vectorClass w < k := by
  rcases VecBits.highest_spec l.isr with ⟨hnone, hempty⟩ | ⟨top, htop, hget, hmax⟩
  · have hppr : l.ppr = l.tpr := by simp [ppr, highestIsr, hnone]
    rw [hppr]
    constructor
    · intro hlt
      refine ⟨hlt, fun w hw => ?_⟩
      rw [inService, hempty w] at hw
      contradiction
    · exact fun h => h.1
  · have hclass : l.highestIsr &&& 0xf0 = vectorClass top := by
      simp [highestIsr, htop, vectorClass]
    have htopmost : ∀ w, l.inService w = true → vectorClass w ≤ vectorClass top :=
      fun w hw => vectorClass_mono (hmax w hw)
    unfold ppr
    rw [hclass]
    by_cases hle : vectorClass top ≤ l.tpr &&& 0xf0
    · rw [if_pos hle]
      constructor
      · intro hlt
        exact ⟨hlt, fun w hw => UInt32.lt_of_le_of_lt (UInt32.le_trans (htopmost w hw) hle) hlt⟩
      · exact fun h => h.1
    · have hidem : vectorClass top &&& 0xf0 = vectorClass top := by
        rw [vectorClass, UInt32.and_assoc, UInt32.and_self]
      rw [if_neg hle, hidem]
      constructor
      · intro hlt
        exact ⟨UInt32.lt_trans (UInt32.not_le.mp hle) hlt,
          fun w hw => UInt32.lt_of_le_of_lt (htopmost w hw) hlt⟩
      · exact fun h => h.2 top hget

/-- The vector to inject: the LAPIC is enabled, the vector is the highest one
pending, and its class beats the task priority and every vector in service. -/
theorem deliverableVector_eq_some (l : Lapic) (vec : UInt8) :
    l.deliverableVector = some vec ↔
      l.enabled = true ∧ l.pending vec = true ∧ (∀ w, l.pending w = true → w ≤ vec) ∧
        l.taskClass < vectorClass vec ∧
        ∀ w, l.inService w = true → vectorClass w < vectorClass vec := by
  unfold deliverableVector
  by_cases hen : l.enabled = true
  · rw [if_neg (not_not.mpr hen)]
    rcases VecBits.highest_spec l.irr with ⟨hnone, hempty⟩ | ⟨top, htop, hget, hmax⟩
    · have hirr : l.highestIrr = 0 := by simp [highestIrr, hnone]
      simp [hirr, pending, hempty]
    · have hirr : l.highestIrr = top.toUInt32 := by simp [highestIrr, htop]
      have hclass : l.highestIrr &&& 0xf0 = vectorClass top := by rw [hirr, vectorClass]
      -- vector 0 is in class 0, which beats nothing
      have hzero : l.highestIrr = 0 → ¬ l.ppr &&& 0xf0 < vectorClass top := by
        intro h hlt
        rw [← hclass, h] at hlt
        exact absurd hlt (by simp)
      have huniq : ∀ v, l.pending v = true → (∀ w, l.pending w = true → w ≤ v) → v = top :=
        fun v hv hvmax => UInt8.le_antisymm (hmax v hv) (hvmax top hget)
      rw [hclass]
      constructor
      · intro h
        split_ifs at h with h0 hlt
        have hvec : top = vec := by simpa [hirr] using h
        subst hvec
        exact ⟨hen, hget, hmax, (ppr_lt_iff l _).mp hlt⟩
      · rintro ⟨-, hpend, hhigh, hbeats⟩
        obtain rfl := huniq vec hpend hhigh
        have hlt := (ppr_lt_iff l _).mpr hbeats
        rw [if_neg fun h0 => hzero h0 hlt, if_pos hlt, hirr]
        simp
  · simp [hen]

end Lapic

/-! ## Runs of the LAPIC -/

/-- An operation on the LAPIC. Register writes cover the task priority, the spurious
vector, self-IPIs and EOIs. -/
inductive LapicOp where
  | raise (vec : UInt8)
  | write (off val : UInt32) (now : UInt64)
  | syncTpr (cr8 : UInt64)
  | fireTimer (now : UInt64)
  | inject
deriving DecidableEq, Repr

/-- A LAPIC and the vectors injected so far, the most recent first. -/
structure Served where
  lapic : Lapic
  injected : List UInt8

namespace Served

/-- One operation. Only the deliverable vector is injected; a timer whose re-arm loop
never ends leaves no state behind. -/
def step (s : Served) : LapicOp → Served
  | .raise vec => { s with lapic := s.lapic.raise vec }
  | .write off val now => { s with lapic := s.lapic.mmioWrite off val now }
  | .syncTpr cr8 => { s with lapic := s.lapic.syncTprFromCr8 cr8 }
  | .fireTimer now =>
    match s.lapic.fireTimerIfDue now with
    | some (_, lapic) => { s with lapic := lapic }
    | none => s
  | .inject =>
    match s.lapic.deliverableVector with
    | some vec => { lapic := s.lapic.ackInjected vec, injected := vec :: s.injected }
    | none => s

def run (s : Served) (ops : List LapicOp) : Served := ops.foldl step s

/-- The vector injected last among those still in service. -/
def lastInService (s : Served) : Option UInt8 := s.injected.find? s.lapic.inService

end Served

/-! ## What an operation can do -/

/-- Nothing has gone into or out of service, and nothing pending is lost. -/
structure Lapic.Keeps (l l' : Lapic) : Prop where
  isr : l'.isr = l.isr
  irr : ∀ vec, l.pending vec = true → l'.pending vec = true

theorem Lapic.raise_pending (l : Lapic) (vec w : UInt8) :
    (l.raise vec).pending w = (l.pending w || decide (w = vec)) :=
  VecBits.get_set l.irr vec w

theorem Lapic.raise_keeps (l : Lapic) (vec : UInt8) : l.Keeps (l.raise vec) := by
  refine ⟨rfl, fun w hw => ?_⟩
  rw [raise_pending, hw]
  rfl

theorem Lapic.mmioWrite_keeps (l : Lapic) {off : UInt32} (val : UInt32) (now : UInt64)
    (heoi : off ≠ REG_EOI) : l.Keeps (l.mmioWrite off val now) := by
  unfold mmioWrite writeIcr writeLvtTimer writeTimerIct
  rw [if_neg heoi]
  repeat' refine iteInduction (fun _ => ?_) fun _ => ?_
  -- an IPI raises its vector, the other registers are only stored
  all_goals first
    | exact ⟨rfl, fun _ hw => hw⟩
    | exact raise_keeps l _

theorem Lapic.fireTimerIfDue_keeps {l l' : Lapic} {now : UInt64} {fired : Bool}
    (h : l.fireTimerIfDue now = some (fired, l')) : l.Keeps l' := by
  have hraise : ∀ dl, l.Keeps ({ l with timerDeadline := dl }.raiseTimer) := by
    intro dl
    unfold raiseTimer
    split_ifs
    · exact ⟨rfl, fun _ hw => hw⟩
    · exact ⟨rfl, (raise_keeps l _).irr⟩
  unfold fireTimerIfDue at h
  split at h
  · split_ifs at h
    · obtain ⟨next, -, heq⟩ := Option.map_eq_some_iff.mp h
      obtain ⟨-, rfl⟩ := Prod.mk.inj heq
      exact hraise _
    · obtain ⟨-, rfl⟩ := Prod.mk.inj (Option.some.inj h)
      exact hraise _
    · obtain ⟨-, rfl⟩ := Prod.mk.inj (Option.some.inj h)
      exact ⟨rfl, fun _ hw => hw⟩
  · obtain ⟨-, rfl⟩ := Prod.mk.inj (Option.some.inj h)
    exact ⟨rfl, fun _ hw => hw⟩

/-- What one operation does: it keeps what is pending and in service, ends an
interrupt, or injects the deliverable vector. -/
inductive Serves (s : Served) : LapicOp → Served → Prop where
  | keeps {op : LapicOp} {lapic : Lapic} (h : s.lapic.Keeps lapic) :
      Serves s op { s with lapic := lapic }
  | ends {op : LapicOp} : Serves s op { s with lapic := s.lapic.eoi }
  | injects {vec : UInt8} (h : s.lapic.deliverableVector = some vec) :
      Serves s .inject { lapic := s.lapic.ackInjected vec, injected := vec :: s.injected }

theorem step_serves (s : Served) (op : LapicOp) : Serves s op (s.step op) := by
  cases op with
  | raise vec => exact .keeps (s.lapic.raise_keeps vec)
  | syncTpr cr8 => exact .keeps ⟨rfl, fun _ hw => hw⟩
  | write off val now =>
    by_cases heoi : off = REG_EOI
    · rw [heoi]
      exact .ends
    · exact .keeps (s.lapic.mmioWrite_keeps val now heoi)
  | fireTimer now =>
    rcases hfire : s.lapic.fireTimerIfDue now with _ | ⟨fired, lapic⟩
    · simp only [Served.step, hfire]
      exact .keeps ⟨rfl, fun _ hw => hw⟩
    · simp only [Served.step, hfire]
      exact .keeps (Lapic.fireTimerIfDue_keeps hfire)
  | inject =>
    rcases hvec : s.lapic.deliverableVector with _ | vec
    · simp only [Served.step, hvec]
      exact .keeps ⟨rfl, fun _ hw => hw⟩
    · simp only [Served.step, hvec]
      exact .injects hvec

/-! ## The stack of vectors in service -/

/-- The last injection of each vector of the stack came after those below it. -/
def Layered (injected : List UInt8) : List UInt8 → Prop
  | [] => True
  | vec :: rest =>
    (∃ later earlier, injected = later ++ vec :: earlier ∧ ∀ w ∈ vec :: rest, w ∉ later) ∧
      Layered injected rest

/-- The vectors in service, the last injected on top, in falling order of class. -/
structure Nested (s : Served) (stack : List UInt8) : Prop where
  members : ∀ vec, s.lapic.inService vec = true ↔ vec ∈ stack
  classes : stack.Pairwise fun above below => vectorClass below < vectorClass above
  order : Layered s.injected stack

theorem Layered.push {injected stack : List UInt8} {vec : UInt8} (h : Layered injected stack)
    (hnew : vec ∉ stack) : Layered (vec :: injected) stack := by
  induction stack with
  | nil => trivial
  | cons top rest ih =>
    obtain ⟨⟨later, earlier, hsplit, hlater⟩, hrest⟩ := h
    refine ⟨⟨vec :: later, earlier, by rw [hsplit]; rfl, ?_⟩,
      ih hrest fun hmem => hnew (List.mem_cons_of_mem _ hmem)⟩
    intro w hw hmem
    rcases List.mem_cons.mp hmem with rfl | hmem
    · exact hnew hw
    · exact hlater w hw hmem

section Nesting

variable {s s' : Served} {op : LapicOp} {stack : List UInt8}

theorem Nested.unique (h : Nested s stack) {v w : UInt8} (hv : s.lapic.inService v = true)
    (hw : s.lapic.inService w = true) (hclass : vectorClass v = vectorClass w) : v = w := by
  by_contra hne
  have : Std.Symm fun a b => vectorClass a ≠ vectorClass b := ⟨fun _ _ hab => hab.symm⟩
  have hdiffer : stack.Pairwise fun a b => vectorClass a ≠ vectorClass b :=
    h.classes.imp fun hlt heq => absurd (heq ▸ hlt) (UInt32.lt_irrefl _)
  exact hdiffer.forall ((h.members v).mp hv) ((h.members w).mp hw) hne hclass

theorem Nested.highest (h : Nested s stack) : s.lapic.isr.highest = stack.head? := by
  cases stack with
  | nil =>
    rcases VecBits.highest_spec s.lapic.isr with ⟨hnone, -⟩ | ⟨top, -, hget, -⟩
    · exact hnone
    · exact absurd ((h.members top).mp hget) (by simp)
  | cons top rest =>
    refine VecBits.highest_eq_some.mpr ⟨(h.members top).mpr List.mem_cons_self, ?_⟩
    intro w hw
    rcases List.mem_cons.mp ((h.members w).mp hw) with rfl | hmem
    · exact UInt8.le_refl _
    · have hlt := (List.pairwise_cons.mp h.classes).1 w hmem
      by_contra hgt
      have hle := vectorClass_mono (UInt8.le_of_lt (UInt8.not_le.mp hgt))
      exact absurd hlt (UInt32.not_lt.mpr hle)

theorem Nested.lastInService (h : Nested s stack) : s.lastInService = stack.head? := by
  unfold Served.lastInService
  cases stack with
  | nil =>
    rw [List.head?_nil, List.find?_eq_none]
    intro w _ hw
    exact absurd ((h.members w).mp hw) (by simp)
  | cons top rest =>
    obtain ⟨⟨later, earlier, hsplit, hlater⟩, -⟩ := h.order
    rw [List.head?_cons, List.find?_eq_some_iff_append]
    refine ⟨(h.members top).mpr List.mem_cons_self, later, earlier, hsplit, ?_⟩
    intro w hw
    by_contra hserv
    have hin : s.lapic.inService w = true := by simpa using hserv
    exact hlater w ((h.members w).mp hin) hw

theorem step_nested (hstep : Serves s op s') (h : Nested s stack) : ∃ stack', Nested s' stack' := by
  cases hstep with
  | keeps hkeep =>
    refine ⟨stack, fun vec => ?_, h.classes, h.order⟩
    rw [Lapic.inService, hkeep.isr]
    exact h.members vec
  | ends =>
    cases stack with
    | nil =>
      have hnone := h.highest
      refine ⟨[], ?_⟩
      rwa [Lapic.eoi, hnone]
    | cons top rest =>
      have htop := h.highest
      have hpair := List.pairwise_cons.mp h.classes
      refine ⟨rest, ?_, hpair.2, h.order.2⟩
      intro vec
      simp only [Lapic.eoi, htop, List.head?_cons]
      rw [Lapic.inService, VecBits.get_clear]
      have hmem := h.members vec
      rw [Lapic.inService, List.mem_cons] at hmem
      -- the top is not below itself
      have hnot : top ∉ rest := fun hin => absurd (hpair.1 top hin) (UInt32.lt_irrefl _)
      by_cases heq : vec = top
      · subst heq
        simp [hnot]
      · simpa [heq] using hmem
  | @injects vec hvec =>
    obtain ⟨-, -, -, -, hbeats⟩ := (s.lapic.deliverableVector_eq_some vec).mp hvec
    have hnew : vec ∉ stack := fun hin =>
      absurd (hbeats vec ((h.members vec).mpr hin)) (UInt32.lt_irrefl _)
    refine ⟨vec :: stack, ?_, ?_, ?_, h.order.push hnew⟩
    · intro w
      rw [Lapic.inService, Lapic.ackInjected, VecBits.get_set, List.mem_cons]
      have hmem := h.members w
      rw [Lapic.inService] at hmem
      by_cases heq : w = vec
      · simp [heq]
      · simpa [heq] using hmem
    · exact List.pairwise_cons.mpr
        ⟨fun w hw => hbeats w ((h.members w).mpr hw), h.classes⟩
    · exact ⟨[], s.injected, rfl, by simp⟩

end Nesting

/-! ## Every run -/

theorem run_nested (s : Served) (ops : List LapicOp) (h : ∃ stack, Nested s stack) :
    ∃ stack, Nested (s.run ops) stack := by
  refine List.foldlRecOn ops Served.step (motive := fun s => ∃ stack, Nested s stack) h ?_
  rintro s ⟨stack, hstack⟩ op -
  exact step_nested (step_serves s op) hstack

theorem step_pending {s s' : Served} {op : LapicOp} {vec : UInt8} (hstep : Serves s op s')
    (h : s.lapic.pending vec = true) :
    s'.lapic.pending vec = true ∨ op = .inject ∧ s.lapic.deliverableVector = some vec := by
  cases hstep with
  | keeps hkeep => exact .inl (hkeep.irr vec h)
  | ends =>
    refine .inl ?_
    unfold Lapic.eoi
    split
    · exact h
    · exact h
  | @injects top htop =>
    by_cases heq : vec = top
    · exact .inr ⟨rfl, heq ▸ htop⟩
    · refine .inl ?_
      rw [Lapic.pending, Lapic.ackInjected, VecBits.get_clear]
      have hirr : s.lapic.irr.get vec = true := h
      simp [hirr, heq]

theorem pending_until_injected (s : Served) (vec : UInt8) (ops : List LapicOp)
    (h : s.lapic.pending vec = true) :
    (s.run ops).lapic.pending vec = true ∨
      ∃ done, done ++ [.inject] <+: ops ∧ (s.run done).lapic.deliverableVector = some vec := by
  induction ops using List.reverseRecOn with
  | nil => exact .inl h
  | append_singleton ops op ih =>
    rcases ih with hpend | ⟨done, hdone, hvec⟩
    · have hrun : s.run (ops ++ [op]) = (s.run ops).step op := by
        rw [Served.run, List.foldl_append]
        rfl
      rw [hrun]
      rcases step_pending (step_serves (s.run ops) op) hpend with hpend' | ⟨rfl, hvec⟩
      · exact .inl hpend'
      · exact .inr ⟨ops, List.prefix_rfl, hvec⟩
    · exact .inr ⟨done, hdone.trans (List.prefix_append _ _), hvec⟩

def Served.reset (clock : VirtualClock) (num den : UInt64)
    (ratio : 0 < num ∧ 0 < den) : Served where
  lapic := Lapic.new clock num den ratio
  injected := []

theorem reset_nested (clock : VirtualClock) (num den : UInt64) (ratio : 0 < num ∧ 0 < den) :
    Nested (Served.reset clock num den ratio) [] := by
  refine ⟨fun vec => ?_, List.Pairwise.nil, trivial⟩
  have hempty : (Served.reset clock num den ratio).lapic.inService vec = false :=
    VecBits.get_empty vec
  simp [hempty]

/-- **LAPIC delivery.** After every sequence of operations: the deliverable vector is
the highest pending one when the LAPIC is enabled and its class beats the task
priority and every vector in service; no two vectors in service share a class; an
EOI retires the vector injected last among those in service and no other; a raise
or a self-IPI makes its vector pending; and a pending vector stays pending until it
is injected. -/
theorem interrupts_delivered (clock : VirtualClock) (num den : UInt64)
    (ratio : 0 < num ∧ 0 < den) (ops : List LapicOp) :
    let s := (Served.reset clock num den ratio).run ops
    (∀ vec, s.lapic.deliverableVector = some vec ↔
      s.lapic.enabled = true ∧ s.lapic.pending vec = true ∧
        (∀ w, s.lapic.pending w = true → w ≤ vec) ∧ s.lapic.taskClass < vectorClass vec ∧
        ∀ w, s.lapic.inService w = true → vectorClass w < vectorClass vec) ∧
    (∀ v w, s.lapic.inService v = true → s.lapic.inService w = true →
      vectorClass v = vectorClass w → v = w) ∧
    (∀ val now vec, (s.step (.write REG_EOI val now)).lapic.inService vec =
      (s.lapic.inService vec && !decide (s.lastInService = some vec))) ∧
    (∀ vec, (s.step (.raise vec)).lapic.pending vec = true) ∧
    (∀ (val : UInt32) (now : UInt64), (val >>> 8) &&& 0x7 = 0 → (val >>> 18) &&& 0x3 ≠ 3 →
      (s.step (.write REG_ICR_LOW val now)).lapic.pending (val &&& 0xff).toUInt8 = true) ∧
    ∀ vec more, s.lapic.pending vec = true → (s.run more).lapic.pending vec = true ∨
      ∃ done, done ++ [.inject] <+: more ∧ (s.run done).lapic.deliverableVector = some vec := by
  intro s
  obtain ⟨stack, hstack⟩ := run_nested _ ops ⟨[], reset_nested clock num den ratio⟩
  refine ⟨s.lapic.deliverableVector_eq_some, fun v w => hstack.unique, ?_, ?_, ?_,
    fun vec more => pending_until_injected s vec more⟩
  · intro val now vec
    show s.lapic.eoi.inService vec = _
    have hlast : s.lastInService = s.lapic.isr.highest :=
      hstack.lastInService.trans hstack.highest.symm
    rw [hlast, Lapic.eoi]
    rcases htop : s.lapic.isr.highest with _ | top
    · simp
    · show (s.lapic.isr.clear top).get vec = _
      rw [VecBits.get_clear, Lapic.inService]
      simp [eq_comm]
  · intro vec
    show (s.lapic.raise vec).pending vec = true
    simp [Lapic.raise_pending]
  · intro val now hmode hshort
    show (s.lapic.writeIcr val).pending _ = true
    rw [Lapic.writeIcr, if_neg (not_not.mpr hmode), if_neg hshort]
    simp [Lapic.raise_pending]

/-- The LAPIC is enabled, vector 0x31 is injected, and 0x52 on top of it. -/
def nestedRun : Served :=
  (Served.reset ⟨0, ⟨1000, by decide⟩⟩ 1 1 (by decide)).run
    [.write REG_SVR 0x1ff 0, .raise 0x31, .inject, .raise 0x52, .inject]

theorem interrupts_delivered_nested :
    nestedRun.lastInService = some 0x52 ∧ nestedRun.lapic.inService 0x31 = true ∧
      ∀ vec, (nestedRun.step (.write REG_EOI 0 0)).lapic.inService vec =
        (nestedRun.lapic.inService vec && !decide (nestedRun.lastInService = some vec)) :=
  ⟨by decide +kernel, by decide +kernel,
    (interrupts_delivered ⟨0, ⟨1000, by decide⟩⟩ 1 1 (by decide) _).2.2.1 0 0⟩

end Tdvmm.Vmm
