import Mathlib.Data.List.Infix
import Mathlib.Logic.Relation

/-!
# Lib.Trace — runs and the histories they append to

1. Invariants of a step relation, carried along its runs; a list from its last element of a kind
   on.
2. `Each Q h`: every event of a history satisfies `Q`, given what came before it.
3. `Always P h`: a property of every moment of a history, a moment being a prefix.
-/

namespace Lib

variable {α : Type}

/-! ## Runs -/

theorem run_invariant {R : α → α → Prop} {I : α → Prop} (hstep : ∀ a b, R a b → I a → I b)
    {a b : α} (h : Relation.ReflTransGen R a b) (ha : I a) : I b := by
  induction h with
  | refl => exact ha
  | tail _ hbc ih => exact hstep _ _ hbc ih

/-! ## The last of a kind -/

theorem suffix_unique {p : α → Bool} {a b : α} {xs ys l : List α} (ha : p a = true)
    (hb : p b = true) (hxs : ∀ x ∈ xs, p x = false) (hys : ∀ y ∈ ys, p y = false)
    (h : a :: xs <:+ l) (h' : b :: ys <:+ l) : a :: xs = b :: ys := by
  -- the part of a list from its last `p` on is unique
  rcases List.suffix_or_suffix_of_suffix h h' with hle | hle
  · rcases List.suffix_cons_iff.mp hle with heq | hin
    · exact heq
    · have hmem := hys a (hin.subset List.mem_cons_self)
      rw [ha] at hmem
      contradiction
  · rcases List.suffix_cons_iff.mp hle with heq | hin
    · exact heq.symm
    · have hmem := hxs b (hin.subset List.mem_cons_self)
      rw [hb] at hmem
      contradiction

/-! ## Events -/

/-- Every event of the history satisfies `Q`, given the events before it. -/
def Each (Q : List α → α → Prop) (h : List α) : Prop := ∀ pre e, pre ++ [e] <+: h → Q pre e

/-- Each of the events `es` that follow `h` satisfies `Q`. -/
def After (Q : List α → α → Prop) : List α → List α → Prop
  | _, [] => True
  | h, e :: es => Q h e ∧ After Q (h ++ [e]) es

instance After.decidable {Q : List α → α → Prop} [∀ h e, Decidable (Q h e)] :
    ∀ h es, Decidable (After Q h es)
  | _, [] => .isTrue trivial
  | h, e :: es =>
    have := After.decidable (Q := Q) (h ++ [e]) es
    inferInstanceAs (Decidable (Q h e ∧ After Q (h ++ [e]) es))

variable {Q : List α → α → Prop} {P : List α → Prop} {h es : List α} {e : α}

@[simp] theorem after_nil : After Q h [] := trivial

@[simp] theorem after_cons : After Q h (e :: es) ↔ Q h e ∧ After Q (h ++ [e]) es := Iff.rfl

theorem after_append {es' : List α} :
    After Q h (es ++ es') ↔ After Q h es ∧ After Q (h ++ es) es' := by
  induction es generalizing h with
  | nil => simp
  | cons e es ih =>
    rw [List.cons_append, after_cons, after_cons, ih, and_assoc]
    simp

theorem each_nil : Each Q [] := by
  intro pre e hpre
  have hnil := List.prefix_nil.mp hpre
  simp at hnil

theorem each_snoc : Each Q (h ++ [e]) ↔ Each Q h ∧ Q h e := by
  constructor
  · intro hQ
    exact ⟨fun pre x hpre => hQ pre x (hpre.trans (List.prefix_append _ _)),
      hQ h e List.prefix_rfl⟩
  · rintro ⟨hQ, he⟩ pre x hpre
    rcases List.prefix_concat_iff.mp hpre with heq | hpre
    · obtain ⟨rfl, hx⟩ := List.append_inj' heq rfl
      rw [List.singleton_inj.mp hx]
      exact he
    · exact hQ pre x hpre

theorem each_append : Each Q (h ++ es) ↔ Each Q h ∧ After Q h es := by
  induction es generalizing h with
  | nil => simp
  | cons e es ih =>
    have hsplit : h ++ e :: es = (h ++ [e]) ++ es := by simp
    rw [hsplit, ih, each_snoc, after_cons, and_assoc]

theorem each_iff_after : Each Q h ↔ After Q [] h := by
  have happend : Each Q ([] ++ h) ↔ Each Q [] ∧ After Q [] h := each_append
  simpa [each_nil] using happend

/-- Two properties of the events that agree wherever an invariant holds, one of them
keeping it. -/
theorem each_congr {Q' : List α → α → Prop} {K : α → Prop} {I : List α → Prop} (hnil : I [])
    (hiff : ∀ pre e, K e → I pre → (Q pre e ↔ Q' pre e))
    (hstep : ∀ pre e, K e → I pre → Q pre e → I (pre ++ [e])) (hK : ∀ e ∈ h, K e) :
    Each Q h ↔ Each Q' h := by
  -- the invariant holds after the events so far, so the next one may use the agreement
  suffices hboth : (Each Q h ↔ Each Q' h) ∧ (Each Q h → I h) from hboth.1
  induction h using List.reverseRecOn with
  | nil => exact ⟨iff_of_true each_nil each_nil, fun _ => hnil⟩
  | append_singleton h e ih =>
    obtain ⟨hEach, hI⟩ := ih fun x hx => hK x (List.mem_append_left _ hx)
    have hKe : K e := hK e List.mem_concat_self
    rw [each_snoc, each_snoc]
    refine ⟨?_, fun hQ => hstep h e hKe (hI hQ.1) hQ.2⟩
    constructor
    · rintro ⟨hpre, he⟩
      exact ⟨hEach.mp hpre, (hiff h e hKe (hI hpre)).mp he⟩
    · rintro ⟨hpre, he⟩
      have hQ := hEach.mpr hpre
      exact ⟨hQ, (hiff h e hKe (hI hQ)).mpr he⟩

/-! ## Moments -/

/-- `P` holds at every moment of the history. -/
def Always (P : List α → Prop) (h : List α) : Prop := ∀ h', h' <+: h → P h'

theorem always_iff_each : Always P h ↔ P [] ∧ Each (fun pre e => P (pre ++ [e])) h := by
  constructor
  · intro hP
    exact ⟨hP [] List.nil_prefix, fun pre e hpre => hP _ hpre⟩
  · rintro ⟨hnil, hP⟩ h' hh
    rcases List.eq_nil_or_concat h' with rfl | ⟨pre, e, rfl⟩
    · exact hnil
    · rw [List.concat_eq_append] at hh ⊢
      exact hP pre e hh

theorem always_append :
    Always P (h ++ es) ↔ Always P h ∧ After (fun pre e => P (pre ++ [e])) h es := by
  rw [always_iff_each, always_iff_each, each_append, and_assoc]

theorem after_of_keeps {K : α → Prop} (hkeep : ∀ h e, K e → P h → P (h ++ [e]))
    (hes : ∀ e ∈ es, K e) (hP : P h) : After (fun pre e => P (pre ++ [e])) h es := by
  induction es generalizing h with
  | nil => trivial
  | cons e es ih =>
    have hPe := hkeep h e (hes e List.mem_cons_self) hP
    exact ⟨hPe, ih (fun e' he' => hes e' (List.mem_cons_of_mem _ he')) hPe⟩

theorem Always.last (hP : Always P h) : P h := hP h List.prefix_rfl

end Lib
