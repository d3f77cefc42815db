import Mathlib.Logic.Relation

/-!
# Lib.Eff — computations with an early exit and a state that survives it

`Eff ε σ α` is a computation over a state `σ` that may stop early with an error `ε`. Unlike
`StateT σ (Except ε)` the state is kept when it stops: this is the meaning of a method on `&mut
self` that returns a `Result` and uses `?`.
-/

namespace Lib

/-- A computation that reads and writes a state and may stop with an error;
the state reached so far is returned in both cases. -/
def Eff (ε σ α : Type) : Type := σ → Except ε α × σ

namespace Eff

variable {ε σ α β : Type}

def run (m : Eff ε σ α) (s : σ) : Except ε α × σ := m s

instance : Monad (Eff ε σ) where
  pure a := fun s => (.ok a, s)
  bind m f := fun s =>
    match m s with
    | (.ok a, s') => f a s'
    | (.error e, s') => (.error e, s')

def read : Eff ε σ σ := fun s => (.ok s, s)

def update (f : σ → σ) : Eff ε σ Unit := fun s => (.ok (), f s)

def fail (e : ε) : Eff ε σ α := fun s => (.error e, s)

def when (c : Bool) (m : Eff ε σ Unit) : Eff ε σ Unit := if c then m else pure ()

/-- Run a computation and go on with its result, error or not. -/
def attempt (m : Eff ε σ α) : Eff ε σ (Except ε α) := fun s => (.ok (m.run s).1, (m.run s).2)

@[simp] theorem run_attempt (m : Eff ε σ α) (s : σ) :
    (attempt m).run s = (.ok (m.run s).1, (m.run s).2) := rfl

@[simp] theorem run_pure (a : α) (s : σ) : (pure a : Eff ε σ α).run s = (.ok a, s) := rfl

@[simp] theorem run_read (s : σ) : (read : Eff ε σ σ).run s = (.ok s, s) := rfl

@[simp] theorem run_update (f : σ → σ) (s : σ) :
    (update f : Eff ε σ Unit).run s = (.ok (), f s) := rfl

@[simp] theorem run_fail (e : ε) (s : σ) : (fail e : Eff ε σ α).run s = (.error e, s) := rfl

theorem run_bind (m : Eff ε σ α) (f : α → Eff ε σ β) (s : σ) :
    (m >>= f).run s =
      match m.run s with
      | (.ok a, s') => (f a).run s'
      | (.error e, s') => (.error e, s') := rfl

variable {m : Eff ε σ α} {f : α → Eff ε σ β} {s : σ}

theorem run_bind_ok {s' : σ} {a : α}
    (h : m.run s = (.ok a, s')) : (m >>= f).run s = (f a).run s' := by
  rw [run_bind, h]

theorem run_bind_error {s' : σ} {e : ε}
    (h : m.run s = (.error e, s')) : (m >>= f).run s = (.error e, s') := by
  rw [run_bind, h]

theorem ok_bind {b : β}
    (h : ((m >>= f).run s).1 = .ok b) :
    ∃ a s', m.run s = (.ok a, s') ∧ (m >>= f).run s = (f a).run s' := by
  rcases hm : m.run s with ⟨r, s'⟩
  cases r with
  | ok a => exact ⟨a, s', rfl, run_bind_ok hm⟩
  | error e =>
    rw [run_bind_error hm] at h
    cases h

@[simp] theorem run_read_bind (f : σ → Eff ε σ β) (s : σ) :
    (read >>= f).run s = (f s).run s := rfl

@[simp] theorem run_update_bind (g : σ → σ) (f : Unit → Eff ε σ β) (s : σ) :
    (update g >>= f).run s = (f ()).run (g s) := rfl

@[simp] theorem run_map_read (f : σ → β) (s : σ) :
    (f <$> (read : Eff ε σ σ)).run s = (.ok (f s), s) := rfl

@[simp] theorem run_map_update (g : σ → σ) (f : Unit → β) (s : σ) :
    (f <$> (update g : Eff ε σ Unit)).run s = (.ok (f ()), g s) := rfl

instance : LawfulMonad (Eff ε σ) := by
  refine LawfulMonad.mk' _ ?_ ?_ ?_
  · intro α x
    funext s
    show (match x s with | (.ok a, s') => (.ok a, s') | (.error e, s') => (.error e, s')) = x s
    split <;> simp [*]
  · intro α β a f
    rfl
  · intro α β γ x f g
    funext s
    show ((x >>= f) >>= g).run s = (x >>= fun a => f a >>= g).run s
    rcases h : x.run s with ⟨r, s'⟩
    cases r with
    | ok a => rw [run_bind_ok h, run_bind, run_bind_ok h, ← run_bind]
    | error e => rw [run_bind_error h, run_bind_error (run_bind_error h)]

/-! ## Postconditions -/

/-- From `s`, the result and the state in which the computation ends satisfy `Q`. -/
def Meets (Q : Except ε α → σ → Prop) (m : Eff ε σ α) (s : σ) : Prop :=
  Q (m.run s).1 (m.run s).2

variable {Q : Except ε β → σ → Prop} {s : σ}

theorem meets_pure {b : β} (h : Q (.ok b) s) : Meets Q (pure b) s := h

theorem meets_fail {e : ε} (h : Q (.error e) s) : Meets Q (fail e) s := h

/-- The rule of `bind`: the first part meets `R`, and from there on the second part
meets `Q`. An error of the first part is one of the whole. -/
theorem Meets.bind {R : Except ε α → σ → Prop}
    (hm : Meets R m s) (hok : ∀ a s', R (.ok a) s' → Meets Q (f a) s')
    (herror : ∀ e s', R (.error e) s' → Q (.error e) s') : Meets Q (m >>= f) s := by
  unfold Meets at hm ⊢
  rcases h : m.run s with ⟨r, s'⟩
  rw [h] at hm
  cases r with
  | ok a =>
    rw [run_bind_ok h]
    exact hok a s' hm
  | error e =>
    rw [run_bind_error h]
    exact herror e s' hm

theorem meets_read_bind {f : σ → Eff ε σ β} (h : Meets Q (f s) s) : Meets Q (read >>= f) s := h

theorem Meets.imp {R : Except ε β → σ → Prop} {m : Eff ε σ β} (h : Meets Q m s)
    (himp : ∀ r s', Q r s' → R r s') : Meets R m s := himp _ _ h

/-! ## Invariants -/

section Invariants

variable {I : σ → Prop} {m : Eff ε σ α} {f : α → Eff ε σ β}

/-- From a state with `I` the computation ends in one with `I`, however it ends. -/
def Keeps (I : σ → Prop) (m : Eff ε σ α) : Prop := ∀ s, I s → I (m.run s).2

theorem keeps_pure (a : α) : Keeps I (pure a : Eff ε σ α) := fun _ hs => hs

theorem keeps_fail (e : ε) : Keeps I (fail e : Eff ε σ α) := fun _ hs => hs

theorem keeps_read : Keeps I (read : Eff ε σ σ) := fun _ hs => hs

theorem keeps_update {g : σ → σ} (h : ∀ s, I s → I (g s)) : Keeps I (update g : Eff ε σ Unit) := h

theorem Keeps.bind (hm : Keeps I m) (hf : ∀ a, Keeps I (f a)) : Keeps I (m >>= f) := by
  intro s hs
  have hend := hm s hs
  rcases h : m.run s with ⟨r, s'⟩
  rw [h] at hend
  cases r with
  | ok a =>
    rw [run_bind_ok h]
    exact hf a s' hend
  | error e =>
    rw [run_bind_error h]
    exact hend

theorem Keeps.when {m : Eff ε σ Unit} (hm : Keeps I m) (c : Bool) : Keeps I (when c m) := by
  cases c with
  | true => exact hm
  | false => exact keeps_pure ()

theorem keeps_forM {g : α → Eff ε σ PUnit} (hg : ∀ a, Keeps I (g a)) (as : List α) :
    Keeps I (forM as g) := by
  induction as with
  | nil => exact keeps_pure _
  | cons a as ih =>
    rw [List.forM_cons]
    exact (hg a).bind fun _ => ih

end Invariants

/-! ## Invariants and errors -/

section Tame

variable {I : σ → Prop} {E : ε → Prop} {m : Eff ε σ α} {f : α → Eff ε σ β}

/-- From a state with `I` the computation ends in one with `I`, and an error it stops with is one
of `E`. -/
def Tame (I : σ → Prop) (E : ε → Prop) (m : Eff ε σ α) : Prop :=
  ∀ s, I s → I (m.run s).2 ∧ ∀ e, (m.run s).1 = .error e → E e

theorem tame_pure (a : α) : Tame I E (pure a : Eff ε σ α) := fun _ hs => ⟨hs, by simp⟩

theorem tame_fail {e : ε} (h : E e) : Tame I E (fail e : Eff ε σ α) := by
  intro s hs
  refine ⟨hs, fun e' he' => ?_⟩
  simp only [run_fail, Except.error.injEq] at he'
  exact he' ▸ h

theorem tame_update {g : σ → σ} (h : ∀ s, I s → I (g s)) : Tame I E (update g : Eff ε σ Unit) :=
  fun s hs => ⟨h s hs, by simp⟩

theorem tame_of_ok (h : ∀ s, I s → ∃ a s', m.run s = (.ok a, s') ∧ I s') : Tame I E m := by
  intro s hs
  obtain ⟨a, s', hrun, hend⟩ := h s hs
  rw [hrun]
  exact ⟨hend, by simp⟩

theorem Tame.bind (hm : Tame I E m) (hf : ∀ a, Tame I E (f a)) : Tame I E (m >>= f) := by
  intro s hs
  obtain ⟨hend, herror⟩ := hm s hs
  rcases h : m.run s with ⟨r, s'⟩
  rw [h] at hend herror
  cases r with
  | ok a =>
    rw [run_bind_ok h]
    exact hf a s' hend
  | error e =>
    rw [run_bind_error h]
    exact ⟨hend, fun e' he' => herror e' (by simpa using he')⟩

theorem tame_read_bind {g : σ → Eff ε σ β} (h : ∀ s, Tame I E (g s)) : Tame I E (read >>= g) :=
  fun s hs => h s s hs

end Tame

/-! ## Two runs side by side -/

section Couples

variable {R : σ → σ → Prop} {m m' : Eff ε σ α} {f f' : α → Eff ε σ β}

/-- From related states both computations give the same result, in related states. -/
def Couples (R : σ → σ → Prop) (m m' : Eff ε σ α) : Prop :=
  ∀ s s', R s s' → (m.run s).1 = (m'.run s').1 ∧ R (m.run s).2 (m'.run s').2

theorem couples_pure (a : α) : Couples R (pure a : Eff ε σ α) (pure a) :=
  fun _ _ h => ⟨rfl, h⟩

theorem couples_update {g g' : σ → σ} (h : ∀ s s', R s s' → R (g s) (g' s')) :
    Couples R (update g : Eff ε σ Unit) (update g') :=
  fun s s' hs => ⟨rfl, h s s' hs⟩

theorem Couples.bind (hm : Couples R m m') (hf : ∀ a, Couples R (f a) (f' a)) :
    Couples R (m >>= f) (m' >>= f') := by
  intro s s' hs
  obtain ⟨hres, hend⟩ := hm s s' hs
  rcases h : m.run s with ⟨r, t⟩
  rcases h' : m'.run s' with ⟨r', t'⟩
  rw [h, h'] at hres hend
  dsimp only at hres hend
  subst hres
  cases r with
  | ok a =>
    rw [run_bind_ok h, run_bind_ok h']
    exact hf a t t' hend
  | error e =>
    rw [run_bind_error h, run_bind_error h']
    exact ⟨rfl, hend⟩

theorem Couples.when {m m' : Eff ε σ Unit} (hm : Couples R m m') (c : Bool) :
    Couples R (when c m) (when c m') := by
  cases c with
  | true => exact hm
  | false => exact couples_pure ()

theorem couples_read_bind {g g' : σ → Eff ε σ β}
    (h : ∀ s s', R s s' → ((g s).run s).1 = ((g' s').run s').1 ∧
      R ((g s).run s).2 ((g' s').run s').2) :
    Couples R (read >>= g) (read >>= g') := h

theorem couples_forM {g g' : α → Eff ε σ PUnit} (hg : ∀ a, Couples R (g a) (g' a)) (as : List α) :
    Couples R (forM as g) (forM as g') := by
  induction as with
  | nil => exact couples_pure _
  | cons a as ih =>
    rw [List.forM_cons, List.forM_cons]
    exact (hg a).bind fun _ => ih

end Couples

end Eff

end Lib
