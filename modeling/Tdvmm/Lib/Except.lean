import Mathlib.Data.Option.Basic

/-!
# Lib.Except — runs that succeed

A computation that can fail has succeeded exactly if each of its parts has; these lemmas take
such a run apart.
-/

namespace Lib

theorem bind_ok {ε α β : Type} {x : Except ε α} {f : α → Except ε β} {r : β} :
    (x >>= f) = .ok r ↔ ∃ a, x = .ok a ∧ f a = .ok r := by
  cases x with
  | error e | ok a => simp [bind, Except.bind]

theorem exists_ok_of_map {ε α β : Type} {x : Except ε α} {f : α → β} {v : β}
    (h : x.toOption.map f = some v) : ∃ a, x = .ok a ∧ f a = v := by
  cases x with
  | error e => cases h
  | ok a => exact ⟨a, rfl, Option.some.inj h⟩

end Lib
