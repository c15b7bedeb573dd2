import Mathlib.Control.Monad.Basic

/-! When a run of stages succeeds, each of its stages has; when it fails, the first that fails says why. Results can
be compared where what they hold can, which the library has for them beside its monads. -/
namespace FilterSql

theorem bind_eq_ok {x : Except ε α} {f : α → Except ε β} {b : β} :
    (x >>= f) = .ok b ↔ ∃ a, x = .ok a ∧ f a = .ok b := by
  cases x with
  | error e =>
    constructor
    · intro h
      cases h
    · rintro ⟨a, h, -⟩
      cases h
  | ok a =>
    constructor
    · intro h
      exact ⟨a, rfl, h⟩
    · rintro ⟨a', h, hf⟩
      cases h
      exact hf

theorem bind_eq_error {x : Except ε α} {f : α → Except ε β} {e : ε} :
    (x >>= f) = .error e ↔ x = .error e ∨ ∃ a, x = .ok a ∧ f a = .error e := by
  cases x with
  | error e' =>
    constructor
    · intro h
      cases h
      exact .inl rfl
    · rintro (h | ⟨a, h, -⟩)
      · cases h
        rfl
      · cases h
  | ok a =>
    constructor
    · intro h
      exact .inr ⟨a, rfl, h⟩
    · rintro (h | ⟨a', h, hf⟩)
      · cases h
      · cases h
        exact hf

theorem bind_ok_eq_error {x : Except ε α} {f : α → β} {e : ε} (h : (x >>= fun a => .ok (f a)) = .error e) :
    x = .error e := by
  rcases bind_eq_error.mp h with h | ⟨a, -, h⟩
  · exact h
  · cases h

theorem bind_bind_ok_eq_error {x : Except ε α} {y : Except ε β} {f : α → β → γ} {e : ε}
    (h : (x >>= fun a => y >>= fun b => .ok (f a b)) = .error e) : x = .error e ∨ y = .error e := by
  rcases bind_eq_error.mp h with h | ⟨a, -, h⟩
  · exact .inl h
  · exact .inr (bind_ok_eq_error h)

theorem mapError_eq_ok {x : Except ε α} {f : ε → ε'} {a : α} : x.mapError f = .ok a ↔ x = .ok a := by
  cases x with
  | error e =>
    constructor
    · intro h
      cases h
    · intro h
      cases h
  | ok b =>
    constructor
    · intro h
      cases h
      rfl
    · intro h
      cases h
      rfl

end FilterSql
