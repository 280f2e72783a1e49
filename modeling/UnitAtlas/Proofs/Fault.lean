-- Taking apart a computation that gave a result: each of its steps gave one. One that gave none
-- ended with the error of its first step that failed.
import UnitAtlas.Fault

namespace UnitAtlas.Fault

variable {ε δ α β : Type}

theorem bind_eq_ok {x : Except ε α} {f : α → Except ε β} {b : β} :
    x >>= f = .ok b ↔ ∃ a, x = .ok a ∧ f a = .ok b := by
  cases x with
  | error e =>
    constructor
    · intro h
      cases h
    · rintro ⟨a, ha, -⟩
      cases ha
  | ok a =>
    constructor
    · intro h
      exact ⟨a, rfl, h⟩
    · rintro ⟨b, hb, h⟩
      cases hb
      exact h

@[simp] theorem ofError_eq_ok {x : Except ε α} {a : α} : ofError x = .ok a ↔ x = .ok a := by
  cases x <;> simp [ofError]

@[simp] theorem rename_eq_ok {f : ε → δ} {x : Except (Fault ε) α} {a : α} :
    rename f x = .ok a ↔ x = .ok a := by
  cases x <;> simp [rename]

/-! ## Work that cannot panic -/

/-- Whatever comes out, it is no panic. -/
def NeverPanics (x : Except (Fault ε) α) : Prop := ∀ message, x ≠ .error (.panic message)

theorem neverPanics_ok (a : α) : NeverPanics (.ok a : Except (Fault ε) α) := nofun

theorem neverPanics_error (e : ε) : NeverPanics (.error (.error e) : Except (Fault ε) α) := by
  intro message h
  cases h

theorem neverPanics_ofError (x : Except ε α) : NeverPanics (ofError x) := by
  cases x with
  | error e => exact neverPanics_error e
  | ok a => exact neverPanics_ok a

theorem NeverPanics.bind {x : Except (Fault ε) α} {f : α → Except (Fault ε) β}
    (hx : NeverPanics x) (hf : ∀ a, NeverPanics (f a)) : NeverPanics (x >>= f) := by
  cases x with
  | error fault =>
    intro message h
    cases h
    exact hx message rfl
  | ok a => exact hf a

theorem NeverPanics.rename {x : Except (Fault ε) α} (hx : NeverPanics x) (f : ε → δ) :
    NeverPanics (rename f x) := by
  cases x with
  | ok a => exact neverPanics_ok a
  | error fault =>
    cases fault with
    | error e => exact neverPanics_error (f e)
    | panic message => exact absurd rfl (hx message)

/-! ## The error of a computation -/

/-- The error that a computation ends with. -/
def error? : Except ε α → Option ε
  | .ok _ => none
  | .error e => some e

@[simp] theorem error?_eq_some {x : Except ε α} {e : ε} : error? x = some e ↔ x = .error e := by
  cases x <;> simp [error?]

theorem error?_eq_none {x : Except ε α} : error? x = none ↔ ∃ a, x = .ok a := by
  cases x <;> simp [error?]

theorem error?_ofError (x : Except ε α) : error? (ofError x) = (error? x).map .error := by
  cases x <;> rfl

/-- Two steps fail as the first does, or else as the second, which may not look at the result of
the first. -/
theorem error?_bind {x : Except ε α} {f : α → Except ε β} {o : Option ε}
    (h : ∀ a, x = .ok a → error? (f a) = o) : error? (x >>= f) = (error? x).or o := by
  cases x with
  | error e => rfl
  | ok a => exact h a rfl

end UnitAtlas.Fault
