/-
Failures.

The model is of the release build (`CMAKE_BUILD_TYPE` defaults to `Release` in
`CMakeLists.txt`, which defines `NDEBUG`), so an `assert` of the source has no
effect here. Where a statement relies on one, it says so in a hypothesis.

A function either returns or fails with an `Exn`: one of the exception classes
the source throws, with its text, or `overrun`, an access outside the object it
goes to, or to an object that is gone. The second is not an exception and nothing
catches it; it stands for undefined behaviour, so that "no write outside the buffer"
is the statement that `overrun` does not occur.
-/
import Mathlib.Logic.Basic

set_option autoImplicit false

namespace Cdns

/-- What a function can fail with. -/
inductive Exn where
  /-- `network::error`, alias `net_error`, a `std::system_error` -/
  | net_error (what : String)
  | system_error (what : String)
  | runtime_error (what : String)
  /-- `dns::crypt::crypt_failure`, a `std::runtime_error` -/
  | crypt_failure (what : String)
  /-- `dns::crypt::invalid_certificate`, a `std::runtime_error` -/
  | invalid_certificate (what : String)
  | logic_error (what : String)
  /-- `std::bad_cast`, from a `dynamic_cast` to a reference -/
  | bad_cast
  | overrun
  deriving Repr, DecidableEq

/-- A computation that returns or fails. -/
abbrev Result (α : Type) := Except Exn α

namespace Exn

/-- A handler for `net_error` takes it. -/
def is_net_error : Exn → Bool
  | net_error _ => true
  | _ => false

/-- A handler for `std::runtime_error` takes it. -/
def is_runtime_error : Exn → Bool
  | logic_error _ => false
  | bad_cast => false
  | overrun => false
  | _ => true

end Exn

namespace Result

variable {α β : Type}

/-- It returns. -/
def returns (r : Result α) : Prop := ∃ a, r = .ok a

@[simp] theorem returns_ok (a : α) : returns (.ok a : Result α) := ⟨a, rfl⟩

@[simp] theorem not_returns_error (e : Exn) : ¬ returns (.error e : Result α) := by
  rintro ⟨a, h⟩
  exact absurd h (by simp)

/-- A sequence returns exactly when its first part does and its second part
does on the value of the first. -/
theorem bind_eq_ok {x : Result α} {f : α → Result β} {b : β} :
    (x >>= f) = .ok b ↔ ∃ a, x = .ok a ∧ f a = .ok b := by
  cases x with
  | error e =>
      constructor
      · intro h
        exact absurd h (by simp [bind, Except.bind])
      · rintro ⟨a, h, -⟩
        exact absurd h (by simp)
  | ok a =>
      constructor
      · exact fun h => ⟨a, rfl, h⟩
      · rintro ⟨a', h, hf⟩
        cases h
        exact hf

/-- A failure of a sequence is a failure of one of its parts. -/
theorem bind_eq_error {x : Result α} {f : α → Result β} {e : Exn} :
    (x >>= f) = .error e ↔ x = .error e ∨ ∃ a, x = .ok a ∧ f a = .error e := by
  cases x with
  | error e' =>
      constructor
      · intro h
        exact Or.inl (congrArg Except.error (Except.error.inj h))
      · rintro (h | ⟨a, ha, -⟩)
        · exact congrArg Except.error (Except.error.inj h)
        · exact absurd ha (by simp)
  | ok a =>
      constructor
      · intro h
        exact Or.inr ⟨a, rfl, h⟩
      · rintro (h | ⟨a', ha', h⟩)
        · exact absurd h (by simp)
        · rw [← Except.ok.inj ha'] at h
          exact h

theorem returns_bind {x : Result α} {f : α → Result β} :
    returns (x >>= f) ↔ ∃ a, x = .ok a ∧ returns (f a) := by
  unfold returns
  simp only [bind_eq_ok]
  constructor
  · rintro ⟨b, a, hx, hf⟩
    exact ⟨a, hx, b, hf⟩
  · rintro ⟨a, hx, b, hf⟩
    exact ⟨b, a, hx, hf⟩

/-- A second part that always returns. -/
theorem returns_bind_iff {x : Result α} {f : α → Result β} (hf : ∀ a, returns (f a)) :
    returns (x >>= f) ↔ returns x := by
  rw [returns_bind]
  constructor
  · rintro ⟨a, hx, -⟩
    exact ⟨a, hx⟩
  · rintro ⟨a, hx⟩
    exact ⟨a, hx, hf a⟩

@[simp] theorem ok_bind (a : α) (f : α → Result β) : ((.ok a : Result α) >>= f) = f a := rfl

@[simp] theorem error_bind (e : Exn) (f : α → Result β) :
    ((.error e : Result α) >>= f) = .error e := rfl

end Result

end Cdns
