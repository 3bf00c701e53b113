/-
Numbers as bytes, least significant byte first, and files read field by field.

`bytes n v` are the `n` bytes that hold `v` in the memory of a little-endian machine
and `value` is the number that bytes hold, so a number survives the trip up to the
width of the field. Signed fields are in two's complement (`signed64`).

`split_field` is the one fact about reading: what stands in front is taken off, and
the rest is left.
-/
import Mathlib.Tactic

set_option autoImplicit false

namespace Lib.Endian

/-- The `n` bytes of `v`, least significant first. -/
def bytes : ℕ → ℕ → List UInt8
  | 0, _ => []
  | n + 1, v => UInt8.ofNat v :: bytes n (v / 256)

/-- The number that bytes hold, least significant first. -/
def value : List UInt8 → ℕ
  | [] => 0
  | b :: l => b.toNat + 256 * value l

@[simp] theorem bytes_length (n v : ℕ) : (bytes n v).length = n := by
  induction n generalizing v with
  | zero => rfl
  | succ n ih => rw [bytes, List.length_cons, ih]

theorem value_bytes (n v : ℕ) : value (bytes n v) = v % 256 ^ n := by
  induction n generalizing v with
  | zero => rw [bytes, value, pow_zero, Nat.mod_one]
  | succ n ih =>
      have e₁ : 2 ^ 8 = 256 := rfl
      rw [bytes, value, ih, UInt8.toNat_ofNat', e₁, pow_succ', Nat.mod_mul]

/-- A number that fits into the field is read as it was written. -/
theorem value_bytes_of_lt {n v : ℕ} (h : v < 256 ^ n) : value (bytes n v) = v := by
  rw [value_bytes, Nat.mod_eq_of_lt h]

/-- Only the bits of the field count. -/
theorem bytes_mod (n v : ℕ) : bytes n (v % 256 ^ n) = bytes n v := by
  induction n generalizing v with
  | zero => rfl
  | succ n ih =>
      have hbyte : UInt8.ofNat (v % 256 ^ (n + 1)) = UInt8.ofNat v := by
        apply UInt8.toNat_inj.mp
        rw [UInt8.toNat_ofNat', UInt8.toNat_ofNat', pow_succ']
        exact Nat.mod_mul_right_mod v 256 (256 ^ n)
      have hrest : v % 256 ^ (n + 1) / 256 = v / 256 % 256 ^ n := by
        rw [pow_succ', Nat.mod_mul_right_div_self]
      rw [bytes, bytes, hbyte, hrest, ih]

/-! ## Signed numbers -/

/-- A number of 64 bits as a signed one. -/
def signed64 (n : ℕ) : ℤ := if n < 2 ^ 63 then n else (n : ℤ) - 2 ^ 64

/-- The 64 bits of a signed number. -/
def unsigned64 (i : ℤ) : ℕ := (i % 2 ^ 64).toNat

theorem unsigned64_lt (i : ℤ) : unsigned64 i < 256 ^ 8 := by
  unfold unsigned64
  omega

theorem signed64_unsigned64 {i : ℤ} (h₁ : -2 ^ 63 ≤ i) (h₂ : i < 2 ^ 63) :
    signed64 (unsigned64 i) = i := by
  unfold signed64 unsigned64
  split_ifs <;> omega

/-! ## Fields -/

/-- A field in front is taken off. -/
theorem split_field {l rest : List UInt8} {n : ℕ} (h : l.length = n) :
    (l ++ rest).take n = l ∧ (l ++ rest).drop n = rest := by
  rw [← h]
  exact ⟨List.take_left, List.drop_left⟩

end Lib.Endian
