/-
Byte buffers: raw storage read and written by offset.

A `Buffer` is the storage behind a pointer, as a total function from offsets to
bytes. Its length is not part of it: code that has to respect a length carries
the length beside the buffer and compares against it, which keeps the two
questions "what is stored" and "was the access inside" apart. Every lemma here
is of the first kind and needs no bound.

Two operations are enough for `memcpy`, `memmove`, `memset` and for the casts of
packed structures: `slice` reads a run of bytes as a list and `write` stores a
list of bytes at an offset. The rest of the file says how the two compose.
-/
import Mathlib.Data.List.GetD
import Mathlib.Tactic

set_option autoImplicit false

namespace Lib.Storage

/-- Storage: the byte at every offset. -/
abbrev Buffer := ℕ → UInt8

/-- The `len` bytes from `off` on. -/
def slice (b : Buffer) (off len : ℕ) : List UInt8 := (List.range len).map fun i => b (off + i)

/-- `b` with the bytes of `l` stored from `off` on. -/
def write (b : Buffer) (off : ℕ) (l : List UInt8) : Buffer := fun i =>
  if off ≤ i ∧ i < off + l.length then l.getD (i - off) 0 else b i

/-- A buffer holding `l` from offset `0` on, and zeros behind it. -/
def ofList (l : List UInt8) : Buffer := fun i => l.getD i 0

/-! ## Reading -/

@[simp] theorem slice_length (b : Buffer) (off len : ℕ) : (slice b off len).length = len := by
  simp [slice]

theorem slice_getD (b : Buffer) (off len : ℕ) {i : ℕ} (hi : i < len) (d : UInt8) :
    (slice b off len).getD i d = b (off + i) := by
  rw [List.getD_eq_getElem _ _ (by simpa using hi)]
  simp [slice]

/-- Two runs are equal when the bytes under them are. -/
theorem slice_congr {b c : Buffer} {off len : ℕ}
    (h : ∀ i, off ≤ i → i < off + len → b i = c i) : slice b off len = slice c off len := by
  refine List.map_congr_left fun i hi => ?_
  have hlt : i < len := List.mem_range.mp hi
  exact h (off + i) (by omega) (by omega)

/-- The same bytes, `d` further on. -/
theorem slice_shift {b c : Buffer} {off len : ℕ} (d : ℕ)
    (h : ∀ i, off ≤ i → i < off + len → b i = c (i + d)) :
    slice b off len = slice c (off + d) len := by
  unfold slice
  apply List.map_congr_left
  intro i hi
  have hlt := List.mem_range.mp hi
  rw [h (off + i) (by omega) (by omega), Nat.add_right_comm]

/-- What is made of each byte of a part depends on these bytes only. -/
theorem slice_map_congr {α : Type*} {f : UInt8 → α} {b c : Buffer} {off len : ℕ}
    (h : ∀ i, off ≤ i → i < off + len → f (b i) = f (c i)) :
    (slice b off len).map f = (slice c off len).map f := by
  rw [slice, slice, List.map_map, List.map_map]
  apply List.map_congr_left
  intro i hi
  exact h (off + i) (by omega) (by have := List.mem_range.mp hi; omega)

theorem slice_succ (b : Buffer) (off len : ℕ) :
    slice b off (len + 1) = b off :: slice b (off + 1) len := by
  refine List.ext_getElem (by simp) fun i h₁ h₂ => ?_
  cases i with
  | zero => simp [slice]
  | succ i => simp [slice, Nat.add_assoc, Nat.add_comm 1 i]

theorem slice_add (b : Buffer) (off m n : ℕ) :
    slice b off (m + n) = slice b off m ++ slice b (off + m) n := by
  induction m generalizing off with
  | zero => simp [slice]
  | succ m ih =>
      rw [Nat.add_right_comm, slice_succ, ih (off + 1), slice_succ, List.cons_append]
      congr 3
      omega

/-- A run made of two parts. -/
theorem slice_eq_append {b : Buffer} {off n : ℕ} {l m : List UInt8} (h : slice b off n = l ++ m) :
    slice b off l.length = l ∧ slice b (off + l.length) m.length = m := by
  have hn : n = l.length + m.length := by
    rw [← slice_length b off n, h, List.length_append]
  rw [hn, slice_add] at h
  exact List.append_inj h (by simp)

@[simp] theorem slice_ofList (l : List UInt8) : slice (ofList l) 0 l.length = l := by
  refine List.ext_getElem (by simp) fun i h₁ h₂ => ?_
  have hi : i < l.length := by simpa using h₁
  simp [slice, ofList, hi]

/-! ## Writing -/

theorem write_apply_inside (b : Buffer) {off i : ℕ} {l : List UInt8} (h₁ : off ≤ i)
    (h₂ : i < off + l.length) : write b off l i = l.getD (i - off) 0 := by
  rw [write, if_pos ⟨h₁, h₂⟩]

theorem write_apply_outside (b : Buffer) {off i : ℕ} {l : List UInt8}
    (h : i < off ∨ off + l.length ≤ i) : write b off l i = b i := by
  rw [write, if_neg (by omega)]

/-- What was written is what is read back. -/
theorem slice_write_same (b : Buffer) (off : ℕ) (l : List UInt8) :
    slice (write b off l) off l.length = l := by
  refine List.ext_getElem (by simp) fun i h₁ h₂ => ?_
  have hi : i < l.length := by simpa using h₁
  simp only [slice, List.getElem_map, List.getElem_range]
  rw [write_apply_inside b (by omega) (by omega), Nat.add_sub_cancel_left,
    List.getD_eq_getElem _ _ hi]

/-- A run that a write does not touch keeps its bytes. -/
theorem slice_write_disjoint (b : Buffer) {off o n : ℕ} {l : List UInt8}
    (h : o + n ≤ off ∨ off + l.length ≤ o) : slice (write b off l) o n = slice b o n :=
  slice_congr fun i h₁ h₂ => write_apply_outside b (by omega)

/-- The first bytes of a run that was written. -/
theorem slice_write_slice (b c : Buffer) (off : ℕ) {m n : ℕ} (h : m ≤ n) :
    slice (write b off (slice c 0 n)) off m = slice c 0 m := by
  have hsame := slice_write_same b off (slice c 0 n)
  rw [slice_length, ← Nat.add_sub_of_le h, slice_add, slice_add] at hsame
  have hfirst := (List.append_inj hsame (by simp)).1
  rw [← slice_add c 0 m (n - m), Nat.add_sub_of_le h] at hfirst
  exact hfirst

@[simp] theorem write_nil (b : Buffer) (off : ℕ) : write b off [] = b := by
  funext i
  exact write_apply_outside b (by rw [List.length_nil]; omega)

/-- Writing back the bytes a buffer already holds changes nothing. -/
theorem write_slice (b : Buffer) (off len : ℕ) : write b off (slice b off len) = b := by
  funext i
  by_cases h : off ≤ i ∧ i < off + len
  · rw [write_apply_inside b h.1 (by simpa using h.2), slice_getD b off len (by omega) 0]
    congr 1
    omega
  · rw [write_apply_outside b (by rw [slice_length]; omega)]

/-- A write of two runs is two writes. -/
theorem write_append (b : Buffer) (off : ℕ) (l m : List UInt8) :
    write b off (l ++ m) = write (write b off l) (off + l.length) m := by
  funext i
  unfold write
  rw [List.length_append]
  by_cases h₁ : off + l.length ≤ i ∧ i < off + l.length + m.length
  · rw [if_pos (by omega), if_pos h₁, List.getD_append_right _ _ _ _ (by omega)]
    congr 1
    omega
  · rw [if_neg h₁]
    by_cases h₂ : off ≤ i ∧ i < off + l.length
    · rw [if_pos (by omega), if_pos h₂, List.getD_append _ _ _ _ (by omega)]
    · rw [if_neg (by omega), if_neg h₂]

/-- Overwriting the first byte of what was written. -/
theorem write_write_head (b : Buffer) (off : ℕ) (x y : UInt8) (l : List UInt8) :
    write (write b off (x :: l)) off [y] = write b off (y :: l) := by
  funext i
  by_cases h : i = off
  · subst h
    rw [write_apply_inside _ (le_refl _) (by simp), write_apply_inside _ (le_refl _) (by simp)]
    simp
  · rw [write_apply_outside _ (by simp; omega)]
    by_cases hin : off ≤ i ∧ i < off + (l.length + 1)
    · obtain ⟨j, hj⟩ : ∃ j, i - off = j + 1 := ⟨i - off - 1, by omega⟩
      rw [write_apply_inside _ hin.1 (by simpa using hin.2),
        write_apply_inside _ hin.1 (by simpa using hin.2), hj]
      simp
    · rw [write_apply_outside _ (by simp; omega), write_apply_outside _ (by simp; omega)]

/-! ## Big-endian numbers -/

/-- The two bytes at `off`, most significant first. -/
def be16 (b : Buffer) (off : ℕ) : ℕ := (b off).toNat * 256 + (b (off + 1)).toNat

/-- The four bytes at `off`, most significant first. -/
def be32 (b : Buffer) (off : ℕ) : ℕ := be16 b off * 65536 + be16 b (off + 2)

/-- `n` modulo `2^16` in two bytes. -/
def bytes16 (n : ℕ) : List UInt8 := [UInt8.ofNat (n / 256), UInt8.ofNat n]

/-- `n` modulo `2^32` in four bytes. -/
def bytes32 (n : ℕ) : List UInt8 := bytes16 (n / 65536) ++ bytes16 n

@[simp] theorem bytes16_length (n : ℕ) : (bytes16 n).length = 2 := rfl

@[simp] theorem bytes32_length (n : ℕ) : (bytes32 n).length = 4 := rfl

theorem be16_lt (b : Buffer) (off : ℕ) : be16 b off < 65536 := by
  have h₁ := (b off).toNat_lt
  have h₂ := (b (off + 1)).toNat_lt
  unfold be16
  omega

theorem be16_congr {b c : Buffer} {off : ℕ} (h₀ : b off = c off)
    (h₁ : b (off + 1) = c (off + 1)) : be16 b off = be16 c off := by
  rw [be16, be16, h₀, h₁]

theorem be16_shift {b c : Buffer} {off : ℕ} (d : ℕ) (h₀ : b off = c (off + d))
    (h₁ : b (off + 1) = c (off + 1 + d)) : be16 b off = be16 c (off + d) := by
  rw [be16, be16, h₀, h₁, Nat.add_right_comm]

/-- The bytes of the number that two bytes hold. -/
theorem bytes16_be16 (b : Buffer) (off : ℕ) : bytes16 (be16 b off) = [b off, b (off + 1)] := by
  have h₀ := (b off).toNat_lt
  have h₁ := (b (off + 1)).toNat_lt
  have e₀ : UInt8.ofNat (be16 b off / 256) = b off := by
    apply UInt8.toNat_inj.mp
    rw [UInt8.toNat_ofNat', be16]
    omega
  have e₁ : UInt8.ofNat (be16 b off) = b (off + 1) := by
    apply UInt8.toNat_inj.mp
    rw [UInt8.toNat_ofNat', be16]
    omega
  rw [bytes16, e₀, e₁]

/-- A 16-bit number survives the trip through its two bytes. -/
theorem be16_write_same (b : Buffer) (off n : ℕ) : be16 (write b off (bytes16 n)) off = n % 65536 := by
  have h₀ : write b off (bytes16 n) off = UInt8.ofNat (n / 256) := by
    rw [write_apply_inside b (le_refl _) (by simp)]
    simp [bytes16]
  have h₁ : write b off (bytes16 n) (off + 1) = UInt8.ofNat n := by
    rw [write_apply_inside b (by omega) (by simp)]
    simp [bytes16]
  rw [be16, h₀, h₁]
  simp only [UInt8.toNat_ofNat']
  omega

/-- A number read from its two bytes. -/
theorem be16_of_slice {b : Buffer} {off n : ℕ} (h : slice b off 2 = bytes16 n) :
    be16 b off = n % 65536 := by
  rw [slice_succ, slice_succ, bytes16] at h
  obtain ⟨h₀, h⟩ := List.cons.inj h
  obtain ⟨h₁, -⟩ := List.cons.inj h
  rw [be16, h₀, h₁, UInt8.toNat_ofNat', UInt8.toNat_ofNat']
  omega

/-- The same for four bytes. -/
theorem be32_of_slice {b : Buffer} {off n : ℕ} (h : slice b off 4 = bytes32 n) :
    be32 b off = n % 4294967296 := by
  obtain ⟨h₁, h₂⟩ := slice_eq_append h
  rw [bytes16_length] at h₁ h₂
  rw [bytes16_length] at h₂
  rw [be32, be16_of_slice h₁, be16_of_slice h₂]
  omega

end Lib.Storage
