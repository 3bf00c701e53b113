/-
Padding and its end, byte by byte: `detail::pad_buffer` (`dns/crypt/srcz/pad_buffer.cpp`) and
`detail::find_end` (`dns/crypt/message_header.hxx`).

`detail.pad_buffer` computes with natural numbers on the storage of a query, which has 65535
bytes at most. Here the lengths are 32-bit numbers, as in the source, and the buffer is a list of
any length, outside of which nothing is read or written. On the storage of a query both are the
same (`pad_buffer_eq`, `find_end_eq`).

The padded length is drawn, rounded up to a multiple of 64 and cut at `max_len`. Rounding up a
length that is drawn in the last 64 bytes of the 32-bit numbers gives 0, which no test notices
(`pad_buffer_iff`).
-/
import Cdns.RoundTrip
import Cdns.WireName

set_option autoImplicit false

namespace Cdns.checked

open Lib.Storage

/-! ## The functions -/

/-- `memset` and a store: `l` over the bytes from `off` on. -/
def store (buf : List UInt8) (off : ℕ) (l : List UInt8) : Result (List UInt8) :=
  if off + l.length ≤ buf.length then .ok (buf.take off ++ l ++ buf.drop (off + l.length))
  else .error .overrun

/-- `padded_len`: drawn, rounded up to a block, and cut. -/
def padded_len (len max_len : UInt32) (rndfunc : UInt32 → UInt32) : UInt32 :=
  let block_size := 64
  let min_pad_len := 8
  let padded_len := len + min_pad_len + rndfunc (max_len - len - min_pad_len + 1)
  let padded_len := padded_len + (block_size - padded_len % block_size)
  if padded_len > max_len then max_len else padded_len

/-- `detail::pad_buffer`. -/
def pad_buffer (buf : List UInt8) (len max_len : UInt32) (rndfunc : UInt32 → UInt32) :
    Result (List UInt8 × UInt32) :=
  if max_len < len + 8 then .ok (buf, len)
  else do
    let padded_len := padded_len len max_len rndfunc
    let buf ← store buf len.toNat (List.replicate (padded_len - len).toNat 0)
    let buf ← store buf len.toNat [0x80]
    .ok (buf, padded_len)

/-- The loop of `find_end`. -/
def find_end_loop (buf : List UInt8) : ℕ → Result ℕ
  | 0 => .ok 0
  | size + 1 => do
      let b ← read buf size
      if b = 0 then find_end_loop buf size else .ok size

/-- `detail::find_end`. -/
def find_end (buf : List UInt8) (size : ℕ) : Result ℕ := do
  let size ← find_end_loop buf size
  let b ← read buf size
  if b ≠ 0x80 then .error (.runtime_error "no end") else .ok size

/-! ## The end -/

section End

variable {buf : List UInt8} {size : ℕ}

/-- The loop stops at the last byte that is not zero, and at the first byte of all. -/
theorem find_end_loop_spec (hsize : 1 ≤ size) (hfit : size ≤ buf.length) :
    ∃ e, find_end_loop buf size = .ok e ∧ e < size ∧
      (∀ i, e < i → i < size → buf[i]? = some 0) ∧ (buf[e]? = some 0 → e = 0) := by
  induction size with
  | zero => exact absurd hsize (by omega)
  | succ size ih =>
      have hlt : size < buf.length := by omega
      have hget : buf[size]? = some buf[size] := List.getElem?_eq_getElem hlt
      have hread : read buf size = .ok buf[size] := by rw [read, hget]
      rw [find_end_loop, hread, Result.ok_bind]
      by_cases hzero : buf[size] = 0
      · rw [if_pos hzero]
        rw [hzero] at hget
        by_cases hfirst : size = 0
        · refine ⟨0, by rw [hfirst]; rfl, by omega, fun i h₁ h₂ => ?_, fun _ => rfl⟩
          exact absurd h₁ (by omega)
        · obtain ⟨e, hloop, hlow, hzeros, hend⟩ := ih (by omega) (by omega)
          refine ⟨e, hloop, by omega, fun i h₁ h₂ => ?_, hend⟩
          by_cases hi : i = size
          · rw [hi]
            exact hget
          · exact hzeros i h₁ (by omega)
      · rw [if_neg hzero]
        refine ⟨size, rfl, by omega, fun i h₁ h₂ => absurd h₁ (by omega), fun h => ?_⟩
        rw [hget] at h
        exact absurd (Option.some.inj h) hzero

/-- **The end is the last byte that is not zero**, if it is the marker. -/
theorem find_end_eq_ok (hsize : 1 ≤ size) (hfit : size ≤ buf.length) {e : ℕ} :
    find_end buf size = .ok e ↔
      e < size ∧ buf[e]? = some 0x80 ∧ ∀ i, e < i → i < size → buf[i]? = some 0 := by
  obtain ⟨d, hloop, hlt, hzeros, hend⟩ := find_end_loop_spec hsize hfit
  have hget : buf[d]? = some buf[d] := List.getElem?_eq_getElem (by omega)
  have hread : read buf d = .ok buf[d] := by rw [read, hget]
  rw [find_end, hloop, Result.ok_bind, hread, Result.ok_bind]
  constructor
  · intro h
    split_ifs at h with hmark
    rw [← Except.ok.inj h, hget]
    exact ⟨hlt, congrArg some (not_not.mp hmark), hzeros⟩
  · rintro ⟨he, hmark, hzeros'⟩
    -- neither of the two ends lies behind the other one
    have hed : e = d := by
      rcases Nat.lt_trichotomy e d with hlt' | heq | hgt
      · have hzero := hzeros' d hlt' hlt
        have := hend hzero
        omega
      · exact heq
      · rw [hzeros e hgt he] at hmark
        exact absurd hmark (by decide)
    rw [hed, hget] at hmark
    rw [if_neg (not_not.mpr (Option.some.inj hmark)), hed]

/-- No byte from `size` on is read. -/
theorem find_end_safe (hsize : 1 ≤ size) (hfit : size ≤ buf.length) :
    find_end (buf.take size) size ≠ .error .overrun ∧
      find_end buf size = find_end (buf.take size) size := by
  have hlen : size ≤ (buf.take size).length := by rw [List.length_take]; omega
  have hsame : ∀ n, n ≤ size → find_end_loop buf n = find_end_loop (buf.take size) n := by
    intro n hn
    induction n with
    | zero => rfl
    | succ n ih =>
        have hread : read buf n = read (buf.take size) n := by
          rw [read, read, List.getElem?_take_of_lt (by omega)]
        rw [find_end_loop, find_end_loop, hread, ih (by omega)]
  obtain ⟨d, hloop, hlt, -, -⟩ := find_end_loop_spec hsize hlen
  have hread : read buf d = read (buf.take size) d := by
    rw [read, read, List.getElem?_take_of_lt hlt]
  refine ⟨?_, ?_⟩
  · rw [find_end, hloop, Result.ok_bind, read_eq (by omega), Result.ok_bind]
    split_ifs
    · simp
    · simp
  · rw [find_end, find_end, hsame size (le_refl _), hloop, Result.ok_bind, Result.ok_bind, hread]

end End

/-! ## The padding -/

/-- What the padding should be: it has at least eight bytes, ends at a block or at `max_len`, is
the marker and zeros, leaves all other bytes alone, and its start is found again. -/
structure Pads (buf : List UInt8) (len max_len : UInt32) (buf' : List UInt8) (n : UInt32) :
    Prop where
  low : len.toNat + 8 ≤ n.toNat
  high : n ≤ max_len
  block : n.toNat % 64 = 0 ∨ n = max_len
  before : ∀ i, i < len.toNat → buf'[i]? = buf[i]?
  behind : ∀ i, n.toNat ≤ i → buf'[i]? = buf[i]?
  mark : buf'[len.toNat]? = some 0x80
  zeros : ∀ i, len.toNat < i → i < n.toNat → buf'[i]? = some 0
  found : find_end buf' n.toNat = .ok len.toNat

section Pad

variable {buf : List UInt8} {len max_len : UInt32} {rndfunc : UInt32 → UInt32}

/-- The bound of the random number. -/
theorem bound_toNat (hroom : len.toNat + 8 ≤ max_len.toNat) :
    (max_len - len - 8 + 1).toNat = max_len.toNat - len.toNat - 8 + 1 := by
  have hmax := max_len.toNat_lt
  have h8 : (8 : UInt32).toNat = 8 := rfl
  have h1 : (1 : UInt32).toNat = 1 := rfl
  rw [UInt32.toNat_add, UInt32.toNat_sub, UInt32.toNat_sub, h8, h1]
  omega

/-- The length that is drawn is at most `max_len`. -/
theorem drawn_toNat (hroom : len.toNat + 8 ≤ max_len.toNat)
    (hrnd : ∀ n, 0 < n → rndfunc n < n) :
    (len + 8 + rndfunc (max_len - len - 8 + 1)).toNat
        = len.toNat + 8 + (rndfunc (max_len - len - 8 + 1)).toNat ∧
      len.toNat + 8 + (rndfunc (max_len - len - 8 + 1)).toNat ≤ max_len.toNat := by
  have hmax := max_len.toNat_lt
  have h8 : (8 : UInt32).toNat = 8 := rfl
  have hbound := bound_toNat hroom
  have hdraw := UInt32.lt_iff_toNat_lt.mp
    (hrnd (max_len - len - 8 + 1) (UInt32.lt_iff_toNat_lt.mpr (by rw [hbound]; exact Nat.succ_pos _)))
  refine ⟨?_, by omega⟩
  rw [UInt32.toNat_add, UInt32.toNat_add, h8]
  omega

/-- A drawn length below the last block is rounded up, and cut. -/
theorem padded_len_toNat (hroom : len.toNat + 8 ≤ max_len.toNat)
    (hrnd : ∀ n, 0 < n → rndfunc n < n) {d : ℕ}
    (hd : d = len.toNat + 8 + (rndfunc (max_len - len - 8 + 1)).toNat) (hdrawn : d < 4294967232) :
    (padded_len len max_len rndfunc).toNat = min max_len.toNat (d + (64 - d % 64)) := by
  obtain ⟨hsum, hle⟩ := drawn_toNat hroom hrnd
  unfold padded_len
  dsimp only
  rw [← hd] at hsum
  generalize len + 8 + rndfunc (max_len - len - 8 + 1) = padded at hsum ⊢
  have h64 : (64 : UInt32).toNat = 64 := rfl
  have hround : (padded + (64 - padded % 64)).toNat = d + (64 - d % 64) := by
    rw [UInt32.toNat_add, UInt32.toNat_sub, UInt32.toNat_mod, h64, hsum]
    omega
  by_cases hcut : padded + (64 - padded % 64) > max_len
  · have hcut' := UInt32.lt_iff_toNat_lt.mp hcut
    rw [if_pos hcut]
    omega
  · have hcut' := UInt32.le_iff_toNat_le.mp (UInt32.not_lt.mp hcut)
    rw [if_neg hcut]
    omega

theorem padded_len_spec (hroom : len.toNat + 8 ≤ max_len.toNat)
    (hrnd : ∀ n, 0 < n → rndfunc n < n)
    (hdrawn : len.toNat + 8 + (rndfunc (max_len - len - 8 + 1)).toNat < 4294967232) :
    len.toNat + 8 ≤ (padded_len len max_len rndfunc).toNat ∧
      padded_len len max_len rndfunc ≤ max_len ∧
      ((padded_len len max_len rndfunc).toNat % 64 = 0 ∨
        padded_len len max_len rndfunc = max_len) := by
  have hlen := padded_len_toNat hroom hrnd rfl hdrawn
  refine ⟨by omega, UInt32.le_iff_toNat_le.mpr (by omega), ?_⟩
  rw [← UInt32.toNat_inj]
  omega

/-- Rounding up in the last block gives 0. -/
theorem padded_len_wraps (hroom : len.toNat + 8 ≤ max_len.toNat)
    (hrnd : ∀ n, 0 < n → rndfunc n < n)
    (hdrawn : 4294967232 ≤ len.toNat + 8 + (rndfunc (max_len - len - 8 + 1)).toNat) :
    padded_len len max_len rndfunc = 0 := by
  obtain ⟨hsum, hle⟩ := drawn_toNat hroom hrnd
  have hmax := max_len.toNat_lt
  unfold padded_len
  dsimp only
  generalize len + 8 + rndfunc (max_len - len - 8 + 1) = d at hsum ⊢
  have h64 : (64 : UInt32).toNat = 64 := rfl
  have hround : d + (64 - d % 64) = 0 := by
    apply UInt32.toNat_inj.mp
    rw [UInt32.toNat_add, UInt32.toNat_sub, UInt32.toNat_mod, h64]
    show _ = 0
    omega
  rw [hround, if_neg]
  rw [gt_iff_lt, UInt32.lt_iff_toNat_lt]
  show ¬ max_len.toNat < 0
  omega

/-- The zeros and then the marker over the first of them. -/
theorem store_padding (buf : List UInt8) {off n : ℕ} (h₁ : off < n) (h₂ : n ≤ buf.length) :
    (do
      let buf ← store buf off (List.replicate (n - off) 0)
      store buf off [0x80])
      = .ok (buf.take off ++ 0x80 :: List.replicate (n - off - 1) 0 ++ buf.drop n) := by
  have hzeros : List.replicate (n - off) (0 : UInt8) = 0 :: List.replicate (n - off - 1) 0 := by
    rw [← List.replicate_succ]
    congr 1
    omega
  have htake : (buf.take off).length = off := by rw [List.length_take]; omega
  have hend : off + (n - off) = n := by omega
  rw [store, if_pos (by rw [List.length_replicate]; omega), Result.ok_bind,
    List.length_replicate, hend, hzeros, store, if_pos (by simp; omega)]
  congr 1
  have hleft : (buf.take off ++ 0 :: List.replicate (n - off - 1) 0 ++ buf.drop n).take off
      = buf.take off := by
    rw [List.append_assoc, List.take_append_of_le_length (by omega), List.take_take, min_self]
  have hright : (buf.take off ++ 0 :: List.replicate (n - off - 1) 0 ++ buf.drop n).drop
      (off + [(0x80 : UInt8)].length) = List.replicate (n - off - 1) 0 ++ buf.drop n := by
    have hdrop : off + [(0x80 : UInt8)].length
        = (buf.take off).length + 1 := by rw [htake]; rfl
    rw [hdrop, List.append_assoc, List.drop_length_add_append]
    rfl
  rw [hleft, hright]
  simp

/-- **The padded buffer.** -/
theorem pad_buffer_returns (hroom : len.toNat + 8 ≤ max_len.toNat)
    (hfit : max_len.toNat ≤ buf.length) (hrnd : ∀ n, 0 < n → rndfunc n < n)
    (hdrawn : len.toNat + 8 + (rndfunc (max_len - len - 8 + 1)).toNat < 4294967232) :
    pad_buffer buf len max_len rndfunc
      = .ok (buf.take len.toNat ++ 0x80 :: List.replicate
          ((padded_len len max_len rndfunc).toNat - len.toNat - 1) 0
          ++ buf.drop (padded_len len max_len rndfunc).toNat,
        padded_len len max_len rndfunc) := by
  obtain ⟨hlow, hhigh, -⟩ := padded_len_spec hroom hrnd hdrawn
  have hhigh' := UInt32.le_iff_toNat_le.mp hhigh
  have hpad : ¬ max_len < len + 8 := by
    have hmax := max_len.toNat_lt
    have h8 : (8 : UInt32).toNat = 8 := rfl
    rw [UInt32.lt_iff_toNat_lt, UInt32.toNat_add, h8]
    omega
  have hlen : (padded_len len max_len rndfunc - len).toNat
      = (padded_len len max_len rndfunc).toNat - len.toNat :=
    UInt32.toNat_sub_of_le _ _ (UInt32.le_iff_toNat_le.mpr (by omega))
  have hstore := store_padding buf (by omega : len.toNat < (padded_len len max_len rndfunc).toNat)
    (by omega)
  obtain ⟨b, hb, hb'⟩ := Result.bind_eq_ok.mp hstore
  rw [pad_buffer, if_neg hpad]
  dsimp only
  rw [hlen, hb, Result.ok_bind, hb', Result.ok_bind]

/-- Its bytes. -/
theorem padded_getElem? (buf : List UInt8) {off n : ℕ} (h₁ : off < n) (h₂ : n ≤ buf.length)
    (i : ℕ) :
    (buf.take off ++ 0x80 :: List.replicate (n - off - 1) 0 ++ buf.drop n)[i]?
      = if i < off then buf[i]? else if i = off then some 0x80
        else if i < n then some 0 else buf[i]? := by
  have htake : (buf.take off).length = off := by rw [List.length_take]; omega
  have hpad : (buf.take off ++ 0x80 :: List.replicate (n - off - 1) (0 : UInt8)).length = n := by
    rw [List.length_append, htake, List.length_cons, List.length_replicate]
    omega
  by_cases hbefore : i < off
  · rw [if_pos hbefore, List.append_assoc, List.getElem?_append_left (by omega),
      List.getElem?_take_of_lt hbefore]
  rw [if_neg hbefore]
  by_cases hbehind : n ≤ i
  · rw [if_neg (by omega), if_neg (by omega), List.getElem?_append_right (by omega), hpad,
      List.getElem?_drop]
    congr 1
    omega
  rw [List.getElem?_append_left (by omega), List.getElem?_append_right (by omega), htake]
  by_cases hmark : i = off
  · rw [if_pos hmark, hmark, Nat.sub_self]
    rfl
  · obtain ⟨j, hj⟩ : ∃ j, i - off = j + 1 := ⟨i - off - 1, by omega⟩
    rw [if_neg hmark, if_pos (by omega), hj, List.getElem?_cons_succ, List.getElem?_replicate,
      if_pos (by omega)]

/-- The padded buffer is as it should be. -/
theorem pads_of_drawn (hroom : len.toNat + 8 ≤ max_len.toNat)
    (hfit : max_len.toNat ≤ buf.length) (hrnd : ∀ n, 0 < n → rndfunc n < n)
    (hdrawn : len.toNat + 8 + (rndfunc (max_len - len - 8 + 1)).toNat < 4294967232) :
    ∃ buf' n, pad_buffer buf len max_len rndfunc = .ok (buf', n) ∧ Pads buf len max_len buf' n := by
  obtain ⟨hlow, hhigh, hblock⟩ := padded_len_spec hroom hrnd hdrawn
  refine ⟨_, _, pad_buffer_returns hroom hfit hrnd hdrawn, ?_⟩
  generalize padded_len len max_len rndfunc = n at hlow hhigh hblock
  have hhigh' := UInt32.le_iff_toNat_le.mp hhigh
  have hget := padded_getElem? buf (by omega : len.toNat < n.toNat) (by omega)
  have hmark := hget len.toNat
  rw [if_neg (by omega), if_pos rfl] at hmark
  have hzeros : ∀ i, len.toNat < i → i < n.toNat → (buf.take len.toNat ++ 0x80 ::
      List.replicate (n.toNat - len.toNat - 1) 0 ++ buf.drop n.toNat)[i]? = some 0 := by
    intro i h₁ h₂
    rw [hget i, if_neg (by omega), if_neg (by omega), if_pos h₂]
  refine ⟨hlow, hhigh, hblock, ?_, ?_, hmark, hzeros, ?_⟩
  · intro i hi
    rw [hget i, if_pos hi]
  · intro i hi
    rw [hget i, if_neg (by omega), if_neg (by omega), if_neg (by omega)]
  · have hsize : n.toNat ≤ (buf.take len.toNat ++ 0x80 ::
        List.replicate (n.toNat - len.toNat - 1) 0 ++ buf.drop n.toNat).length := by
      simp only [List.length_append, List.length_take, List.length_cons, List.length_replicate,
        List.length_drop]
      omega
    exact (find_end_eq_ok (by omega) hsize).mpr ⟨by omega, hmark, hzeros⟩

/-- With the length 0 nothing is as it should be. -/
theorem not_pads_of_drawn (hroom : len.toNat + 8 ≤ max_len.toNat)
    (hrnd : ∀ n, 0 < n → rndfunc n < n)
    (hdrawn : 4294967232 ≤ len.toNat + 8 + (rndfunc (max_len - len - 8 + 1)).toNat) :
    ¬ ∃ buf' n, pad_buffer buf len max_len rndfunc = .ok (buf', n) ∧
      Pads buf len max_len buf' n := by
  have hzero := padded_len_wraps hroom hrnd hdrawn
  rintro ⟨buf', n, hpad, hpads⟩
  have hlow := hpads.low
  unfold pad_buffer at hpad
  split_ifs at hpad with hshort
  · rw [← (Prod.mk.inj (Except.ok.inj hpad)).2] at hlow
    omega
  · obtain ⟨b₁, -, hpad⟩ := Result.bind_eq_ok.mp hpad
    obtain ⟨b₂, -, hpad⟩ := Result.bind_eq_ok.mp hpad
    rw [← (Prod.mk.inj (Except.ok.inj hpad)).2, hzero] at hlow
    have h₀ : (0 : UInt32).toNat = 0 := rfl
    omega

/-- **When a buffer is padded as it should be.** For every buffer with room for eight bytes more
than the message has, and every source of random numbers below their bound: the padding is well
placed and can be removed exactly when the length that is drawn is not in the last 64 bytes of
the 32-bit numbers. And for every buffer and size from 1 on: `find_end` reads no byte from `size`
on, and it succeeds exactly when the last of the bytes that is not zero is the marker, with the
place of that. -/
theorem pad_buffer_iff (hroom : len.toNat + 8 ≤ max_len.toNat)
    (hfit : max_len.toNat ≤ buf.length) (hrnd : ∀ n, 0 < n → rndfunc n < n) :
    ((∃ buf' n, pad_buffer buf len max_len rndfunc = .ok (buf', n) ∧
        Pads buf len max_len buf' n) ↔
      len.toNat + 8 + (rndfunc (max_len - len - 8 + 1)).toNat < 4294967232) ∧
    ∀ (b : List UInt8) (size : ℕ), 1 ≤ size → size ≤ b.length →
      (find_end (b.take size) size ≠ .error .overrun ∧
        find_end b size = find_end (b.take size) size) ∧
      ∀ e, find_end b size = .ok e ↔
        e < size ∧ b[e]? = some 0x80 ∧ ∀ i, e < i → i < size → b[i]? = some 0 := by
  refine ⟨⟨?_, pads_of_drawn hroom hfit hrnd⟩, ?_⟩
  · intro hpads
    by_contra hdrawn
    exact not_pads_of_drawn hroom hrnd (by omega) hpads
  · intro b size hsize hb
    exact ⟨find_end_safe hsize hb, fun e => find_end_eq_ok hsize hb⟩

end Pad

/-- A message of two bytes in a buffer of 100. -/
theorem pad_buffer_iff_sample : ∃ buf' n,
    pad_buffer (0x80 :: 0 :: List.replicate 98 7) 2 100 (fun _ => 0) = .ok (buf', n) ∧
      Pads (0x80 :: 0 :: List.replicate 98 7) 2 100 buf' n :=
  (pad_buffer_iff (by decide) (by decide) fun _ h => h).1.mpr (by decide)

/-- **In a buffer of 4 GiB** the longest padding of an empty message has the length 0. -/
theorem pad_buffer_wraps :
    ¬ ∃ buf' n, pad_buffer (List.replicate 4294967295 7) 0 4294967295 (fun n => n - 1)
        = .ok (buf', n) ∧ Pads (List.replicate 4294967295 7) 0 4294967295 buf' n := by
  have hrnd : ∀ n : UInt32, 0 < n → n - 1 < n := by
    intro n hn
    have h₀ : (0 : UInt32).toNat = 0 := rfl
    have h₁ : (1 : UInt32).toNat = 1 := rfl
    have hpos := UInt32.lt_iff_toNat_lt.mp hn
    have hlt := n.toNat_lt
    rw [UInt32.lt_iff_toNat_lt, UInt32.toNat_sub, h₁]
    omega
  exact not_pads_of_drawn (by decide) hrnd (by decide)

/-! ## The storage of a query -/

/-- The bytes of a storage, cut in two. -/
theorem take_slice (b : Buffer) (off : ℕ) {m n : ℕ} (h : m ≤ n) :
    (slice b off n).take m = slice b off m ∧ (slice b off n).drop m = slice b (off + m) (n - m) := by
  have hcut : slice b off n = slice b off m ++ slice b (off + m) (n - m) := by
    rw [← slice_add, Nat.add_sub_of_le h]
  rw [hcut]
  exact ⟨List.take_left' (slice_length b off m), List.drop_left' (slice_length b off m)⟩

/-- **On the storage of a query**, `detail.pad_buffer` does the same to the bytes from `base` on. -/
theorem pad_buffer_eq (buf : Buffer) {base len max_len : ℕ} {rnd : ℕ → ℕ}
    (hroom : len + 8 ≤ max_len) (hfit : base + max_len ≤ max_size)
    (hrnd : ∀ n, 0 < n → rnd n < n) :
    ∃ l n, pad_buffer (slice buf base max_len) (UInt32.ofNat len) (UInt32.ofNat max_len)
        (fun n => UInt32.ofNat (rnd n.toNat)) = .ok (l, n) ∧
      detail.pad_buffer buf base len max_len rnd = .ok (write buf base l, n.toNat) := by
  have hmax : max_size = 55535 := rfl
  have hdraw := hrnd (max_len - len - 8 + 1) (by omega)
  have hnat : ∀ n, n < 4294967296 → (UInt32.ofNat n).toNat = n := fun n h =>
    UInt32.toNat_ofNat_of_lt' h
  have e₁ := hnat len (by omega)
  have e₂ := hnat max_len (by omega)
  have hbelow : ∀ n : UInt32, 0 < n → UInt32.ofNat (rnd n.toNat) < n := by
    intro n hn
    have hlt := hrnd n.toNat (UInt32.lt_iff_toNat_lt.mp hn)
    have hn := n.toNat_lt
    rw [UInt32.lt_iff_toNat_lt, hnat _ (by omega)]
    exact hlt
  have hroom' : (UInt32.ofNat len).toNat + 8 ≤ (UInt32.ofNat max_len).toNat := by omega
  obtain ⟨hsum, hle⟩ := drawn_toNat hroom' hbelow
  have hpad := @pad_buffer_returns (slice buf base max_len) _ _ _ hroom'
    (by rw [slice_length]; omega) hbelow (by omega)
  refine ⟨_, _, hpad, ?_⟩
  -- both draw the same number, and the padded lengths are the same
  have hbound := bound_toNat hroom'
  rw [e₁, e₂] at hbound
  have hp := padded_len_toNat hroom' hbelow rfl (by omega)
  rw [hbound, e₁, e₂, hnat (rnd _) (by omega)] at hp
  have hwrite := detail.pad_buffer_write buf rnd hroom hfit rfl hp
  rw [hwrite, e₁]
  generalize padded_len (UInt32.ofNat len) (UInt32.ofNat max_len)
    (fun n => UInt32.ofNat (rnd n.toNat)) = n at hp
  have hlow : len + 8 ≤ n.toNat := by omega
  have hhigh : n.toNat ≤ max_len := by omega
  -- the bytes around the padding are written over themselves
  have hpadding : (0x80 :: List.replicate (n.toNat - len - 1) (0 : UInt8)).length
      = n.toNat - len := by
    rw [List.length_cons, List.length_replicate]
    omega
  have hend : base + len + (n.toNat - len) = base + n.toNat := by omega
  rw [(take_slice buf base (by omega : len ≤ max_len)).1, (take_slice buf base hhigh).2,
    List.append_assoc, write_append, write_slice, slice_length, write_append, hpadding, hend]
  have hsame : slice buf (base + n.toNat) (max_len - n.toNat)
      = slice (write buf (base + len) (0x80 :: List.replicate (n.toNat - len - 1) 0))
        (base + n.toNat) (max_len - n.toNat) :=
    (slice_write_disjoint buf (Or.inr (by rw [hpadding]; omega))).symm
  rw [hsame, write_slice]

/-- And so does `detail.find_end`. -/
theorem find_end_eq (buf : Buffer) {size : ℕ} (hsize : 1 ≤ size) :
    detail.find_end buf size = find_end (slice buf 0 size) size := by
  have hread : ∀ i, i < size → read (slice buf 0 size) i = .ok (buf i) := by
    intro i hi
    rw [read_eq (by rw [slice_length]; exact hi), ofList, slice_getD _ _ _ hi, Nat.zero_add]
  have hloop : ∀ n, n ≤ size →
      find_end_loop (slice buf 0 size) n = .ok (detail.find_end_loop buf n) := by
    intro n hn
    induction n with
    | zero => rfl
    | succ n ih =>
        rw [find_end_loop, hread n (by omega), Result.ok_bind, detail.find_end_loop, ih (by omega)]
        split_ifs
        · rfl
        · rfl
  have hlt := detail.find_end_loop_lt buf hsize
  rw [detail.find_end, find_end, hloop size (le_refl _), Result.ok_bind, hread _ hlt, Result.ok_bind]

end Cdns.checked
