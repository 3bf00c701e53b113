/-
Names and records on the wire: `query::get_rr_name`, `get_rr` and `get_rr_question`
(`dns/srcz/query.cpp`), byte by byte.

`Query.get_rr_name` and the others read a buffer that has a byte at every offset, so an access
outside the message would go unnoticed there. Here the message is a list of bytes, every access
is checked and fails with `overrun` behind the end, the label is read one character after the
other, and what is returned is cut to 16 bits. On the bytes of a query both are the same
(`get_rr_name_eq`, `get_rr_eq`, `get_rr_question_eq`).

`Labels` and `NameAt` say what a name on the wire is. The loop is followed once
(`get_rr_name_loop_spec`): at each offset inside the message the byte there decides whether the
name ends, goes on behind a label, or is not one.
-/
import Cdns.QuerySpec

set_option autoImplicit false

namespace Cdns.checked

open Lib.Storage Query

/-! ## The parsers -/

/-- `pkt[i]`. -/
def read (pkt : List UInt8) (i : ℕ) : Result UInt8 :=
  match pkt[i]? with
  | some b => .ok b
  | none => .error .overrun

/-- The `len` bytes from `off` on, all of them read. -/
def read_range (pkt : List UInt8) (off len : ℕ) : Result (List UInt8) :=
  if off + len ≤ pkt.length then .ok ((pkt.drop off).take len) else .error .overrun

/-- The loop over the characters of a label. -/
def read_label (pkt : List UInt8) : ℕ → ℕ → Str → Result Str
  | 0, _, owner => .ok owner
  | n + 1, p, owner => do
      let ch ← read pkt p
      if is_dns_char ch then read_label pkt n (p + 1) (owner ++ [char_of ch])
      else .error (.runtime_error "Invalid symbol in DNS name")

/-- The loop over the labels. It fails with `overrun` as well if it takes more turns than it is
given. -/
def get_rr_name_loop (pkt : List UInt8) : ℕ → ℕ → Str → Result (ℕ × Str)
  | 0, _, _ => .error .overrun
  | n + 1, offset, owner => do
      let pktlen := pkt.length
      let b ← read pkt offset
      let label_len := b.toNat
      if 192 ≤ label_len then
        if offset + 2 > pktlen then .error (.runtime_error "bla") else .ok (offset + 2, owner)
      else if 64 ≤ label_len then
        .error (.runtime_error ("Too long DNS label: " ++ toString label_len ++ ", offset: "
          ++ toString offset))
      else
        let next_offset := label_len + (offset + 1)
        if next_offset ≥ pktlen then
          .error (.runtime_error ("DNS label (" ++ toString label_len ++ "): "
            ++ String.ofList owner ++ " is outside of message bounds: " ++ toString next_offset
            ++ " >= " ++ toString pktlen))
        else if label_len = 0 then .ok (next_offset, owner)
        else do
          let owner ← read_label pkt label_len (offset + 1) owner
          let owner := owner ++ ['.']
          if owner.length > max_host_name_length then
            .error (.runtime_error "Too long DNS qname")
          else get_rr_name_loop pkt n next_offset owner

/-- `query::get_rr_name`. -/
def get_rr_name (pkt : List UInt8) (off : ℕ) : Result (ℕ × Str) :=
  if message_header.wire_size > pkt.length ∨ off + 1 ≥ pkt.length then
    .error (.runtime_error "Too short DNS message")
  else do
    let (offset, owner) ← get_rr_name_loop pkt pkt.length off []
    .ok (offset % 65536, owner)

/-- `query::get_rr`. -/
def get_rr (pkt : List UInt8) (off : ℕ) : Result (rr × ℕ) := do
  let (offset, owner) ← get_rr_name pkt off
  let o := offset + 10
  if o > pkt.length then
    .error (.runtime_error ("no rr, pkt size: " ++ toString pkt.length ++ ", expected: "
      ++ toString (offset + 10)))
  else do
    let header ← read_range pkt offset 10
    let header := ofList header
    let rdlength := be16 header 8
    let ttl := be32 header 4
    let e := o + rdlength
    if e > pkt.length then
      .error (.runtime_error ("Too long response: " ++ toString (swap16 rdlength) ++ ", TTL: "
        ++ toString (swap32 ttl)))
    else do
      let data ← read_range pkt o rdlength
      .ok ({ owner, type := be16 header 0, class_ := be16 header 2, ttl := int32 ttl, rdlength
             data, rr_off := offset }, e % 65536)

/-- `query::get_rr_question`. -/
def get_rr_question (pkt : List UInt8) (off : ℕ) : Result (rr × ℕ) := do
  let (offset, owner) ← get_rr_name pkt off
  if offset + 4 > pkt.length then
    .error (.runtime_error ("no rr, pkt size: " ++ toString pkt.length ++ ", expected: "
      ++ toString (offset + 10)))
  else do
    let header ← read_range pkt offset 4
    let header := ofList header
    .ok ({ owner, type := be16 header 0, class_ := be16 header 2, ttl := 0, rdlength := 0
           data := [], rr_off := offset }, (offset + 4) % 65536)

/-! ## Accesses inside the message -/

section Access

variable {pkt : List UInt8}

theorem read_eq {i : ℕ} (h : i < pkt.length) : read pkt i = .ok (ofList pkt i) := by
  rw [read, ofList, List.getElem?_eq_getElem h, List.getD_eq_getElem _ _ h]

theorem take_drop_eq_slice {off len : ℕ} (h : off + len ≤ pkt.length) :
    (pkt.drop off).take len = slice (ofList pkt) off len := by
  refine List.ext_getElem (by simp; omega) fun i h₁ h₂ => ?_
  have hi : i < len := by simpa using h₂
  rw [List.getElem_take, List.getElem_drop]
  simp only [slice, List.getElem_map, List.getElem_range, ofList]
  rw [List.getD_eq_getElem _ _ (by omega)]

theorem read_range_eq {off len : ℕ} (h : off + len ≤ pkt.length) :
    read_range pkt off len = .ok (slice (ofList pkt) off len) := by
  rw [read_range, if_pos h, take_drop_eq_slice h]

theorem read_label_eq {n p : ℕ} (owner : Str) (h : p + n ≤ pkt.length) :
    read_label pkt n p owner =
      if (slice (ofList pkt) p n).all is_dns_char then
        .ok (owner ++ (slice (ofList pkt) p n).map char_of)
      else .error (.runtime_error "Invalid symbol in DNS name") := by
  induction n generalizing p owner with
  | zero => simp [read_label, slice]
  | succ n ih =>
      rw [read_label, read_eq (by omega), Result.ok_bind, slice_succ, List.all_cons, List.map_cons]
      by_cases hch : is_dns_char (ofList pkt p) = true
      · rw [if_pos hch, ih _ (by omega), hch, Bool.true_and, List.append_assoc,
          List.singleton_append]
      · rw [if_neg hch, Bool.eq_false_iff.mpr hch, Bool.false_and, if_neg (by simp)]

/-- **Inside the message the checks change nothing.** -/
theorem get_rr_name_loop_eq {n off : ℕ} (owner : Str) (hoff : off < pkt.length)
    (hn : pkt.length ≤ off + n) :
    get_rr_name_loop pkt n off owner =
      Query.get_rr_name_loop (ofList pkt) pkt.length n off owner := by
  induction n generalizing off owner with
  | zero => omega
  | succ n ih =>
      rw [get_rr_name_loop, Query.get_rr_name_loop, read_eq hoff, Result.ok_bind]
      dsimp only
      split_ifs with h₁ h₂ h₃ h₄ h₅ h₆ h₇
      · rfl
      · rfl
      · rfl
      · rfl
      · rfl
      · rw [read_label_eq owner (by omega), if_pos h₆, Result.ok_bind, if_pos h₇]
      · rw [read_label_eq owner (by omega), if_pos h₆, Result.ok_bind, if_neg h₇]
        exact ih _ (by omega) (by omega)
      · rw [read_label_eq owner (by omega), if_neg h₆, Result.error_bind]

end Access

/-! ## Names on the wire -/

/-- **A sequence of labels** from the offset `off` to the offset `z`: each has a length byte of 1 to
63 and that many letters, digits or hyphens, and ends before the last byte of the message. -/
inductive Labels (pkt : List UInt8) : ℕ → List (List UInt8) → ℕ → Prop where
  | nil (z : ℕ) : Labels pkt z [] z
  | cons {off z : ℕ} {l : List UInt8} {ls : List (List UInt8)}
      (hlen : 1 ≤ l.length ∧ l.length ≤ 63) (hat : UInt8.ofNat l.length :: l <+: pkt.drop off)
      (hchars : ∀ b ∈ l, is_dns_char b = true) (hend : off + 1 + l.length < pkt.length)
      (hrest : Labels pkt (off + 1 + l.length) ls z) : Labels pkt off (l :: ls) z

/-- **The end of a name** at `z`, which is followed by the offset `e`: a zero byte that is not the
last one, or the first of two bytes that point elsewhere. -/
def Closes (pkt : List UInt8) (z e : ℕ) : Prop :=
  (pkt[z]? = some 0 ∧ z + 1 < pkt.length ∧ e = z + 1) ∨
    ∃ b, pkt[z]? = some b ∧ 192 ≤ b.toNat ∧ z + 2 ≤ pkt.length ∧ e = z + 2

/-- The text of labels, with a dot behind each. -/
def name_text (ls : List (List UInt8)) : Str := ls.flatMap fun l => l.map char_of ++ ['.']

/-- The labels from `off` on, behind the text `owner`, make up `owner'`, and the name ends
at `e`. -/
def Reads (pkt : List UInt8) (off : ℕ) (owner : Str) (e : ℕ) (owner' : Str) : Prop :=
  ∃ ls z, Labels pkt off ls z ∧ Closes pkt z e ∧ owner' = owner ++ name_text ls ∧
    owner'.length ≤ max_host_name_length

section Names

variable {pkt : List UInt8}

theorem getElem?_eq_ofList {i : ℕ} (h : i < pkt.length) : pkt[i]? = some (ofList pkt i) := by
  rw [ofList, List.getElem?_eq_getElem h, List.getD_eq_getElem _ _ h]

/-- A length byte and a label, read off the message. -/
theorem prefix_drop_iff {off : ℕ} {l : List UInt8} (hlen : l.length ≤ 63)
    (hend : off + 1 + l.length < pkt.length) :
    UInt8.ofNat l.length :: l <+: pkt.drop off ↔
      (ofList pkt off).toNat = l.length ∧ slice (ofList pkt) (off + 1) l.length = l := by
  have hbyte : (UInt8.ofNat l.length).toNat = l.length := by
    rw [UInt8.toNat_ofNat']
    omega
  have hdrop : pkt.drop off = ofList pkt off :: pkt.drop (off + 1) := by
    rw [List.drop_eq_getElem_cons (by omega), ofList, List.getD_eq_getElem _ _ (by omega)]
  rw [hdrop, List.cons_prefix_cons, List.prefix_iff_eq_take, take_drop_eq_slice (by omega)]
  constructor
  · rintro ⟨hb, hl⟩
    exact ⟨by rw [← hb, hbyte], hl.symm⟩
  · rintro ⟨hb, hl⟩
    exact ⟨UInt8.toNat_inj.mp (hbyte.trans hb.symm), hl.symm⟩

theorem Closes.lt {z e : ℕ} (h : Closes pkt z e) : z < pkt.length := by
  rcases h with ⟨-, hend, -⟩ | ⟨b, -, -, hend, -⟩
  · omega
  · omega

/-- The loop follows the labels. -/
theorem named_of_reads {off e : ℕ} {owner owner' : Str} (h : Reads pkt off owner e owner') :
    Named (ofList pkt) pkt.length off owner e owner' := by
  obtain ⟨ls, z, hls, hclose, howner, hshort⟩ := h
  induction hls generalizing owner with
  | nil z =>
      have hbyte := getElem?_eq_ofList hclose.lt
      rw [name_text, List.flatMap_nil, List.append_nil] at howner
      rw [howner]
      rcases hclose with ⟨hzero, hend, rfl⟩ | ⟨b, hptr, hb, hend, rfl⟩
      · rw [hbyte] at hzero
        refine .root ?_ hend
        rw [Option.some.inj hzero]
        rfl
      · rw [hbyte] at hptr
        refine .pointer ?_ hend
        rw [Option.some.inj hptr]
        exact hb
  | @cons off z l ls hlen hat hchars hend hrest ih =>
      obtain ⟨hb, hl⟩ := (prefix_drop_iff hlen.2 hend).mp hat
      have htext : owner' = owner ++ l.map char_of ++ ['.'] ++ name_text ls := by
        rw [howner, name_text, List.flatMap_cons, ← name_text]
        simp only [List.append_assoc]
      refine .label ?_ ?_ ?_ ?_ ?_
      · rw [hb]
        exact hlen
      · rw [hb]
        omega
      · rw [hb, hl]
        exact List.all_eq_true.mpr hchars
      · -- the text only grows
        rw [htext, List.length_append] at hshort
        rw [hb, hl]
        omega
      · rw [hb, hl, show l.length + (off + 1) = off + 1 + l.length by omega]
        exact ih hclose htext

/-- And what it follows are labels. -/
theorem reads_of_named {off e : ℕ} {owner owner' : Str}
    (h : Named (ofList pkt) pkt.length off owner e owner')
    (howner : owner.length ≤ max_host_name_length) : Reads pkt off owner e owner' := by
  induction h with
  | @pointer off owner hptr hend =>
      refine ⟨[], off, .nil off, Or.inr ⟨_, getElem?_eq_ofList (by omega), hptr, hend, rfl⟩, ?_, howner⟩
      rw [name_text, List.flatMap_nil, List.append_nil]
  | @root off owner hroot hend =>
      have hzero : ofList pkt off = 0 := UInt8.toNat_inj.mp hroot
      refine ⟨[], off, .nil off, Or.inl ⟨?_, hend, rfl⟩, ?_, howner⟩
      · rw [getElem?_eq_ofList (by omega), hzero]
      · rw [name_text, List.flatMap_nil, List.append_nil]
  | @label off o owner owner' hlen hend hchars hshort hrest ih =>
      obtain ⟨ls, z, hls, hclose, htext, hlimit⟩ := ih hshort
      have hlabel : (slice (ofList pkt) (off + 1) (ofList pkt off).toNat).length =
          (ofList pkt off).toNat := slice_length _ _ _
      refine ⟨slice (ofList pkt) (off + 1) (ofList pkt off).toNat :: ls, z,
        .cons (by rw [hlabel]; exact hlen) ?_ (List.all_eq_true.mp hchars) (by rw [hlabel]; omega) ?_,
        hclose, ?_, hlimit⟩
      · rw [prefix_drop_iff (by rw [hlabel]; exact hlen.2) (by rw [hlabel]; omega), hlabel]
        exact ⟨rfl, rfl⟩
      · rw [hlabel, Nat.add_comm (off + 1)]
        exact hls
      · rw [htext, name_text, name_text, List.flatMap_cons]
        simp only [List.append_assoc]

theorem get_rr_name_loop_ne_overrun {b : Buffer} {pktlen n off : ℕ} (owner : Str)
    (hoff : off < pktlen) (hn : pktlen ≤ off + n) :
    Query.get_rr_name_loop b pktlen n off owner ≠ .error .overrun := by
  induction n generalizing off owner with
  | zero => omega
  | succ n ih =>
      rw [Query.get_rr_name_loop]
      dsimp only
      split_ifs with h₁ h₂ h₃ h₄ h₅ h₆ h₇
      · simp
      · simp
      · simp
      · simp
      · simp
      · simp
      · exact ih _ (by omega) (by omega)
      · simp

/-- **The loop of `get_rr_name`** from an offset inside the message: it does not leave the message
and it ends, and it succeeds exactly on names. -/
theorem get_rr_name_loop_spec {n off e : ℕ} {owner owner' : Str} (hoff : off < pkt.length)
    (hn : pkt.length ≤ off + n) (howner : owner.length ≤ max_host_name_length) :
    get_rr_name_loop pkt n off owner ≠ .error .overrun ∧
      (get_rr_name_loop pkt n off owner = .ok (e, owner') ↔ Reads pkt off owner e owner') := by
  rw [get_rr_name_loop_eq owner hoff hn]
  refine ⟨get_rr_name_loop_ne_overrun owner hoff hn, ?_⟩
  constructor
  · intro h
    exact reads_of_named (named_of_loop h) howner
  · intro h
    exact (named_of_reads h).loop hn

/-- A name ends behind its start and inside the message. -/
theorem Reads.bounds {off e : ℕ} {owner owner' : Str} (h : Reads pkt off owner e owner') :
    off < e ∧ e ≤ pkt.length := (named_of_reads h).bounds

theorem get_rr_name_spec (hn : pkt.length ≤ 65535) (off e : ℕ) (owner : Str) :
    get_rr_name pkt off ≠ .error .overrun ∧
      (get_rr_name pkt off = .ok (e, owner) ↔
        12 ≤ pkt.length ∧ off + 1 < pkt.length ∧ Reads pkt off [] e owner) := by
  have hsize : message_header.wire_size = 12 := rfl
  rw [get_rr_name, hsize]
  split_ifs with h
  · refine ⟨by simp, iff_of_false (by simp) ?_⟩
    rintro ⟨h₁, h₂, -⟩
    omega
  · have hloop : ∀ e owner, get_rr_name_loop pkt pkt.length off [] ≠ .error .overrun ∧
        (get_rr_name_loop pkt pkt.length off [] = .ok (e, owner) ↔ Reads pkt off [] e owner) :=
      fun e owner => get_rr_name_loop_spec (by omega) (by omega) (Nat.zero_le _)
    -- an offset inside the message fits in 16 bits
    have hmod : ∀ {e owner}, Reads pkt off [] e owner → e % 65536 = e := fun hr =>
      Nat.mod_eq_of_lt (Nat.lt_of_le_of_lt hr.bounds.2 (by omega))
    constructor
    · intro herr
      rcases Result.bind_eq_error.mp herr with herr | ⟨p, -, herr⟩
      · exact (hloop 0 []).1 herr
      · exact absurd herr (by simp)
    · constructor
      · intro hok
        obtain ⟨⟨o, text⟩, hl, heq⟩ := Result.bind_eq_ok.mp hok
        have hreads := (hloop o text).2.mp hl
        obtain ⟨ho, rfl⟩ := Prod.mk.inj (Except.ok.inj heq)
        rw [hmod hreads] at ho
        rw [← ho]
        exact ⟨by omega, by omega, hreads⟩
      · rintro ⟨-, -, hreads⟩
        rw [(hloop e owner).2.mpr hreads, Result.ok_bind]
        dsimp only
        rw [hmod hreads]

theorem get_rr_name_bounds (hn : pkt.length ≤ 65535) {off e : ℕ} {owner : Str}
    (h : get_rr_name pkt off = .ok (e, owner)) : off < e ∧ e ≤ pkt.length :=
  ((get_rr_name_spec hn off e owner).2.mp h).2.2.bounds

end Names

/-! ## Records on the wire -/

section Records

variable {pkt : List UInt8}

/-- A number in a header that was copied out of a message. -/
theorem be16_header (b : Buffer) {off len k : ℕ} (h : k + 1 < len) :
    be16 (ofList (slice b off len)) k = be16 b (off + k) := by
  have hbyte : ∀ i, i < len → ofList (slice b off len) i = b (off + i) := fun i hi =>
    slice_getD b off len hi 0
  rw [be16, be16, hbyte k (by omega), hbyte (k + 1) h, Nat.add_assoc]

/-- Without a name there is no record. -/
theorem no_name (hn : pkt.length ≤ 65535) {off : ℕ} {what : Exn} (P : ℕ → Prop)
    (h : get_rr_name pkt off = .error what) :
    what ≠ .overrun ∧ ¬ ∃ o owner, get_rr_name pkt off = .ok (o, owner) ∧ P o := by
  constructor
  · rintro rfl
    exact (get_rr_name_spec hn off 0 []).1 h
  · rintro ⟨o, owner, hok, -⟩
    rw [h] at hok
    exact absurd hok (by simp)

/-- What `get_rr` does behind the name. -/
theorem get_rr_cases (hn : pkt.length ≤ 65535) (off : ℕ) :
    (∃ what, get_rr pkt off = .error what ∧ what ≠ .overrun ∧
      ¬ ∃ o owner, get_rr_name pkt off = .ok (o, owner) ∧ o + 10 ≤ pkt.length ∧
        o + 10 + be16 (ofList pkt) (o + 8) ≤ pkt.length) ∨
    ∃ o owner r, get_rr_name pkt off = .ok (o, owner) ∧ o + 10 ≤ pkt.length ∧
      o + 10 + be16 (ofList pkt) (o + 8) ≤ pkt.length ∧
      get_rr pkt off = .ok (r, o + 10 + be16 (ofList pkt) (o + 8)) := by
  rw [get_rr]
  cases hname : get_rr_name pkt off with
  | error what => exact Or.inl ⟨what, rfl, hname ▸ no_name hn _ hname⟩
  | ok p =>
      obtain ⟨o, owner⟩ := p
      rw [Result.ok_bind]
      dsimp only
      have hsame : ∀ {o' owner'}, (Except.ok (o, owner) : Result (ℕ × Str)) = .ok (o', owner') →
          o = o' := fun h => (Prod.mk.inj (Except.ok.inj h)).1
      by_cases ho : o + 10 > pkt.length
      · rw [if_pos ho]
        refine Or.inl ⟨_, rfl, by simp, ?_⟩
        rintro ⟨o', owner', h, hfit, -⟩
        rw [← hsame h] at hfit
        omega
      · rw [if_neg ho, read_range_eq (by omega), Result.ok_bind, be16_header _ (by omega)]
        by_cases he : o + 10 + be16 (ofList pkt) (o + 8) > pkt.length
        · rw [if_pos he]
          refine Or.inl ⟨_, rfl, by simp, ?_⟩
          rintro ⟨o', owner', h, -, hfit⟩
          rw [← hsame h] at hfit
          omega
        · rw [if_neg he, read_range_eq (by omega), Result.ok_bind,
            Nat.mod_eq_of_lt (by omega : o + 10 + be16 (ofList pkt) (o + 8) < 65536)]
          exact Or.inr ⟨o, owner, _, rfl, by omega, by omega, rfl⟩

/-- What `get_rr_question` does behind the name. -/
theorem get_rr_question_cases (hn : pkt.length ≤ 65535) (off : ℕ) :
    (∃ what, get_rr_question pkt off = .error what ∧ what ≠ .overrun ∧
      ¬ ∃ o owner, get_rr_name pkt off = .ok (o, owner) ∧ o + 4 ≤ pkt.length) ∨
    ∃ o owner r, get_rr_name pkt off = .ok (o, owner) ∧ o + 4 ≤ pkt.length ∧
      get_rr_question pkt off = .ok (r, o + 4) := by
  rw [get_rr_question]
  cases hname : get_rr_name pkt off with
  | error what => exact Or.inl ⟨what, rfl, hname ▸ no_name hn _ hname⟩
  | ok p =>
      obtain ⟨o, owner⟩ := p
      rw [Result.ok_bind]
      dsimp only
      by_cases ho : o + 4 > pkt.length
      · rw [if_pos ho]
        refine Or.inl ⟨_, rfl, by simp, ?_⟩
        rintro ⟨o', owner', h, hfit⟩
        rw [← (Prod.mk.inj (Except.ok.inj h)).1] at hfit
        omega
      · rw [if_neg ho, read_range_eq (by omega), Result.ok_bind,
          Nat.mod_eq_of_lt (by omega : o + 4 < 65536)]
        exact Or.inr ⟨o, owner, _, rfl, by omega, rfl⟩

/-- **The parsers of names and records are safe and exact.** On every message of at most 65535 bytes
and from every offset, no access is outside the message and the loops end. A name is read exactly
when there is one, and it is its labels with a dot behind each; a record or a question is read
exactly when its name is and the rest of it is inside the message, and what is returned is an
offset behind the first one and not behind the end. -/
theorem parsers_exact (hn : pkt.length ≤ 65535) (off : ℕ) :
    (get_rr_name pkt off ≠ .error .overrun ∧ get_rr pkt off ≠ .error .overrun ∧
      get_rr_question pkt off ≠ .error .overrun) ∧
    (∀ e owner, get_rr_name pkt off = .ok (e, owner) ↔
      12 ≤ pkt.length ∧ off + 1 < pkt.length ∧ ∃ ls z, Labels pkt off ls z ∧
        (name_text ls).length ≤ 256 ∧ Closes pkt z e ∧ owner = name_text ls) ∧
    ((get_rr pkt off).returns ↔ ∃ o owner, get_rr_name pkt off = .ok (o, owner) ∧
      o + 10 ≤ pkt.length ∧ o + 10 + be16 (ofList pkt) (o + 8) ≤ pkt.length) ∧
    ((get_rr_question pkt off).returns ↔ ∃ o owner, get_rr_name pkt off = .ok (o, owner) ∧
      o + 4 ≤ pkt.length) ∧
    ∀ r e, get_rr pkt off = .ok (r, e) ∨ get_rr_question pkt off = .ok (r, e) →
      off < e ∧ e ≤ pkt.length := by
  have hrr := get_rr_cases hn off
  have hquestion := get_rr_question_cases hn off
  refine ⟨⟨(get_rr_name_spec hn off 0 []).1, ?_, ?_⟩, ?_, ?_, ?_, ?_⟩
  · rcases hrr with ⟨what, hwhat, hne, -⟩ | ⟨o, owner, r, -, -, -, hok⟩
    · rw [hwhat]
      exact fun h => hne (Except.error.inj h)
    · rw [hok]
      simp
  · rcases hquestion with ⟨what, hwhat, hne, -⟩ | ⟨o, owner, r, -, -, hok⟩
    · rw [hwhat]
      exact fun h => hne (Except.error.inj h)
    · rw [hok]
      simp
  · intro e owner
    rw [(get_rr_name_spec hn off e owner).2]
    refine and_congr_right fun _ => and_congr_right fun _ => ?_
    refine exists_congr fun ls => exists_congr fun z => and_congr_right fun _ => ?_
    constructor
    · rintro ⟨hclose, rfl, hshort⟩
      exact ⟨hshort, hclose, rfl⟩
    · rintro ⟨hshort, hclose, rfl⟩
      exact ⟨hclose, rfl, hshort⟩
  · rcases hrr with ⟨what, hwhat, -, hnone⟩ | ⟨o, owner, r, hname, ho, he, hok⟩
    · rw [hwhat]
      exact iff_of_false (Result.not_returns_error what) hnone
    · exact iff_of_true ⟨_, hok⟩ ⟨o, owner, hname, ho, he⟩
  · rcases hquestion with ⟨what, hwhat, -, hnone⟩ | ⟨o, owner, r, hname, ho, hok⟩
    · rw [hwhat]
      exact iff_of_false (Result.not_returns_error what) hnone
    · exact iff_of_true ⟨_, hok⟩ ⟨o, owner, hname, ho⟩
  · rintro r e (h | h)
    · rcases hrr with ⟨what, hwhat, -, -⟩ | ⟨o, owner, r', hname, -, he, hok⟩
      · rw [hwhat] at h
        exact absurd h (by simp)
      · rw [hok] at h
        obtain ⟨-, rfl⟩ := Prod.mk.inj (Except.ok.inj h)
        have := (get_rr_name_bounds hn hname).1
        omega
    · rcases hquestion with ⟨what, hwhat, -, -⟩ | ⟨o, owner, r', hname, he, hok⟩
      · rw [hwhat] at h
        exact absurd h (by simp)
      · rw [hok] at h
        obtain ⟨-, rfl⟩ := Prod.mk.inj (Except.ok.inj h)
        have := (get_rr_name_bounds hn hname).1
        omega

end Records

/-! ### The question `a.` -/

/-- A header and the question `a.` A IN. -/
def sampleWire : List UInt8 := [0, 1, 1, 0, 0, 1, 0, 0, 0, 0, 0, 0, 1, 97, 0, 0, 1, 0, 1]

/-- Its name is read, and so is the question. -/
theorem parsers_exact_question :
    get_rr_name sampleWire 12 = .ok (15, ['a', '.']) ∧ (get_rr_question sampleWire 12).returns := by
  obtain ⟨-, hname, -, hquestion, -⟩ := parsers_exact (by decide : sampleWire.length ≤ 65535) 12
  have hlabels : Labels sampleWire 12 [[97]] 14 :=
    .cons (by decide) (by decide) (List.all_iff_forall_prop.mp (by decide)) (by decide) (.nil 14)
  have hread : get_rr_name sampleWire 12 = .ok (15, ['a', '.']) := by
    rw [hname]
    exact ⟨by decide, by decide, [[97]], 14, hlabels, by decide, Or.inl (by decide), by decide⟩
  exact ⟨hread, hquestion.mpr ⟨15, ['a', '.'], hread, by decide⟩⟩

end Cdns.checked

/-! ## The bytes of a query -/

namespace Cdns.Query

open Lib.Storage

variable (q : Query) (off : ℕ)

theorem ofList_wire {i : ℕ} (h : i < q.size) : ofList q.wire i = q.bytes i := by
  have hi := slice_getD q.bytes 0 q.size h 0
  rw [Nat.zero_add] at hi
  exact hi

theorem size_lt : q.size < 65536 := Nat.lt_of_le_of_lt q.size_le (by decide)

/-- **On the bytes of a query the checked parser is the parser of the query.** -/
theorem get_rr_name_eq : checked.get_rr_name q.wire off = q.get_rr_name off := by
  rw [checked.get_rr_name, get_rr_name, wire_length]
  split_ifs with h
  · rfl
  · have hoff : off < q.wire.length := by
      rw [wire_length]
      omega
    have hloop := checked.get_rr_name_loop_eq [] hoff (Nat.le_add_left _ off)
    rw [wire_length] at hloop
    rw [hloop, get_rr_name_loop_congr q.size [] (by omega) fun i _ hi => ofList_wire q hi]
    cases hl : get_rr_name_loop q.bytes q.size q.size off [] with
    | error what => rfl
    | ok p =>
        obtain ⟨o, owner⟩ := p
        have hend := (named_of_loop hl).bounds.2
        have hsize := q.size_lt
        rw [Result.ok_bind]
        dsimp only
        rw [Nat.mod_eq_of_lt (by omega)]

theorem slice_wire {o len : ℕ} (h : o + len ≤ q.size) :
    slice (ofList q.wire) o len = slice q.bytes o len :=
  slice_congr fun _ _ hi => ofList_wire q (by omega)

/-- The header of a record, read at once or number by number. -/
theorem header_eq {o len : ℕ} (h : o + len ≤ q.size) {k : ℕ} (hk : k + 1 < len) :
    be16 (ofList (slice (ofList q.wire) o len)) k = be16 q.bytes (o + k) := by
  rw [slice_wire q h, checked.be16_header q.bytes hk]

theorem get_rr_eq : checked.get_rr q.wire off = q.get_rr off := by
  have hsize := q.size_lt
  rw [checked.get_rr, get_rr, get_rr_name_eq, wire_length]
  cases q.get_rr_name off with
  | error what => rfl
  | ok p =>
      obtain ⟨o, owner⟩ := p
      rw [Result.ok_bind, Result.ok_bind]
      dsimp only
      by_cases ho : o + 10 > q.size
      · rw [if_pos ho, if_pos ho]
      · have hin : o + 10 ≤ q.size := by omega
        have hin' : o + 10 ≤ q.wire.length := by rw [wire_length]; exact hin
        rw [if_neg ho, if_neg ho, checked.read_range_eq hin', Result.ok_bind, be32, be32,
          header_eq q hin (by decide), header_eq q hin (by decide), header_eq q hin (by decide),
          header_eq q hin (by decide), header_eq q hin (by decide), Nat.add_assoc o 4 2]
        by_cases he : o + 10 + be16 q.bytes (o + 8) > q.size
        · rw [if_pos he, if_pos he]
        · have hdata : o + 10 + be16 q.bytes (o + 8) ≤ q.wire.length := by
            rw [wire_length]
            omega
          rw [if_neg he, if_neg he, checked.read_range_eq hdata, Result.ok_bind,
            slice_wire q (by omega), Nat.mod_eq_of_lt (by omega)]
          rfl

theorem get_rr_question_eq : checked.get_rr_question q.wire off = q.get_rr_question off := by
  have hsize := q.size_lt
  rw [checked.get_rr_question, get_rr_question, get_rr_name_eq, wire_length]
  cases q.get_rr_name off with
  | error what => rfl
  | ok p =>
      obtain ⟨o, owner⟩ := p
      rw [Result.ok_bind, Result.ok_bind]
      dsimp only
      by_cases ho : o + 4 > q.size
      · rw [if_pos ho, if_pos ho]
      · have hin : o + 4 ≤ q.size := by omega
        have hin' : o + 4 ≤ q.wire.length := by rw [wire_length]; exact hin
        rw [if_neg ho, if_neg ho, checked.read_range_eq hin', Result.ok_bind,
          header_eq q hin (by decide), header_eq q hin (by decide),
          Nat.mod_eq_of_lt (by omega)]
        rfl

end Cdns.Query
