/-
The constructor `dns::query (hostname, type, id)` (`dns/srcz/query.cpp`): a question
about a host name.

The constructor copies the text one byte further than it stands, so that every dot
falls on the place of a label length, and fills in the length of a label when it
meets the dot behind it. `split` is the text as the constructor takes it apart: the
labels that end in a dot, and what is left. What it builds is then the labels on the
wire (`of_hostname_wire`), which the parser takes back one label at a time
(`get_rr_name_loop_labels`).

The two sides have limits of their own. The constructor takes 256 characters without
counting a missing final dot, and takes empty labels; the parser counts the dot and
ends the name at an empty label. `get_question_of_hostname_iff` says which of the names
that are taken can be read back.
-/
import Cdns.AnswerSpec

set_option autoImplicit false

namespace Cdns

open Lib.Storage

namespace Query

/-! ## The constructor -/

/-- `static_cast <std::uint8_t> (ch)`. -/
def byte_of (ch : Char) : UInt8 := UInt8.ofNat ch.toNat

/-- `is_dns_char` of a character of a `std::string`, which is a byte. -/
def is_hostname_char (ch : Char) : Bool := ch.toNat < 256 && is_dns_char (byte_of ch)

/-- The loop over the characters of the name: the offset of the last label, and the
storage. -/
def hostname_loop : Str → ℕ → ℕ → Buffer → Result (ℕ × Buffer)
  | [], _, label_off, b => .ok (label_off, b)
  | ch :: rest, i, label_off, b =>
      if ch = '.' then
        let label_len_tmp := i - label_off
        if 64 ≤ label_len_tmp then .error (.runtime_error "too large DNS label")
        else do
          let b ← put b (message_header.wire_size + label_off) [UInt8.ofNat label_len_tmp]
          hostname_loop rest (i + 1) (i + 1) b
      else if is_hostname_char ch then do
        let b ← put b (message_header.wire_size + i + 1) [byte_of ch]
        hostname_loop rest (i + 1) label_off b
      else .error (.runtime_error "not a dns char")

/-- What follows the loop: the length of a label without a dot, and the empty label
that ends the name. -/
def end_hostname (hostname : Str) (label_off : ℕ) (b : Buffer) : Result (ℕ × Buffer) :=
  if label_off ≠ hostname.length then
    let label_len_tmp := hostname.length - label_off
    if 64 ≤ label_len_tmp then .error (.runtime_error "too large DNS label")
    else do
      let b ← put b (message_header.wire_size + label_off) [UInt8.ofNat label_len_tmp]
      let label_off := 1 + hostname.length
      let b ← put b (message_header.wire_size + label_off) [0]
      .ok (label_off, b)
  else do
    let b ← put b (message_header.wire_size + label_off) [0]
    .ok (label_off, b)

/-- The header of a question. -/
def question_header (id : ℕ) : message_header :=
  { id, rd := false, tc := false, aa := false, opcode := 0, qr := false, rcode := 0, z := 0
    ra := false, qdcount := 1, ancount := 0, nscount := 0, arcount := 0 }

/-- `query (hostname, typ, id)`. -/
def of_hostname (hostname : Str) (typ id : ℕ) : Result Query :=
  if hostname.length > max_host_name_length then
    .error (.runtime_error ("Too long hostname: " ++ String.ofList hostname))
  else do
    let b := (empty.set_header (question_header id)).bytes
    let b ← put b message_header.wire_size [0]
    let (label_off, b) ← hostname_loop hostname 0 0 b
    let (label_off, b) ← end_hostname hostname label_off b
    let b ← put b (message_header.wire_size + label_off + 1)
      (bytes16 typ ++ bytes16 rr_class.internet.code)
    let new_size := message_header.wire_size + 1 + label_off + 4
    if max_size < new_size then .error (.runtime_error "too long DNS message")
    else set_size b new_size

/-! ## Names as lists of labels -/

/-- The labels of a text that end in a dot, the first of them begun with `cur`, and
what follows the last dot. -/
def split (cur : Str) : Str → List Str × Str
  | [] => ([], cur)
  | ch :: rest =>
      if ch = '.' then
        let p := split [] rest
        (cur :: p.1, p.2)
      else split (cur ++ [ch]) rest

/-- The labels of a host name. A final dot begins no further label. -/
def labels (hostname : Str) : List Str :=
  let p := split [] hostname
  if p.2 = [] then p.1 else p.1 ++ [p.2]

/-- The text of labels, with a dot behind each. -/
def dotted (ls : List Str) : Str := ls.flatMap fun l => l ++ ['.']

/-- Labels on the wire, without the empty one that ends a name. -/
def labels_wire (ls : List Str) : List UInt8 :=
  ls.flatMap fun l => UInt8.ofNat l.length :: l.map byte_of

/-- The name with a final dot. -/
def with_dot (hostname : Str) : Str :=
  if hostname.getLast? = some '.' then hostname else hostname ++ ['.']

theorem dotted_append (ls ms : List Str) : dotted (ls ++ ms) = dotted ls ++ dotted ms :=
  List.flatMap_append

theorem labels_wire_append (ls ms : List Str) :
    labels_wire (ls ++ ms) = labels_wire ls ++ labels_wire ms := List.flatMap_append

@[simp] theorem dotted_nil : dotted [] = [] := rfl

@[simp] theorem dotted_cons (l : Str) (ls : List Str) : dotted (l :: ls) = l ++ '.' :: dotted ls := by
  rw [dotted, List.flatMap_cons, List.append_assoc]
  rfl

theorem dotted_cons_length (l : Str) (ls : List Str) :
    (dotted (l :: ls)).length = l.length + 1 + (dotted ls).length := by
  rw [dotted_cons, List.length_append, List.length_cons]
  omega

@[simp] theorem labels_wire_nil : labels_wire [] = [] := rfl

@[simp] theorem labels_wire_cons (l : Str) (ls : List Str) :
    labels_wire (l :: ls) = UInt8.ofNat l.length :: l.map byte_of ++ labels_wire ls := rfl

/-- A label takes as many bytes as characters with its dot. -/
@[simp] theorem labels_wire_length (ls : List Str) : (labels_wire ls).length = (dotted ls).length := by
  induction ls with
  | nil => rfl
  | cons l ls ih =>
      simp only [labels_wire_cons, dotted_cons, List.length_append, List.length_cons,
        List.length_map, ih]
      omega

theorem length_le_dotted (ls : List Str) : ls.length ≤ (dotted ls).length := by
  induction ls with
  | nil => simp
  | cons l ls ih =>
      simp only [dotted_cons, List.length_append, List.length_cons]
      omega

/-- The parts of a text make it up. -/
theorem split_eq (cur rest : Str) :
    dotted (split cur rest).1 ++ (split cur rest).2 = cur ++ rest := by
  induction rest generalizing cur with
  | nil => simp [split]
  | cons ch rest ih =>
      rw [split]
      by_cases hdot : ch = '.'
      · rw [if_pos hdot]
        simp [ih, hdot]
      · rw [if_neg hdot, ih]
        simp

/-- No part holds a dot: its characters are those of `cur`, or others than a dot. -/
theorem split_mem (cur rest : Str) :
    ∀ l, l ∈ (split cur rest).1 ∨ l = (split cur rest).2 →
      ∀ ch ∈ l, ch ∈ cur ∨ ch ∈ rest ∧ ch ≠ '.' := by
  induction rest generalizing cur with
  | nil =>
      intro l hl ch hch
      rw [split] at hl
      rcases hl with hl | rfl
      · exact absurd hl (by simp)
      · exact Or.inl hch
  | cons c rest ih =>
      intro l hl ch hch
      rw [split] at hl
      by_cases hdot : c = '.'
      · rw [if_pos hdot] at hl
        -- the label that the dot ends is `cur`
        have hcases : l = cur ∨ l ∈ (split [] rest).1 ∨ l = (split [] rest).2 := by
          simpa [or_assoc] using hl
        rcases hcases with rfl | hl
        · exact Or.inl hch
        · rcases ih [] l hl ch hch with h | ⟨h₁, h₂⟩
          · exact absurd h (by simp)
          · exact Or.inr ⟨List.mem_cons_of_mem _ h₁, h₂⟩
      · rw [if_neg hdot] at hl
        rcases ih _ l hl ch hch with h | ⟨h₁, h₂⟩
        · rcases List.mem_append.mp h with h | h
          · exact Or.inl h
          · rw [List.mem_singleton.mp h]
            exact Or.inr ⟨by simp, hdot⟩
        · exact Or.inr ⟨List.mem_cons_of_mem _ h₁, h₂⟩

theorem dotted_getLast {ls : List Str} (h : ls ≠ []) : (dotted ls).getLast? = some '.' := by
  obtain ⟨l, ls', rfl⟩ := List.exists_cons_of_ne_nil h
  induction ls' generalizing l with
  | nil => simp
  | cons l' ls ih =>
      rw [dotted_cons, List.getLast?_append, List.getLast?_cons, ih l' (by simp)]
      rfl

/-- **Labels and text**: the labels of a host name, each with a dot, are the name with
a final dot. -/
theorem dotted_labels {hostname : Str} (h : hostname ≠ []) :
    dotted (labels hostname) = with_dot hostname := by
  have heq := split_eq [] hostname
  rw [List.nil_append] at heq
  rw [labels, with_dot]
  by_cases hlast : (split [] hostname).2 = []
  · -- the name is made of labels with dots
    rw [hlast, List.append_nil] at heq
    have hne : (split [] hostname).1 ≠ [] := by
      intro hnil
      rw [hnil] at heq
      exact h heq.symm
    have hdot : hostname.getLast? = some '.' := by
      rw [← heq]
      exact dotted_getLast hne
    rw [if_pos hlast, if_pos hdot, heq]
  · -- what follows the last dot does not end in one
    have hdot : hostname.getLast? ≠ some '.' := by
      intro hdot
      rw [← heq, List.getLast?_append_of_ne_nil _ hlast] at hdot
      have hmem := List.mem_of_getLast? hdot
      rcases split_mem [] hostname _ (Or.inr rfl) '.' hmem with h' | ⟨-, h'⟩
      · exact absurd h' (by simp)
      · exact h' rfl
    rw [if_neg hlast, if_neg hdot, dotted_append, dotted_cons, dotted_nil, ← List.append_assoc,
      heq]

/-- The characters of the labels are those of the name. -/
theorem labels_mem {hostname l : Str} (hl : l ∈ labels hostname) {ch : Char} (hch : ch ∈ l) :
    ch ∈ hostname ∧ ch ≠ '.' := by
  have hparts : l ∈ (split [] hostname).1 ∨ l = (split [] hostname).2 := by
    rw [labels] at hl
    split_ifs at hl with hlast
    · exact Or.inl hl
    · simpa using hl
  rcases split_mem [] hostname l hparts ch hch with h | h
  · exact absurd h (by simp)
  · exact h

/-! ## What the constructor builds

`Encoded b done cur`: the storage holds the labels `done` behind the header, and behind
the place of a length the characters `cur`. -/

/-- The loop has stored `done`, and is in the label `cur`. -/
structure Encoded (b : Buffer) (done : List Str) (cur : Str) : Prop where
  done_eq : slice b 12 (dotted done).length = labels_wire done
  cur_eq : slice b (13 + (dotted done).length) cur.length = cur.map byte_of

/-- The length of the label completes it. -/
theorem Encoded.close {b : Buffer} {done : List Str} {cur : Str} (h : Encoded b done cur) :
    Encoded (write b (12 + (dotted done).length) [UInt8.ofNat cur.length]) (done ++ [cur]) [] where
  done_eq := by
    have hlen : (dotted (done ++ [cur])).length = (dotted done).length + (1 + cur.length) := by
      rw [dotted_append, dotted_cons, dotted_nil]
      simp only [List.length_append, List.length_cons, List.length_nil]
      omega
    have hcur : slice b (12 + (dotted done).length + 1) cur.length = cur.map byte_of := by
      rw [← h.cur_eq]
      congr 1
      omega
    have hlength := slice_write_same b (12 + (dotted done).length) [UInt8.ofNat cur.length]
    rw [List.length_singleton] at hlength
    rw [hlen, slice_add, slice_write_disjoint _ (by left; omega), h.done_eq, slice_add, hlength,
      slice_write_disjoint _ (by right; rw [List.length_singleton]), hcur, labels_wire_append]
    simp
  cur_eq := rfl

/-- A character more in the label. -/
theorem Encoded.push {b : Buffer} {done : List Str} {cur : Str} (h : Encoded b done cur)
    (ch : Char) :
    Encoded (write b (13 + ((dotted done).length + cur.length)) [byte_of ch]) done (cur ++ [ch]) where
  done_eq := by
    rw [slice_write_disjoint _ (by left; omega), h.done_eq]
  cur_eq := by
    have hchar := slice_write_same b (13 + ((dotted done).length + cur.length)) [byte_of ch]
    rw [List.length_singleton, ← Nat.add_assoc] at hchar
    rw [List.length_append, slice_add, slice_write_disjoint _ (by left; omega), h.cur_eq,
      List.map_append, List.length_singleton, ← Nat.add_assoc, hchar]
    rfl

theorem hostname_loop_returns {rest : Str} {i label_off : ℕ} {b : Buffer} {cur : Str}
    (hi : i = label_off + cur.length) (hroom : 13 + i + rest.length ≤ max_size) :
    (hostname_loop rest i label_off b).returns ↔
      (∀ ch ∈ rest, ch = '.' ∨ is_hostname_char ch = true) ∧
        ∀ l ∈ (split cur rest).1, l.length < 64 := by
  have e₁ : message_header.wire_size = 12 := rfl
  induction rest generalizing i label_off b cur with
  | nil =>
      rw [hostname_loop, split]
      simp
  | cons ch rest ih =>
      rw [List.length_cons] at hroom
      rw [hostname_loop, split]
      by_cases hdot : ch = '.'
      · rw [if_pos hdot, if_pos hdot]
        dsimp only
        have hlen : i - label_off = cur.length := by omega
        by_cases hlong : 64 ≤ i - label_off
        · rw [if_pos hlong]
          refine iff_of_false (Result.not_returns_error _) ?_
          rintro ⟨-, hlabels⟩
          have := hlabels cur (by simp)
          omega
        · rw [if_neg hlong, put_eq_ok _ (by simp only [List.length_singleton]; omega),
            Result.ok_bind, List.forall_mem_cons, List.forall_mem_cons]
          have hcur : cur.length < 64 := by omega
          simp only [hdot, true_or, true_and, hcur]
          exact @ih _ _ _ [] (by simp) (by omega)
      · rw [if_neg hdot, if_neg hdot]
        by_cases hchar : is_hostname_char ch = true
        · rw [if_pos hchar, put_eq_ok _ (by simp only [List.length_singleton]; omega),
            Result.ok_bind, List.forall_mem_cons]
          simp only [hchar, or_true, true_and]
          exact ih (by rw [List.length_append, List.length_singleton]; omega) (by omega)
        · rw [if_neg hchar]
          refine iff_of_false (Result.not_returns_error _) ?_
          rintro ⟨hchars, -⟩
          rcases hchars ch (by simp) with h | h
          · exact hdot h
          · exact hchar h

/-- **The loop** stores the labels that end in a dot, and the characters behind the last
dot. It leaves the header alone. -/
theorem hostname_loop_spec {rest : Str} {i label_off label_off' : ℕ} {b b' : Buffer}
    {done : List Str} {cur : Str} (hoff : label_off = (dotted done).length)
    (hi : i = label_off + cur.length) (hb : Encoded b done cur)
    (h : hostname_loop rest i label_off b = .ok (label_off', b')) :
    label_off' = (dotted (done ++ (split cur rest).1)).length ∧
      Encoded b' (done ++ (split cur rest).1) (split cur rest).2 ∧ ∀ j < 12, b' j = b j := by
  have e₁ : message_header.wire_size = 12 := rfl
  -- along the text, with the label in progress moved to `done` at each dot
  induction rest generalizing i label_off b done cur with
  | nil =>
      obtain ⟨rfl, rfl⟩ := Prod.mk.inj (Except.ok.inj h)
      rw [split]
      dsimp only
      rw [List.append_nil]
      exact ⟨hoff, hb, fun j _ => rfl⟩
  | cons ch rest ih =>
      rw [hostname_loop] at h
      rw [split]
      by_cases hdot : ch = '.'
      · rw [if_pos hdot] at h
        rw [if_pos hdot]
        dsimp only at h ⊢
        split_ifs at h with hlong
        obtain ⟨b₁, hput, h⟩ := Result.bind_eq_ok.mp h
        have hlen : i - label_off = cur.length := by omega
        rw [hlen, hoff, e₁] at hput
        have hb₁ := hb.close
        rw [← eq_write_of_put hput] at hb₁
        have hoff₁ : i + 1 = (dotted (done ++ [cur])).length := by
          rw [dotted_append, dotted_cons, dotted_nil]
          simp only [List.length_append, List.length_cons, List.length_nil]
          omega
        obtain ⟨h₁, h₂, h₃⟩ := ih hoff₁ (by simp) hb₁ h
        rw [List.append_assoc, List.singleton_append] at h₁ h₂
        refine ⟨h₁, h₂, fun j hj => ?_⟩
        rw [h₃ j hj, eq_write_of_put hput]
        exact write_apply_outside _ (Or.inl (by omega))
      · rw [if_neg hdot] at h
        rw [if_neg hdot]
        split_ifs at h with hchar
        obtain ⟨b₁, hput, h⟩ := Result.bind_eq_ok.mp h
        have hplace : message_header.wire_size + i + 1 = 13 + ((dotted done).length + cur.length) := by
          omega
        rw [hplace] at hput
        have hb₁ := hb.push ch
        rw [← eq_write_of_put hput] at hb₁
        obtain ⟨h₁, h₂, h₃⟩ := ih hoff
          (by rw [List.length_append, List.length_singleton]; omega) hb₁ h
        refine ⟨h₁, h₂, fun j hj => ?_⟩
        rw [h₃ j hj, eq_write_of_put hput]
        exact write_apply_outside _ (Or.inl (by omega))

/-- Labels, and the last of them if it is not empty. -/
def close_labels (done : List Str) (cur : Str) : List Str :=
  if cur = [] then done else done ++ [cur]

theorem labels_eq (hostname : Str) :
    labels hostname = close_labels (split [] hostname).1 (split [] hostname).2 := rfl

theorem dotted_close_labels_length_le (done : List Str) (cur : Str) :
    (dotted (close_labels done cur)).length ≤ (dotted done).length + cur.length + 1 := by
  rw [close_labels]
  split_ifs with hcur
  · omega
  · rw [dotted_append, dotted_cons, dotted_nil]
    simp only [List.length_append, List.length_cons, List.length_nil]
    omega

section EndHostname

variable {hostname : Str} {label_off label_off' : ℕ} {b b' : Buffer} {done : List Str} {cur : Str}

/-- An empty label ends the name. -/
theorem Encoded.terminate (hb : Encoded b done []) :
    slice (write b (12 + (dotted done).length) [0]) 12 ((dotted done).length + 1)
      = labels_wire done ++ [0] := by
  have hzero := slice_write_same b (12 + (dotted done).length) [0]
  rw [List.length_singleton] at hzero
  rw [slice_add, slice_write_disjoint _ (by left; omega), hb.done_eq, hzero]

theorem end_hostname_returns (hlen : hostname.length = label_off + cur.length)
    (hroom : 14 + hostname.length ≤ max_size) :
    (end_hostname hostname label_off b).returns ↔ cur.length < 64 := by
  have e₁ : message_header.wire_size = 12 := rfl
  rw [end_hostname]
  dsimp only
  by_cases hcur : label_off ≠ hostname.length
  · rw [if_pos hcur]
    by_cases hlong : 64 ≤ hostname.length - label_off
    · rw [if_pos hlong]
      exact iff_of_false (Result.not_returns_error _) (by omega)
    · rw [if_neg hlong, put_eq_ok _ (by simp only [List.length_singleton]; omega), Result.ok_bind,
        put_eq_ok _ (by simp only [List.length_singleton]; omega), Result.ok_bind]
      exact iff_of_true (Result.returns_ok _) (by omega)
  · rw [if_neg hcur, put_eq_ok _ (by simp only [List.length_singleton]; omega), Result.ok_bind]
    exact iff_of_true (Result.returns_ok _) (by omega)

/-- The name on the wire is complete. -/
theorem end_hostname_spec (hoff : label_off = (dotted done).length)
    (hlen : hostname.length = label_off + cur.length) (hb : Encoded b done cur)
    (h : end_hostname hostname label_off b = .ok (label_off', b')) :
    label_off' = (dotted (close_labels done cur)).length ∧
      slice b' 12 (label_off' + 1) = labels_wire (close_labels done cur) ++ [0] ∧
        ∀ j < 12, b' j = b j := by
  have e₁ : message_header.wire_size = 12 := rfl
  rw [end_hostname] at h
  dsimp only at h
  by_cases hcur : cur = []
  · -- the name ends in a dot, or is empty
    have hend : ¬ label_off ≠ hostname.length := by
      rw [hcur] at hlen
      rw [hlen]
      simp
    rw [if_neg hend] at h
    obtain ⟨b₁, hput, h⟩ := Result.bind_eq_ok.mp h
    obtain ⟨rfl, rfl⟩ := Prod.mk.inj (Except.ok.inj h)
    rw [e₁, hoff] at hput
    rw [hcur] at hb
    have hclose : close_labels done cur = done := if_pos hcur
    rw [hclose, hoff, eq_write_of_put hput]
    refine ⟨rfl, hb.terminate, fun j hj => ?_⟩
    exact write_apply_outside _ (Or.inl (by omega))
  · have hpos : 0 < cur.length := List.length_pos_iff.mpr hcur
    rw [if_pos (by omega)] at h
    split_ifs at h with hlong
    obtain ⟨b₁, hput₁, h⟩ := Result.bind_eq_ok.mp h
    obtain ⟨b₂, hput₂, h⟩ := Result.bind_eq_ok.mp h
    obtain ⟨rfl, rfl⟩ := Prod.mk.inj (Except.ok.inj h)
    have hcurlen : hostname.length - label_off = cur.length := by omega
    rw [hcurlen, hoff, e₁] at hput₁
    have hclose : close_labels done cur = done ++ [cur] := if_neg hcur
    have hend : 1 + hostname.length = (dotted (done ++ [cur])).length := by
      rw [dotted_append, dotted_cons, dotted_nil]
      simp only [List.length_append, List.length_cons, List.length_nil]
      omega
    rw [hend, e₁] at hput₂
    have hb₁ := hb.close
    rw [← eq_write_of_put hput₁] at hb₁
    rw [hclose, hend, eq_write_of_put hput₂]
    refine ⟨rfl, hb₁.terminate, fun j hj => ?_⟩
    rw [write_apply_outside _ (Or.inl (by omega)), eq_write_of_put hput₁]
    exact write_apply_outside _ (Or.inl (by omega))

end EndHostname

section OfHostname

variable {hostname : Str} {typ id : ℕ} {q : Query}

theorem question_header_valid {id : ℕ} (hid : id < 65536) : (question_header id).Valid where
  id := hid
  opcode := by norm_num [question_header]
  rcode := by norm_num [question_header]
  z := by norm_num [question_header]
  qdcount := by norm_num [question_header]
  ancount := by norm_num [question_header]
  nscount := by norm_num [question_header]
  arcount := by norm_num [question_header]

theorem split_length (hostname : Str) :
    hostname.length = (dotted (split [] hostname).1).length + (split [] hostname).2.length := by
  rw [← List.length_append, split_eq, List.nil_append]

theorem forall_close_labels {P : Str → Prop} {done : List Str} {cur : Str} (hP : P []) :
    (∀ l ∈ close_labels done cur, P l) ↔ (∀ l ∈ done, P l) ∧ P cur := by
  rw [close_labels]
  split_ifs with hcur
  · rw [hcur]
    exact ⟨fun h => ⟨h, hP⟩, fun h => h.1⟩
  · rw [List.forall_mem_append, List.forall_mem_singleton]

/-- **What the constructor takes**: 256 characters that are dots or belong into a label,
and labels of up to 63 of them. -/
theorem of_hostname_returns : (of_hostname hostname typ id).returns ↔
    hostname.length ≤ max_host_name_length ∧
      (∀ ch ∈ hostname, ch = '.' ∨ is_hostname_char ch = true) ∧
        ∀ l ∈ labels hostname, l.length < 64 := by
  have e₁ : message_header.wire_size = 12 := rfl
  have e₂ : max_size = 55535 := rfl
  have e₃ : max_host_name_length = 256 := rfl
  rw [of_hostname, labels_eq, forall_close_labels (by decide : ([] : Str).length < 64)]
  by_cases hlong : hostname.length > max_host_name_length
  · rw [if_pos hlong]
    refine iff_of_false (Result.not_returns_error _) ?_
    rintro ⟨h, -⟩
    omega
  rw [if_neg hlong]
  dsimp only
  rw [put_eq_ok _ (by simp only [List.length_singleton]; omega), Result.ok_bind]
  have hloop := fun b => @hostname_loop_returns hostname 0 0 b [] rfl (by omega)
  have hsplit := split_length hostname
  have hinit : ∀ b, Encoded b [] [] := fun b => ⟨rfl, rfl⟩
  constructor
  · intro h
    obtain ⟨⟨label_off, b₁⟩, h₁, h⟩ := Result.returns_bind.mp h
    obtain ⟨⟨label_off₂, b₂⟩, h₂, -⟩ := Result.returns_bind.mp h
    obtain ⟨hchars, hdone⟩ := (hloop _).mp ⟨_, h₁⟩
    obtain ⟨hoff, -, -⟩ := hostname_loop_spec rfl rfl (hinit _) h₁
    rw [List.nil_append] at hoff
    have hlen : hostname.length = label_off + (split [] hostname).2.length := by omega
    have hlast := (end_hostname_returns hlen (by omega)).mp ⟨_, h₂⟩
    exact ⟨by omega, hchars, hdone, hlast⟩
  · rintro ⟨-, hchars, hdone, hlast⟩
    obtain ⟨⟨label_off, b₁⟩, h₁⟩ := (hloop _).mpr ⟨hchars, hdone⟩
    obtain ⟨hoff, hb₁, -⟩ := hostname_loop_spec rfl rfl (hinit _) h₁
    rw [List.nil_append] at hoff hb₁
    have hlen : hostname.length = label_off + (split [] hostname).2.length := by omega
    obtain ⟨⟨label_off₂, b₂⟩, h₂⟩ := (@end_hostname_returns _ _ b₁ _ hlen (by omega)).mpr hlast
    obtain ⟨hoff₂, -, -⟩ := end_hostname_spec hoff hlen hb₁ h₂
    have hle := dotted_close_labels_length_le (split [] hostname).1 (split [] hostname).2
    refine Result.returns_bind.mpr ⟨_, h₁, Result.returns_bind.mpr ⟨_, h₂, ?_⟩⟩
    dsimp only
    rw [put_eq_ok _ (by simp only [List.length_append, bytes16_length]; omega), Result.ok_bind,
      if_neg (by omega), set_size_eq_ok _ (by omega)]
    exact Result.returns_ok _

/-- **What the constructor builds**: the labels of the name, the empty label, the type and
the class. -/
theorem of_hostname_wire (h : of_hostname hostname typ id = .ok q) :
    q.size = 12 + (dotted (labels hostname)).length + 5 ∧
      slice q.bytes 12 ((dotted (labels hostname)).length + 1)
        = labels_wire (labels hostname) ++ [0] ∧
      slice q.bytes (12 + (dotted (labels hostname)).length + 1) 4
        = bytes16 typ ++ bytes16 rr_class.internet.code ∧
      (id < 65536 → q.header = question_header id) := by
  have e₁ : message_header.wire_size = 12 := rfl
  rw [of_hostname] at h
  split_ifs at h with hlong
  obtain ⟨b₀, hput₀, h⟩ := Result.bind_eq_ok.mp h
  obtain ⟨⟨label_off, b₁⟩, h₁, h⟩ := Result.bind_eq_ok.mp h
  obtain ⟨⟨label_off₂, b₂⟩, h₂, h⟩ := Result.bind_eq_ok.mp h
  obtain ⟨b₃, hput₃, h⟩ := Result.bind_eq_ok.mp h
  dsimp only at h h₂ hput₃
  split_ifs at h with hfit
  obtain ⟨hbytes, hsize⟩ := eq_of_set_size h
  obtain ⟨hoff, hb₁, hkeep₁⟩ := @hostname_loop_spec _ _ _ _ _ _ [] [] rfl rfl ⟨rfl, rfl⟩ h₁
  rw [List.nil_append] at hoff hb₁
  have hsplit := split_length hostname
  obtain ⟨hoff₂, hname, hkeep₂⟩ := end_hostname_spec hoff (by omega) hb₁ h₂
  rw [← labels_eq] at hoff₂ hname
  -- the type and the class stand behind the name
  have hq : q.bytes = write b₂ (12 + (dotted (labels hostname)).length + 1)
      (bytes16 typ ++ bytes16 rr_class.internet.code) := by
    rw [hbytes, eq_write_of_put hput₃, e₁, hoff₂]
  refine ⟨by omega, ?_, ?_, fun hid => ?_⟩
  · rw [hq, slice_write_disjoint _ (by left; omega), ← hname, hoff₂]
  · rw [hq]
    exact slice_write_same _ _ (bytes16 typ ++ bytes16 rr_class.internet.code)
  · -- nothing is stored into the header
    rw [← set_header_header empty (question_header_valid hid)]
    apply message_header.read_congr
    intro j hj
    rw [hq, write_apply_outside _ (Or.inl (by omega)), hkeep₂ j hj, hkeep₁ j hj,
      eq_write_of_put hput₀]
    exact write_apply_outside _ (Or.inl (by omega))

end OfHostname

/-! ## Reading a name back -/

/-- A label that belongs into a name. -/
def IsLabel (l : Str) : Prop :=
  1 ≤ l.length ∧ l.length ≤ 63 ∧ ∀ ch ∈ l, is_hostname_char ch = true

-- through `all`: the characters of the label are run through, not all there are
instance (l : Str) : Decidable (IsLabel l) :=
  decidable_of_iff (1 ≤ l.length ∧ l.length ≤ 63 ∧ l.all is_hostname_char = true) <| by
    rw [IsLabel, List.all_eq_true]

theorem char_of_toNat (b : UInt8) : (char_of b).toNat = b.toNat := by
  have hlt := b.toNat_lt
  have hvalid : b.toNat.isValidChar := Or.inl (by omega)
  have hof : Char.ofNat b.toNat = Char.ofNatAux b.toNat hvalid := dif_pos hvalid
  rw [char_of, hof]
  rfl

/-- A character that is a byte. -/
theorem char_of_byte_of_lt {ch : Char} (h : ch.toNat < 256) : char_of (byte_of ch) = ch := by
  rw [char_of, byte_of, UInt8.toNat_ofNat', Nat.mod_eq_of_lt h, Char.ofNat_toNat]

theorem char_of_byte_of {ch : Char} (h : is_hostname_char ch = true) :
    char_of (byte_of ch) = ch := by
  rw [is_hostname_char, Bool.and_eq_true, decide_eq_true_eq] at h
  exact char_of_byte_of_lt h.1

theorem map_char_of_byte_of {l : Str} (h : ∀ ch ∈ l, is_hostname_char ch = true) :
    (l.map byte_of).map char_of = l := by
  rw [List.map_map]
  refine (List.map_congr_left fun ch hch => ?_).trans (List.map_id l)
  exact char_of_byte_of (h ch hch)

theorem all_is_dns_char {l : Str} (h : ∀ ch ∈ l, is_hostname_char ch = true) :
    (l.map byte_of).all is_dns_char = true := by
  rw [List.all_map, List.all_eq_true]
  intro ch hch
  have := h ch hch
  rw [is_hostname_char, Bool.and_eq_true] at this
  exact this.2

section Decode

variable {pkt : Buffer} {pktlen : ℕ}

/-- The first byte and the rest of a run. -/
theorem slice_eq_cons {b : Buffer} {off n : ℕ} {x : UInt8} {l m : List UInt8}
    (h : slice b off n = x :: l ++ m) :
    b off = x ∧ slice b (off + 1) l.length = l ∧
      slice b (off + 1 + l.length) m.length = m := by
  obtain ⟨h₁, h₂⟩ := slice_eq_append h
  rw [List.length_cons, slice_succ] at h₁
  obtain ⟨h₀, h₁⟩ := List.cons.inj h₁
  have hoff : off + 1 + l.length = off + (x :: l).length := by
    rw [List.length_cons]
    omega
  exact ⟨h₀, h₁, by rw [hoff, h₂]⟩

/-- The first of labels on the wire, and the others. -/
theorem slice_labels_cons {l : Str} {ls : List Str} {off : ℕ}
    (h : slice pkt off (dotted (l :: ls)).length = labels_wire (l :: ls)) :
    pkt off = UInt8.ofNat l.length ∧ slice pkt (off + 1) l.length = l.map byte_of ∧
      slice pkt (off + (l.length + 1)) (dotted ls).length = labels_wire ls := by
  rw [labels_wire_cons] at h
  obtain ⟨h₁, h₂, h₃⟩ := slice_eq_cons h
  have hoff : off + 1 + l.length = off + (l.length + 1) := by omega
  rw [List.length_map] at h₂ h₃
  rw [labels_wire_length, hoff] at h₃
  exact ⟨h₁, h₂, h₃⟩

/-- One turn of the parser: a label. -/
theorem get_rr_name_loop_label {off n : ℕ} {l owner : Str} (hl : IsLabel l)
    (hlen : pkt off = UInt8.ofNat l.length) (hchars : slice pkt (off + 1) l.length = l.map byte_of)
    (hin : off + 1 + l.length < pktlen) :
    get_rr_name_loop pkt pktlen (n + 1) off owner =
      if (owner ++ (l ++ ['.'])).length > max_host_name_length then
        .error (.runtime_error "Too long DNS qname")
      else get_rr_name_loop pkt pktlen n (off + (l.length + 1)) (owner ++ (l ++ ['.'])) := by
  obtain ⟨h₁, h₂, h₃⟩ := hl
  have hbyte : (pkt off).toNat = l.length := by
    rw [hlen, UInt8.toNat_ofNat']
    omega
  have hnext : l.length + (off + 1) = off + (l.length + 1) := by omega
  rw [get_rr_name_loop]
  dsimp only
  rw [hbyte, if_neg (by omega), if_neg (by omega), if_neg (by omega), if_neg (by omega), hchars,
    if_pos (all_is_dns_char h₃), map_char_of_byte_of h₃, hnext, List.append_assoc]

/-- The empty label ends the name. -/
theorem get_rr_name_loop_end {off n : ℕ} {owner : Str} (hzero : pkt off = 0)
    (hin : off + 1 < pktlen) :
    get_rr_name_loop pkt pktlen (n + 1) off owner = .ok (off + 1, owner) := by
  have hbyte : (pkt off).toNat = 0 := by
    rw [hzero]
    rfl
  rw [get_rr_name_loop]
  dsimp only
  rw [hbyte, if_neg (by omega), if_neg (by omega), if_neg (by omega), if_pos rfl, Nat.zero_add]

/-- **Labels are read as they were written**, as long as the name does not get too
long. -/
theorem get_rr_name_loop_labels {ls : List Str} {off n : ℕ} {owner : Str}
    (hls : ∀ l ∈ ls, IsLabel l) (hwire : slice pkt off (dotted ls).length = labels_wire ls)
    (hin : off + (dotted ls).length < pktlen)
    (hlen : (owner ++ dotted ls).length ≤ max_host_name_length) :
    get_rr_name_loop pkt pktlen (n + ls.length) off owner =
      get_rr_name_loop pkt pktlen n (off + (dotted ls).length) (owner ++ dotted ls) := by
  induction ls generalizing off owner with
  | nil => simp
  | cons l ls ih =>
      obtain ⟨hl, hls⟩ := List.forall_mem_cons.mp hls
      obtain ⟨h₁, h₂, h₃⟩ := slice_labels_cons hwire
      have hsum := dotted_cons_length l ls
      have htext : owner ++ dotted (l :: ls) = owner ++ (l ++ ['.']) ++ dotted ls := by
        simp
      rw [htext] at hlen
      have hfirst : ¬ (owner ++ (l ++ ['.'])).length > max_host_name_length := by
        rw [List.length_append] at hlen
        omega
      rw [List.length_cons, ← Nat.add_assoc, get_rr_name_loop_label hl h₁ h₂ (by omega),
        if_neg hfirst, ih hls h₃ (by omega) hlen, htext, hsum, Nat.add_assoc]

/-- A name that gets too long is not read. -/
theorem get_rr_name_loop_too_long {ls : List Str} {off n : ℕ} {owner : Str}
    (hls : ∀ l ∈ ls, IsLabel l) (hwire : slice pkt off (dotted ls).length = labels_wire ls)
    (hin : off + (dotted ls).length < pktlen) (howner : owner.length ≤ max_host_name_length)
    (hlen : (owner ++ dotted ls).length > max_host_name_length) :
    get_rr_name_loop pkt pktlen (n + ls.length) off owner =
      .error (.runtime_error "Too long DNS qname") := by
  induction ls generalizing off owner with
  | nil =>
      rw [dotted_nil, List.append_nil] at hlen
      omega
  | cons l ls ih =>
      obtain ⟨hl, hls⟩ := List.forall_mem_cons.mp hls
      obtain ⟨h₁, h₂, h₃⟩ := slice_labels_cons hwire
      have hsum := dotted_cons_length l ls
      have htext : owner ++ dotted (l :: ls) = owner ++ (l ++ ['.']) ++ dotted ls := by
        simp
      rw [List.length_cons, ← Nat.add_assoc, get_rr_name_loop_label hl h₁ h₂ (by omega)]
      -- either this label is one too many, or a later one is
      by_cases hfirst : (owner ++ (l ++ ['.'])).length > max_host_name_length
      · rw [if_pos hfirst]
      · rw [if_neg hfirst]
        rw [htext] at hlen
        exact ih hls h₃ (by omega) (by omega) hlen

end Decode

/-- **Reading a name**: labels up to an empty one, if they are not too long together. -/
theorem get_rr_name_labels {q : Query} {ls : List Str} {off : ℕ} (hoff : 12 ≤ off)
    (hls : ∀ l ∈ ls, IsLabel l) (hwire : slice q.bytes off (dotted ls).length = labels_wire ls)
    (hzero : q.bytes (off + (dotted ls).length) = 0) (hin : off + (dotted ls).length + 1 < q.size) :
    q.get_rr_name off =
      if (dotted ls).length ≤ max_host_name_length then
        .ok (off + (dotted ls).length + 1, dotted ls)
      else .error (.runtime_error "Too long DNS qname") := by
  have e₁ : message_header.wire_size = 12 := rfl
  have hfuel := length_le_dotted ls
  obtain ⟨n, hn⟩ : ∃ n, q.size = n + 1 + ls.length := ⟨q.size - 1 - ls.length, by omega⟩
  rw [get_rr_name, if_neg (by omega)]
  nth_rewrite 2 [hn]
  by_cases hlen : (dotted ls).length ≤ max_host_name_length
  · rw [if_pos hlen, get_rr_name_loop_labels hls hwire (by omega) (by rwa [List.nil_append]),
      List.nil_append, get_rr_name_loop_end hzero hin]
  · rw [if_neg hlen]
    refine get_rr_name_loop_too_long hls hwire (by omega) (Nat.zero_le _) ?_
    rw [List.nil_append]
    omega

section Accepted

variable {hostname : Str} {typ id : ℕ} {q : Query}

/-- A label that the constructor took belongs into a name, unless it is empty. -/
theorem isLabel_of_hostname (h : of_hostname hostname typ id = .ok q) {l : Str}
    (hl : l ∈ labels hostname) (hne : l ≠ []) : IsLabel l := by
  obtain ⟨-, hchars, hlabels⟩ := of_hostname_returns.mp ⟨q, h⟩
  have hlen := hlabels l hl
  refine ⟨List.length_pos_iff.mpr hne, by omega, ?_⟩
  intro ch hch
  obtain ⟨hmem, hdot⟩ := labels_mem hl hch
  exact (hchars ch hmem).resolve_left hdot

/-- A name without empty labels is read to its end. -/
theorem get_rr_name_of_hostname (h : of_hostname hostname typ id = .ok q)
    (hne : ∀ l ∈ labels hostname, l ≠ []) :
    q.get_rr_name 12 =
      if (dotted (labels hostname)).length ≤ max_host_name_length then
        .ok (12 + (dotted (labels hostname)).length + 1, dotted (labels hostname))
      else .error (.runtime_error "Too long DNS qname") := by
  obtain ⟨hsize, hname, -, -⟩ := of_hostname_wire h
  obtain ⟨hwire, hzero⟩ := slice_eq_append hname
  rw [labels_wire_length] at hwire hzero
  rw [List.length_singleton, slice_succ] at hzero
  exact get_rr_name_labels (le_refl _) (fun l hl => isLabel_of_hostname h hl (hne l hl)) hwire
    (List.cons.inj hzero).1 (by omega)

/-- At an empty label the name ends early. -/
theorem get_rr_name_of_empty_label (h : of_hostname hostname typ id = .ok q)
    (hempty : [] ∈ labels hostname) {o : ℕ} {owner : Str} (hread : q.get_rr_name 12 = .ok (o, owner)) :
    owner.length < (dotted (labels hostname)).length := by
  obtain ⟨hsize, hname, -, -⟩ := of_hostname_wire h
  obtain ⟨pre, post, hsplit, hpre⟩ := List.eq_append_cons_of_mem hempty
  -- the labels before the first empty one
  have hlabels : ∀ l ∈ pre, IsLabel l := by
    intro l hl
    refine isLabel_of_hostname h (by rw [hsplit]; simp [hl]) ?_
    rintro rfl
    exact hpre hl
  have hlen : (dotted (labels hostname)).length
      = (dotted pre).length + 1 + (dotted post).length := by
    rw [hsplit, dotted_append, List.length_append, dotted_cons_length]
    simp only [List.length_nil]
    omega
  have hwire : labels_wire (labels hostname) ++ [0]
      = labels_wire pre ++ (0 :: (labels_wire post ++ [0])) := by
    rw [hsplit, labels_wire_append, labels_wire_cons]
    simp
  rw [hwire] at hname
  obtain ⟨hpre_wire, hrest⟩ := slice_eq_append hname
  rw [labels_wire_length] at hpre_wire hrest
  rw [List.length_cons, slice_succ] at hrest
  rw [get_rr_name_labels (le_refl _) hlabels hpre_wire (List.cons.inj hrest).1 (by omega)] at hread
  split_ifs at hread with hfit
  obtain ⟨-, rfl⟩ := Prod.mk.inj (Except.ok.inj hread)
  omega

/-- The question of a message whose name was read to its end. -/
theorem get_rr_question_of_hostname (htyp : typ < 65536) (h : of_hostname hostname typ id = .ok q)
    (hname : q.get_rr_name 12
      = .ok (12 + (dotted (labels hostname)).length + 1, dotted (labels hostname))) :
    ∃ r, q.get_rr_question 12 = .ok (r, q.size) ∧ r.owner = dotted (labels hostname) ∧
      r.type = typ ∧ r.class_ = rr_class.internet.code := by
  obtain ⟨hsize, -, htail, -⟩ := of_hostname_wire h
  rw [get_rr_question, hname, Result.ok_bind]
  dsimp only
  rw [if_neg (by omega)]
  -- the two numbers behind the name
  obtain ⟨h₁, h₂⟩ : slice q.bytes (12 + (dotted (labels hostname)).length + 1) 2 = bytes16 typ ∧
      slice q.bytes (12 + (dotted (labels hostname)).length + 1 + 2) 2
        = bytes16 rr_class.internet.code := slice_eq_append htail
  have htype := be16_of_slice h₁
  have hclass := be16_of_slice h₂
  rw [Nat.mod_eq_of_lt htyp] at htype
  exact ⟨_, by rw [hsize], rfl, htype, hclass⟩

/-- **Which of the accepted names are readable**: those without an empty label whose
length, with the final dot counted, is within the limit. -/
theorem get_question_of_hostname_iff (hne : hostname ≠ []) (htyp : typ < 65536) (hid : id < 65536)
    (h : of_hostname hostname typ id = .ok q) :
    q.get_question = .ok (with_dot hostname, rr_class.internet.code, typ) ↔
      (∀ l ∈ labels hostname, l ≠ []) ∧ (with_dot hostname).length ≤ max_host_name_length := by
  have htext := dotted_labels hne
  obtain ⟨-, -, -, hheader⟩ := of_hostname_wire h
  have hqd : q.header.qdcount = 1 := by
    rw [hheader hid]
    rfl
  constructor
  · intro hread
    obtain ⟨o, hname⟩ := get_rr_name_of_get_question hread
    have hlabels : ∀ l ∈ labels hostname, l ≠ [] := by
      rintro l hl rfl
      have hshort := get_rr_name_of_empty_label h hl hname
      rw [htext] at hshort
      omega
    refine ⟨hlabels, ?_⟩
    rw [get_rr_name_of_hostname h hlabels, htext] at hname
    split_ifs at hname with hfit
    exact hfit
  · rintro ⟨hlabels, hfit⟩
    have hname := get_rr_name_of_hostname h hlabels
    rw [if_pos (by rwa [htext])] at hname
    obtain ⟨r, hr, howner, htype, hclass⟩ := get_rr_question_of_hostname htyp h hname
    rw [get_question_of_rr_question hqd hr, howner, htype, hclass, htext]

/-- A host name that the constructor takes, as a test. -/
theorem returns_of_hostname (h : hostname.length ≤ max_host_name_length ∧
    hostname.all (fun ch => ch == '.' || is_hostname_char ch) = true ∧
    (labels hostname).all (fun l => l.length < 64) = true) : (of_hostname hostname typ id).returns := by
  obtain ⟨hlen, hchars, hlabels⟩ := h
  refine of_hostname_returns.mpr ⟨hlen, fun ch hch => ?_, fun l hl => ?_⟩
  · have := List.all_eq_true.mp hchars ch hch
    rwa [Bool.or_eq_true, beq_iff_eq] at this
  · exact of_decide_eq_true (List.all_eq_true.mp hlabels l hl)

/-- The name of a question about an address, read back. -/
theorem get_question_of_hostname_iff_example :
    ∃ q, of_hostname "www.example.com".toList 1 7 = .ok q ∧
      q.get_question = .ok ("www.example.com.".toList, 1, 1) := by
  obtain ⟨q, hq⟩ : (of_hostname "www.example.com".toList 1 7).returns :=
    returns_of_hostname (by decide)
  exact ⟨q, hq, (get_question_of_hostname_iff (by decide) (by decide) (by decide) hq).mpr
    (by decide)⟩

/-- **Two dots in a row** are accepted, and the name that is read ends there. -/
theorem get_question_of_empty_label :
    ∃ q, of_hostname "a..b".toList 1 7 = .ok q ∧
      q.get_question ≠ .ok ("a..b.".toList, rr_class.internet.code, 1) := by
  obtain ⟨q, hq⟩ : (of_hostname "a..b".toList 1 7).returns :=
    returns_of_hostname (by decide)
  refine ⟨q, hq, fun hread => ?_⟩
  obtain ⟨o, hname⟩ := get_rr_name_of_get_question hread
  have hshort := get_rr_name_of_empty_label hq (by decide) hname
  exact absurd hshort (by decide)

end Accepted

end Query

end Cdns
