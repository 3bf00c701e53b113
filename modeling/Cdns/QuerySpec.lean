/-
What the parsers of `dns::query` read, and what the rewriting of a message does.

The main facts: a parser that starts at `off` depends on the bytes from `off` on
(`get_rr_congr`), the records of a message lie behind one another
(`get_rrs_pairwise`), and `adjust_id_and_ttl` is "read all the records, then
overwrite" although it does both in one walk (`adjust_id_and_ttl_eq`).
-/
import Cdns.Query

set_option autoImplicit false

namespace Cdns.Query

open Lib.Storage

/-! ## Names -/

/-- **A name on the wire**, read behind the text `owner`: it ends with a pointer or with an empty
label, or it has a label and goes on behind it. -/
inductive Named (pkt : Buffer) (pktlen : ℕ) : ℕ → Str → ℕ → Str → Prop where
  | pointer {off : ℕ} {owner : Str} (hptr : 192 ≤ (pkt off).toNat) (hend : off + 2 ≤ pktlen) :
      Named pkt pktlen off owner (off + 2) owner
  | root {off : ℕ} {owner : Str} (hroot : (pkt off).toNat = 0) (hend : off + 1 < pktlen) :
      Named pkt pktlen off owner (off + 1) owner
  | label {off o : ℕ} {owner owner' : Str}
      (hlen : 1 ≤ (pkt off).toNat ∧ (pkt off).toNat ≤ 63)
      (hend : (pkt off).toNat + (off + 1) < pktlen)
      (hchars : (slice pkt (off + 1) (pkt off).toNat).all is_dns_char = true)
      (hshort : (owner ++ (slice pkt (off + 1) (pkt off).toNat).map char_of ++ ['.']).length ≤
        max_host_name_length)
      (hrest : Named pkt pktlen ((pkt off).toNat + (off + 1))
        (owner ++ (slice pkt (off + 1) (pkt off).toNat).map char_of ++ ['.']) o owner') :
      Named pkt pktlen off owner o owner'

section Named

variable {pkt : Buffer} {pktlen n off o : ℕ} {owner owner' : Str}

/-- What the loop reads is a name. -/
theorem named_of_loop (h : get_rr_name_loop pkt pktlen n off owner = .ok (o, owner')) :
    Named pkt pktlen off owner o owner' := by
  induction n generalizing off owner with
  | zero => exact absurd h (by simp [get_rr_name_loop])
  | succ n ih =>
      rw [get_rr_name_loop] at h
      dsimp only at h
      split_ifs at h with h₁ h₂ h₃ h₄ h₅ h₆ h₇
      · obtain ⟨rfl, rfl⟩ := Prod.mk.inj (Except.ok.inj h)
        exact .pointer h₁ (by omega)
      · obtain ⟨ho, rfl⟩ := Prod.mk.inj (Except.ok.inj h)
        rw [h₅, Nat.zero_add] at ho
        rw [← ho]
        exact .root h₅ (by omega)
      · exact .label ⟨by omega, by omega⟩ (by omega) h₆ (by omega) (ih h)

/-- A name lies between its start and the end of the message. -/
theorem Named.bounds (h : Named pkt pktlen off owner o owner') : off < o ∧ o ≤ pktlen := by
  induction h with
  | pointer _ hend => exact ⟨by omega, hend⟩
  | root _ hend => exact ⟨by omega, by omega⟩
  | label _ _ _ _ _ ih => exact ⟨by omega, ih.2⟩

/-- And the loop reads it, with as many turns as there are bytes left. -/
theorem Named.loop (h : Named pkt pktlen off owner o owner') (hn : pktlen ≤ off + n) :
    get_rr_name_loop pkt pktlen n off owner = .ok (o, owner') := by
  induction h generalizing n with
  | pointer hptr hend =>
      obtain ⟨m, rfl⟩ : ∃ m, n = m + 1 := ⟨n - 1, by omega⟩
      rw [get_rr_name_loop]
      dsimp only
      rw [if_pos hptr, if_neg (by omega)]
  | root hroot hend =>
      obtain ⟨m, rfl⟩ : ∃ m, n = m + 1 := ⟨n - 1, by omega⟩
      rw [get_rr_name_loop]
      dsimp only
      rw [hroot, if_neg (by omega), if_neg (by omega), Nat.zero_add, if_neg (by omega), if_pos rfl]
  | label hlen hend hchars hshort hrest ih =>
      obtain ⟨m, rfl⟩ : ∃ m, n = m + 1 := ⟨n - 1, by omega⟩
      rw [get_rr_name_loop]
      dsimp only
      rw [if_neg (by omega), if_neg (by omega), if_neg (by omega), if_neg (by omega), if_pos hchars,
        if_neg (by omega)]
      exact ih (by omega)

/-- **`get_rr_name` reads exactly the names.** -/
theorem get_rr_name_eq_ok {q : Query} :
    q.get_rr_name off = .ok (o, owner) ↔
      message_header.wire_size ≤ q.size ∧ off + 1 < q.size ∧ Named q.bytes q.size off [] o owner := by
  rw [get_rr_name]
  split_ifs with hs
  · refine iff_of_false (by simp) ?_
    rintro ⟨h₁, h₂, -⟩
    omega
  · constructor
    · intro h
      exact ⟨by omega, by omega, named_of_loop h⟩
    · rintro ⟨-, -, h⟩
      exact h.loop (by omega)

end Named

/-- More turns than bytes left do not change the result of the loop. -/
theorem get_rr_name_loop_fuel {pkt : Buffer} {pktlen n off : ℕ} (owner : Str)
    (hoff : off < pktlen) (hn : pktlen ≤ off + n) (m : ℕ) :
    get_rr_name_loop pkt pktlen (n + m) off owner = get_rr_name_loop pkt pktlen n off owner := by
  induction n generalizing off owner with
  | zero => omega
  | succ n ih =>
      rw [Nat.add_right_comm, get_rr_name_loop, get_rr_name_loop]
      dsimp only
      split_ifs with h₁ h₂ h₃ h₄ h₅ h₆ h₇
      all_goals first | rfl | exact ih _ (by omega) (by omega)

theorem get_rr_name_loop_congr {b c : Buffer} {pktlen off : ℕ} (n : ℕ) (owner : Str)
    (hoff : off < pktlen) (h : ∀ i, off ≤ i → i < pktlen → b i = c i) :
    get_rr_name_loop b pktlen n off owner = get_rr_name_loop c pktlen n off owner := by
  induction n generalizing off owner with
  | zero => rfl
  | succ n ih =>
      rw [get_rr_name_loop, get_rr_name_loop, h off (le_refl _) hoff]
      dsimp only
      by_cases hin : (c off).toNat + (off + 1) ≥ pktlen
      · simp only [hin, if_true]
      · -- the label lies inside the message, where the buffers agree
        have hlabel : slice b (off + 1) (c off).toNat = slice c (off + 1) (c off).toNat :=
          slice_congr fun i h₁ h₂ => h i (by omega) (by omega)
        rw [hlabel]
        split_ifs with h₁ h₂ h₃ h₄ h₅ h₆
        all_goals first | rfl | exact ih _ (by omega) fun i hi => h i (by omega)

theorem get_rr_name_bounds {q : Query} {off o : ℕ} {owner : Str}
    (h : q.get_rr_name off = .ok (o, owner)) : off < o ∧ o ≤ q.size :=
  (get_rr_name_eq_ok.mp h).2.2.bounds

/-! ## Records

`Agree q q' off`: the two messages have the same length and the same bytes from
`off` on. -/

/-- The messages agree from `off` on. -/
def Agree (q q' : Query) (off : ℕ) : Prop :=
  q.size = q'.size ∧ ∀ i, off ≤ i → i < q.size → q.bytes i = q'.bytes i

theorem Agree.mono {q q' : Query} {off off' : ℕ} (h : Agree q q' off) (hle : off ≤ off') :
    Agree q q' off' :=
  ⟨h.1, fun i hi => h.2 i (by omega)⟩

theorem Agree.symm {q q' : Query} {off : ℕ} (h : Agree q q' off) : Agree q' q off :=
  ⟨h.1.symm, fun i h₁ h₂ => (h.2 i h₁ (by rw [h.1]; exact h₂)).symm⟩

theorem Agree.be16 {q q' : Query} {off o : ℕ} (h : Agree q q' off) (h₁ : off ≤ o)
    (h₂ : o + 2 ≤ q.size) : be16 q.bytes o = be16 q'.bytes o :=
  be16_congr (h.2 o h₁ (by omega)) (h.2 (o + 1) (by omega) (by omega))

theorem get_rr_name_congr {q q' : Query} {off : ℕ} (h : Agree q q' off) :
    q.get_rr_name off = q'.get_rr_name off := by
  rw [get_rr_name, get_rr_name, ← h.1]
  split_ifs with hs
  · rfl
  · exact get_rr_name_loop_congr _ _ (by omega) h.2

/-- **Records are read forwards.** -/
theorem get_rr_congr {q q' : Query} {off : ℕ} (h : Agree q q' off) :
    q.get_rr off = q'.get_rr off := by
  rw [get_rr, get_rr, ← get_rr_name_congr h]
  cases hn : q.get_rr_name off with
  | error e => rfl
  | ok p =>
      obtain ⟨offset, owner⟩ := p
      obtain ⟨hlt, -⟩ := get_rr_name_bounds hn
      simp only [Result.ok_bind, ← h.1]
      by_cases h₁ : offset + 10 > q.size
      · rw [if_pos h₁, if_pos h₁]
      · have httl : be32 q.bytes (offset + 4) = be32 q'.bytes (offset + 4) := by
          rw [be32, be32, h.be16 (by omega) (by omega), h.be16 (by omega) (by omega)]
        rw [if_neg h₁, if_neg h₁, ← h.be16 (o := offset + 8) (by omega) (by omega), ← httl]
        by_cases h₂ : offset + 10 + be16 q.bytes (offset + 8) > q.size
        · rw [if_pos h₂, if_pos h₂]
        · have hdata : slice q.bytes (offset + 10) (be16 q.bytes (offset + 8))
              = slice q'.bytes (offset + 10) (be16 q.bytes (offset + 8)) :=
            slice_congr fun i h₁ h₂ => h.2 i (by omega) (by omega)
          rw [if_neg h₂, if_neg h₂, hdata, h.be16 (o := offset) (by omega) (by omega),
            h.be16 (o := offset + 2) (by omega) (by omega)]

theorem get_rr_question_congr {q q' : Query} {off : ℕ} (h : Agree q q' off) :
    q.get_rr_question off = q'.get_rr_question off := by
  rw [get_rr_question, get_rr_question, ← get_rr_name_congr h]
  cases hn : q.get_rr_name off with
  | error e => rfl
  | ok p =>
      obtain ⟨offset, owner⟩ := p
      obtain ⟨hlt, -⟩ := get_rr_name_bounds hn
      simp only [Result.ok_bind, ← h.1]
      split_ifs with h₁
      · rfl
      · rw [h.be16 (o := offset) (by omega) (by omega),
          h.be16 (o := offset + 2) (by omega) (by omega)]

/-- Where a record lies. -/
theorem get_rr_bounds {q : Query} {off e : ℕ} {r : rr} (h : q.get_rr off = .ok (r, e)) :
    off < r.rr_off ∧ r.rr_off + 10 + r.data.length = e ∧ e ≤ q.size := by
  rw [get_rr, Result.bind_eq_ok] at h
  obtain ⟨⟨offset, owner⟩, hn, h⟩ := h
  obtain ⟨hlt, -⟩ := get_rr_name_bounds hn
  dsimp only at h
  split_ifs at h with h₁ h₂
  simp only [Except.ok.injEq, Prod.mk.injEq] at h
  obtain ⟨rfl, rfl⟩ := h
  refine ⟨hlt, ?_, by omega⟩
  simp

/-- The `n` records from `off` on. -/
def get_rrs (q : Query) : ℕ → ℕ → Result (List rr)
  | 0, _ => .ok []
  | n + 1, off => do
      let (r, off') ← q.get_rr off
      let rs ← q.get_rrs n off'
      .ok (r :: rs)

/-- The records behind the questions of a message. -/
def records (q : Query) : Result (List rr) := do
  let (off, _) ← q.skip_questions q.header.qdcount
  q.get_rrs (rr_count q.header) off

theorem get_rrs_congr {q q' : Query} (n : ℕ) {off : ℕ} (h : Agree q q' off) :
    q.get_rrs n off = q'.get_rrs n off := by
  induction n generalizing off with
  | zero => rfl
  | succ n ih =>
      rw [get_rrs, get_rrs, ← get_rr_congr h]
      cases hr : q.get_rr off with
      | error e => rfl
      | ok p =>
          obtain ⟨r, off'⟩ := p
          have := get_rr_bounds hr
          simp only [Result.ok_bind]
          rw [ih (h.mono (by omega))]

theorem get_rrs_succ_eq_ok {q : Query} {n off : ℕ} {rs : List rr}
    (h : q.get_rrs (n + 1) off = .ok rs) :
    ∃ r off' rs', q.get_rr off = .ok (r, off') ∧ q.get_rrs n off' = .ok rs' ∧ rs = r :: rs' := by
  rw [get_rrs, Result.bind_eq_ok] at h
  obtain ⟨⟨r, off'⟩, hr, h⟩ := h
  rw [Result.bind_eq_ok] at h
  obtain ⟨rs', hrs, h⟩ := h
  exact ⟨r, off', rs', hr, hrs, (Except.ok.inj h).symm⟩

/-- The records lie behind `off`, inside the message. -/
theorem get_rrs_bounds {q : Query} {n off : ℕ} {rs : List rr} (h : q.get_rrs n off = .ok rs) :
    ∀ r ∈ rs, off < r.rr_off ∧ r.rr_off + 10 ≤ q.size := by
  induction n generalizing off rs with
  | zero =>
      rw [get_rrs] at h
      rw [← Except.ok.inj h]
      simp
  | succ n ih =>
      obtain ⟨r₀, off', rs', hr, hrs, rfl⟩ := get_rrs_succ_eq_ok h
      have hb := get_rr_bounds hr
      intro r hmem
      rcases List.mem_cons.mp hmem with rfl | hmem
      · omega
      · have := ih hrs r hmem
        omega

/-- The records lie behind one another. -/
theorem get_rrs_pairwise {q : Query} {n off : ℕ} {rs : List rr} (h : q.get_rrs n off = .ok rs) :
    rs.Pairwise fun r r' => r.rr_off + 10 ≤ r'.rr_off := by
  induction n generalizing off rs with
  | zero =>
      rw [get_rrs] at h
      rw [← Except.ok.inj h]
      exact List.Pairwise.nil
  | succ n ih =>
      obtain ⟨r₀, off', rs', hr, hrs, rfl⟩ := get_rrs_succ_eq_ok h
      have hb := get_rr_bounds hr
      refine List.pairwise_cons.mpr ⟨fun r hmem => ?_, ih hrs⟩
      have := get_rrs_bounds hrs r hmem
      omega

/-! ## Loops over records -/

/-- A loop whose body never fails reads the records and folds over them. -/
theorem for_each_get_rr {σ : Type} (q : Query) (f : σ → rr → σ) (n off : ℕ) (s : σ) :
    (∃ e, q.get_rrs n off = .error e ∧ for_each q.get_rr (fun s r => .ok (f s r)) n off s = .error e)
      ∨ ∃ rs o, q.get_rrs n off = .ok rs
        ∧ for_each q.get_rr (fun s r => .ok (f s r)) n off s = .ok (o, rs.foldl f s) := by
  induction n generalizing off s with
  | zero => exact Or.inr ⟨[], off, rfl, rfl⟩
  | succ n ih =>
      rw [get_rrs, for_each]
      cases hr : q.get_rr off with
      | error e => exact Or.inl ⟨e, rfl, rfl⟩
      | ok p =>
          obtain ⟨r, off'⟩ := p
          simp only [Result.ok_bind]
          rcases ih off' (f s r) with ⟨e, he, hf⟩ | ⟨rs, o, hrs, hf⟩
          · exact Or.inl ⟨e, by rw [he]; rfl, hf⟩
          · exact Or.inr ⟨r :: rs, o, by rw [hrs]; rfl, hf⟩

/-! ## The header -/

theorem bit_toNat (n i : ℕ) : (bit n i).toNat = n / 2 ^ i % 2 := by
  unfold bit
  rcases Nat.mod_two_eq_zero_or_one (n / 2 ^ i) with h | h <;> rw [h] <;> rfl

/-- The flags of a header, put together again. -/
theorem byte2_read (b : Buffer) : (message_header.read b).byte2 = b 2 := by
  apply UInt8.toNat_inj.mp
  have := (b 2).toNat_lt
  simp only [message_header.byte2, message_header.read, bit_toNat, UInt8.toNat_ofNat']
  omega

theorem byte3_read (b : Buffer) : (message_header.read b).byte3 = b 3 := by
  apply UInt8.toNat_inj.mp
  have := (b 3).toNat_lt
  simp only [message_header.byte3, message_header.read, bit_toNat, UInt8.toNat_ofNat']
  omega

theorem header_congr {q q' : Query} (h : Agree q q' 0) (hsize : 12 ≤ q.size) :
    q.header = q'.header := by
  apply message_header.read_congr
  intro i hi
  exact h.2 i (by omega) (by omega)

/-- Storing a header with a new id changes the two bytes of the id. -/
theorem set_header_id (q : Query) (tid : ℕ) :
    (q.set_header { q.header with id := tid }).bytes = write q.bytes 0 (bytes16 tid) := by
  have hflags : ({ q.header with id := tid } : message_header).wire
      = bytes16 tid ++ slice q.bytes 2 10 := by
    have h₂ : ({ q.header with id := tid } : message_header).byte2 = q.bytes 2 := byte2_read q.bytes
    have h₃ : ({ q.header with id := tid } : message_header).byte3 = q.bytes 3 := byte3_read q.bytes
    rw [message_header.wire, h₂, h₃]
    simp only [header, message_header.read, bytes16_be16, slice_succ, List.append_assoc,
      List.cons_append, List.nil_append]
    rfl
  rw [set_header, hflags, write_append]
  have : slice q.bytes 2 10 = slice (write q.bytes 0 (bytes16 tid)) 2 10 := by
    rw [slice_write_disjoint _ (by simp)]
  rw [bytes16_length, this, write_slice]

/-! ## Rewriting a message -/

/-- Overwrite the TTL of a record, unless it is the OPT pseudo record. -/
def set_ttl (ttl : ℤ) (b : Buffer) (r : rr) : Buffer :=
  if r.type ≠ rr_type.opt.code then write b (r.rr_off + 4) (bytes32 (uint32 ttl)) else b

/-- The byte belongs to a TTL that gets overwritten. -/
def InTtl (rs : List rr) (i : ℕ) : Prop :=
  ∃ r ∈ rs, r.type ≠ rr_type.opt.code ∧ r.rr_off + 4 ≤ i ∧ i < r.rr_off + 8

theorem set_ttl_outside (ttl : ℤ) (b : Buffer) {r : rr} {i : ℕ} (h : ¬ InTtl [r] i) :
    set_ttl ttl b r i = b i := by
  unfold set_ttl
  split_ifs with hr
  · refine write_apply_outside b ?_
    by_contra hi
    rw [bytes32_length] at hi
    exact h ⟨r, List.mem_singleton_self r, hr, by omega, by omega⟩
  · rfl

theorem foldl_set_ttl_outside (ttl : ℤ) (b : Buffer) {rs : List rr} {i : ℕ} (h : ¬ InTtl rs i) :
    rs.foldl (set_ttl ttl) b i = b i := by
  induction rs generalizing b with
  | nil => rfl
  | cons r rs ih =>
      rw [List.foldl_cons, ih, set_ttl_outside]
      · rintro ⟨r', hr', hi⟩
        exact h ⟨r', List.mem_cons.mpr (Or.inl (List.mem_singleton.mp hr')), hi⟩
      · rintro ⟨r', hr', hi⟩
        exact h ⟨r', List.mem_cons_of_mem _ hr', hi⟩

theorem foldl_set_ttl_field (ttl : ℤ) (b : Buffer) {rs : List rr}
    (hrs : rs.Pairwise fun r r' => r.rr_off + 10 ≤ r'.rr_off) {r : rr} (hr : r ∈ rs)
    (hopt : r.type ≠ rr_type.opt.code) :
    slice (rs.foldl (set_ttl ttl) b) (r.rr_off + 4) 4 = bytes32 (uint32 ttl) := by
  induction rs generalizing b with
  | nil => exact absurd hr (by simp)
  | cons r₀ rs ih =>
      obtain ⟨hbehind, hrs'⟩ := List.pairwise_cons.mp hrs
      rw [List.foldl_cons]
      rcases List.mem_cons.mp hr with rfl | hr
      · -- the records behind this one do not reach back to it
        have hkeep : slice (rs.foldl (set_ttl ttl) (set_ttl ttl b r)) (r.rr_off + 4) 4
            = slice (set_ttl ttl b r) (r.rr_off + 4) 4 := by
          refine slice_congr fun i h₁ h₂ => foldl_set_ttl_outside ttl _ ?_
          rintro ⟨r', hr', -, h₃, -⟩
          have := hbehind r' hr'
          omega
        rw [hkeep, set_ttl, if_pos hopt]
        exact slice_write_same b (r.rr_off + 4) (bytes32 (uint32 ttl))
      · exact ih _ hrs' hr

/-- The walk over the records reads them all as they were. -/
theorem adjust_loop_eq (ttl : ℤ) (n off : ℕ) (q : Query) :
    adjust_loop ttl n off q =
      (q.get_rrs n off >>= fun rs => .ok { q with bytes := rs.foldl (set_ttl ttl) q.bytes }) := by
  induction n generalizing off q with
  | zero => rfl
  | succ n ih =>
      rw [adjust_loop, get_rrs]
      cases hr : q.get_rr off with
      | error e => rfl
      | ok p =>
          obtain ⟨r, off'⟩ := p
          obtain ⟨h₁, h₂, h₃⟩ := get_rr_bounds hr
          have hoff : off' - r.data.length - 10 = r.rr_off := by omega
          -- what this turn writes lies before `off'`
          have hagree : Agree { q with bytes := set_ttl ttl q.bytes r } q off' := by
            refine ⟨rfl, fun i hi _ => set_ttl_outside ttl q.bytes ?_⟩
            rintro ⟨r', hr', -, h₄, h₅⟩
            rw [List.mem_singleton.mp hr'] at h₄ h₅
            omega
          have hstep : (if r.type ≠ rr_type.opt.code then
                adjust_loop ttl n off'
                  { q with bytes := write q.bytes (r.rr_off + 4) (bytes32 (uint32 ttl)) }
              else adjust_loop ttl n off' q)
              = adjust_loop ttl n off' { q with bytes := set_ttl ttl q.bytes r } := by
            rw [set_ttl]
            split_ifs <;> rfl
          simp only [Result.ok_bind]
          rw [hoff, hstep, ih, get_rrs_congr n hagree]
          cases q.get_rrs n off' <;> rfl

theorem get_rr_question_bounds {q : Query} {off e : ℕ} {r : rr}
    (h : q.get_rr_question off = .ok (r, e)) : off + 4 < e ∧ e ≤ q.size := by
  rw [get_rr_question, Result.bind_eq_ok] at h
  obtain ⟨⟨offset, owner⟩, hn, h⟩ := h
  obtain ⟨hlt, -⟩ := get_rr_name_bounds hn
  dsimp only at h
  split_ifs at h with h₁
  simp only [Except.ok.injEq, Prod.mk.injEq] at h
  omega

theorem for_each_question_congr {σ : Type} {q q' : Query} (body : σ → rr → Result σ) (n : ℕ)
    {off : ℕ} (h : Agree q q' off) (s : σ) :
    for_each q.get_rr_question body n off s = for_each q'.get_rr_question body n off s := by
  induction n generalizing off s with
  | zero => rfl
  | succ n ih =>
      rw [for_each, for_each, ← get_rr_question_congr h]
      cases hr : q.get_rr_question off with
      | error e => rfl
      | ok p =>
          obtain ⟨r, off'⟩ := p
          have := get_rr_question_bounds hr
          simp only [Result.ok_bind]
          rw [funext fun s' => ih (h.mono (by omega)) s']

theorem for_each_question_bounds {σ : Type} {q : Query} {body : σ → rr → Result σ} {n off o : ℕ}
    {s s' : σ} (h : for_each q.get_rr_question body n off s = .ok (o, s')) : off ≤ o := by
  induction n generalizing off s with
  | zero =>
      rw [for_each] at h
      simp only [Except.ok.injEq, Prod.mk.injEq] at h
      omega
  | succ n ih =>
      rw [for_each, Result.bind_eq_ok] at h
      obtain ⟨⟨r, off'⟩, hr, h⟩ := h
      rw [Result.bind_eq_ok] at h
      obtain ⟨s₁, -, h⟩ := h
      have := get_rr_question_bounds hr
      have := ih h
      omega

theorem records_congr {q q' : Query} (h : Agree q q' 0) (hsize : 12 ≤ q.size) :
    q.records = q'.records := by
  rw [records, records, ← header_congr h hsize]
  have hskip : q.skip_questions q.header.qdcount = q'.skip_questions q.header.qdcount :=
    for_each_question_congr _ _ (h.mono (by omega)) _
  rw [← hskip]
  cases q.skip_questions q.header.qdcount with
  | error e => rfl
  | ok p =>
      simp only [Result.ok_bind]
      exact get_rrs_congr _ (h.mono (by omega))

theorem get_question_congr {q q' : Query} (h : Agree q q' 0) (hsize : 12 ≤ q.size) :
    q.get_question = q'.get_question := by
  rw [get_question, get_question, ← header_congr h hsize,
    get_rr_question_congr (h.mono (Nat.zero_le _))]

theorem is_dns_congr {q q' : Query} (h : Agree q q' 0) (hsize : 12 ≤ q.size) :
    q.is_dns = q'.is_dns := by
  unfold is_dns
  rw [h.1, h.2 4 (by omega) (by omega), h.2 5 (by omega) (by omega), h.2 10 (by omega) (by omega),
    h.2 11 (by omega) (by omega)]

/-- A message that is accepted has a header. -/
theorem size_of_is_dns {q : Query} (h : q.is_dns = true) : 15 ≤ q.size := by
  by_contra hlt
  have hfalse : q.is_dns = false := by
    unfold is_dns
    rw [decide_eq_true (by omega : q.size < 15)]
    rfl
  rw [hfalse] at h
  exact absurd h (by simp)

/-- A message that asks a question has a whole header. -/
theorem size_of_get_question {q : Query} {p : Str × ℕ × ℕ} (h : q.get_question = .ok p) :
    12 < q.size := by
  rw [get_question] at h
  split_ifs at h with h₁
  rw [Result.bind_eq_ok] at h
  obtain ⟨⟨r, e⟩, hr, -⟩ := h
  have := get_rr_question_bounds hr
  rw [message_header.wire_size] at this
  omega

theorem int32_uint32 {i : ℤ} (h₁ : -2147483648 ≤ i) (h₂ : i < 2147483648) :
    int32 (uint32 i) = i := by
  unfold int32 uint32
  split_ifs <;> omega

/-- **Rewriting a message.** `adjust_id_and_ttl` fails when the records of the
message do not parse, and otherwise puts in the id and every TTL. -/
theorem adjust_id_and_ttl_eq (q : Query) (tid : ℕ) (ttl : ℤ) :
    q.adjust_id_and_ttl tid ttl = (q.records >>= fun rs =>
      .ok { q with bytes := rs.foldl (set_ttl ttl) (write q.bytes 0 (bytes16 tid)) }) := by
  have hagree : Agree (q.set_header { q.header with id := tid }) q 12 := by
    refine ⟨rfl, fun i hi _ => ?_⟩
    rw [set_header_id]
    exact write_apply_outside _ (Or.inr (by rw [bytes16_length]; omega))
  rw [adjust_id_and_ttl, records]
  dsimp only
  have hskip : (q.set_header { q.header with id := tid }).skip_questions q.header.qdcount
      = q.skip_questions q.header.qdcount := for_each_question_congr _ _ hagree _
  rw [hskip]
  cases hq : q.skip_questions q.header.qdcount with
  | error e => rfl
  | ok p =>
      obtain ⟨off, question⟩ := p
      have hoff : 12 ≤ off := for_each_question_bounds hq
      simp only [Result.ok_bind]
      rw [adjust_loop_eq, get_rrs_congr _ (hagree.mono hoff), set_header_id]
      cases q.get_rrs (rr_count q.header) off <;> rfl

/-- `q'` is `q` with the id `tid` and with `ttl` for the TTL of every record but
the OPT pseudo record; everything else is as it was. -/
structure Rewritten (q q' : Query) (tid : ℕ) (ttl : ℤ) : Prop where
  size_eq : q'.size = q.size
  id_eq : q'.header.id = tid
  ttl_eq : ∀ rs, q.records = .ok rs → ∀ r ∈ rs, r.type ≠ rr_type.opt.code →
    slice q'.bytes (r.rr_off + 4) 4 = bytes32 (uint32 ttl)
  rest_eq : ∀ rs, q.records = .ok rs → ∀ i, 2 ≤ i → i < q.size → ¬ InTtl rs i →
    q'.bytes i = q.bytes i

theorem records_bounds {q : Query} {rs : List rr} (h : q.records = .ok rs) :
    (∀ r ∈ rs, 12 < r.rr_off ∧ r.rr_off + 10 ≤ q.size) ∧
      rs.Pairwise fun r r' => r.rr_off + 10 ≤ r'.rr_off := by
  rw [records, Result.bind_eq_ok] at h
  obtain ⟨⟨off, question⟩, hq, h⟩ := h
  have hoff : 12 ≤ off := for_each_question_bounds hq
  refine ⟨fun r hr => ?_, get_rrs_pairwise h⟩
  have := get_rrs_bounds h r hr
  omega

theorem adjust_id_and_ttl_rewritten {q : Query} {tid : ℕ} (htid : tid < 65536) (ttl : ℤ)
    {rs : List rr} (h : q.records = .ok rs) :
    ∃ q', q.adjust_id_and_ttl tid ttl = .ok q' ∧ Rewritten q q' tid ttl := by
  obtain ⟨hbounds, hpair⟩ := records_bounds h
  have hrs : ∀ rs', q.records = .ok rs' → rs' = rs := by
    intro rs' h'
    rw [h] at h'
    exact (Except.ok.inj h').symm
  refine ⟨{ q with bytes := rs.foldl (set_ttl ttl) (write q.bytes 0 (bytes16 tid)) },
    by rw [adjust_id_and_ttl_eq, h, Result.ok_bind], rfl, ?_, ?_, ?_⟩
  · -- no TTL lies in the two bytes of the id
    have hlow : ∀ i < 2, ¬ InTtl rs i := by
      rintro i hi ⟨r, hr, -, h₁, -⟩
      have := hbounds r hr
      omega
    rw [header, message_header.read]
    dsimp only
    rw [be16_congr (foldl_set_ttl_outside ttl _ (hlow 0 (by omega)))
      (foldl_set_ttl_outside ttl _ (hlow 1 (by omega))), be16_write_same]
    omega
  · -- the TTL fields do not overlap, so each keeps what was written into it
    intro rs' h' r hr hopt
    rw [hrs rs' h'] at hr
    exact foldl_set_ttl_field ttl _ hpair hr hopt
  · intro rs' h' i hi _ hin
    rw [hrs rs' h'] at hin
    dsimp only
    rw [foldl_set_ttl_outside ttl _ hin]
    exact write_apply_outside _ (Or.inr (by rw [bytes16_length]; omega))

end Cdns.Query
