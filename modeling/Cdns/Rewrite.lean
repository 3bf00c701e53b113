/-
What `adjust_id_and_ttl` leaves alone.

It walks over the records and overwrites the TTL of each of them behind itself, at a
place that it computes back from the end of the record. The walk reads what was there
before (`adjust_id_and_ttl_eq`), so that the bytes of the new message are known; here the
new message is parsed again. A record is found where it was, and the only field of it
that can differ is the TTL (`get_rr_patch`); so all the records are those of the old
message, with the new TTL in each but the OPT pseudo record (`records_adjust`), and the
smallest TTL of them is the one that was put in.
-/
import Cdns.AnswerSpec

set_option autoImplicit false

namespace Cdns.Query

open Lib.Storage

/-! ## Records in the new message -/

/-- The record with another TTL, unless it is the OPT pseudo record. -/
def with_ttl (ttl : ℤ) (r : rr) : rr :=
  if r.type ≠ rr_type.opt.code then { r with ttl := ttl } else r

@[simp] theorem with_ttl_type (ttl : ℤ) (r : rr) : (with_ttl ttl r).type = r.type := by
  unfold with_ttl
  split_ifs <;> rfl

theorem size_of_get_rr_name {q : Query} {off o : ℕ} {owner : Str}
    (h : q.get_rr_name off = .ok (o, owner)) : 12 ≤ q.size := by
  have hwire : message_header.wire_size = 12 := rfl
  rw [get_rr_name] at h
  split_ifs at h with hs
  omega

theorem size_of_get_rr {q : Query} {off e : ℕ} {r : rr} (h : q.get_rr off = .ok (r, e)) :
    12 ≤ q.size := by
  rw [get_rr, Result.bind_eq_ok] at h
  obtain ⟨⟨o, owner⟩, hname, -⟩ := h
  exact size_of_get_rr_name hname

/-- A record whose TTL alone was overwritten is found with that TTL. -/
theorem get_rr_patch {q q' : Query} {off e : ℕ} {r : rr} (hsize : q'.size = q.size)
    (h : q.get_rr off = .ok (r, e))
    (hb : ∀ i, off ≤ i → i < e → ¬ (r.rr_off + 4 ≤ i ∧ i < r.rr_off + 8) →
      q.bytes i = q'.bytes i) :
    q'.get_rr off = .ok ({ r with ttl := int32 (be32 q'.bytes (r.rr_off + 4)) }, e) := by
  rw [get_rr, Result.bind_eq_ok] at h
  obtain ⟨⟨o, owner⟩, hname, h⟩ := h
  obtain ⟨hlt, -⟩ := get_rr_name_bounds hname
  dsimp only at h
  split_ifs at h with h₁ h₂
  obtain ⟨hr, he⟩ := Prod.mk.inj (Except.ok.inj h)
  have hro : r.rr_off = o := by rw [← hr]
  -- the name lies before the header of the record, the data behind it
  have hname' : q'.get_rr_name off = .ok (o, owner) := by
    apply get_rr_name_extend hname
    · intro i hi₁ hi₂
      exact hb i hi₁ (by omega) (by omega)
    · omega
    · rw [hsize]
      exact size_of_get_rr_name hname
  have hfield : ∀ k, k + 2 ≤ 4 ∨ k = 8 → be16 q.bytes (o + k) = be16 q'.bytes (o + k) := by
    intro k hk
    exact be16_congr (hb _ (by omega) (by omega) (by omega)) (hb _ (by omega) (by omega) (by omega))
  have htype : be16 q.bytes o = be16 q'.bytes o := hfield 0 (by omega)
  have hdata : slice q.bytes (o + 10) (be16 q.bytes (o + 8)) =
      slice q'.bytes (o + 10) (be16 q.bytes (o + 8)) := by
    apply slice_congr
    intro i hi₁ hi₂
    exact hb i (by omega) (by omega) (by omega)
  rw [get_rr, hname', Result.ok_bind]
  dsimp only
  rw [← hfield 8 (by omega), if_neg (by omega), if_neg (by omega), ← htype,
    ← hfield 2 (by omega), ← hdata, ← hr, ← he]

/-- **The records are the same up to the TTL.** -/
theorem get_rrs_patch {q q' : Query} {ttl : ℤ} (h₁ : -2147483648 ≤ ttl) (h₂ : ttl < 2147483648)
    (hsize : q'.size = q.size) {n off : ℕ} {rs : List rr} (h : q.get_rrs n off = .ok rs)
    (hb : ∀ i, off ≤ i → i < q.size → ¬ InTtl rs i → q.bytes i = q'.bytes i)
    (httl : ∀ r ∈ rs, r.type ≠ rr_type.opt.code →
      slice q'.bytes (r.rr_off + 4) 4 = bytes32 (uint32 ttl)) :
    q'.get_rrs n off = .ok (rs.map (with_ttl ttl)) := by
  induction n generalizing off rs with
  | zero =>
      rw [get_rrs] at h
      rw [← Except.ok.inj h]
      rfl
  | succ n ih =>
      obtain ⟨r, e, rs', hr, hrs, rfl⟩ := get_rrs_succ_eq_ok h
      obtain ⟨hoff, hend, hle⟩ := get_rr_bounds hr
      -- up to its end, only the TTL of this record can have been overwritten
      have hfirst : ∀ i, off ≤ i → i < e → ¬ InTtl [r] i → q.bytes i = q'.bytes i := by
        intro i hi₁ hi₂ hin
        refine hb i hi₁ (by omega) ?_
        rintro ⟨r', hr', htype, h₃, h₄⟩
        rcases List.mem_cons.mp hr' with rfl | hr'
        · exact hin ⟨r', List.mem_singleton_self r', htype, h₃, h₄⟩
        · have := get_rrs_bounds hrs r' hr'
          omega
      -- and behind it, only the TTLs of the others
      have hrest : q'.get_rrs n e = .ok (rs'.map (with_ttl ttl)) := by
        refine ih hrs ?_ fun r' hr' => httl r' (List.mem_cons_of_mem r hr')
        intro i hi₁ hi₂ hin
        refine hb i (by omega) hi₂ ?_
        rintro ⟨r', hr', htype, h₃, h₄⟩
        rcases List.mem_cons.mp hr' with rfl | hr'
        · omega
        · exact hin ⟨r', hr', htype, h₃, h₄⟩
      have hrec : q'.get_rr off = .ok (with_ttl ttl r, e) := by
        by_cases htype : r.type ≠ rr_type.opt.code
        · have hpatch := get_rr_patch hsize hr fun i hi₁ hi₂ hin => by
            refine hfirst i hi₁ hi₂ ?_
            rintro ⟨r', hr', -, h₃, h₄⟩
            rw [List.mem_singleton.mp hr'] at h₃ h₄
            exact hin ⟨h₃, h₄⟩
          have hval := be32_of_slice (httl r (List.mem_cons_self ..) htype)
          have hlt : uint32 ttl < 4294967296 := by
            unfold uint32
            omega
          rw [hpatch, hval, Nat.mod_eq_of_lt hlt, int32_uint32 h₁ h₂, with_ttl, if_pos htype]
        · rw [with_ttl, if_neg htype]
          refine get_rr_extend hr (fun i hi₁ hi₂ => hfirst i hi₁ hi₂ ?_) (by omega) ?_
          · rintro ⟨r', hr', h₃, -⟩
            rw [List.mem_singleton.mp hr'] at h₃
            exact htype h₃
          · rw [hsize]
            exact size_of_get_rr hr
      rw [get_rrs, hrec, Result.ok_bind]
      dsimp only
      rw [hrest]
      rfl

/-! ## The smallest TTL -/

/-- The minimum that `answer_min_ttl` computes over the records. -/
def min_ttl (rs : List rr) : ℤ :=
  rs.foldl (fun m r => if r.type ≠ rr_type.opt.code ∧ r.ttl < m then r.ttl else m) 2147483647

theorem get_rrs_length {q : Query} {n off : ℕ} {rs : List rr} (h : q.get_rrs n off = .ok rs) :
    rs.length = n := by
  induction n generalizing off rs with
  | zero =>
      rw [get_rrs] at h
      rw [← Except.ok.inj h]
      rfl
  | succ n ih =>
      obtain ⟨r, e, rs', -, hrs, rfl⟩ := get_rrs_succ_eq_ok h
      rw [List.length_cons, ih hrs]

theorem records_length {q : Query} {rs : List rr} (h : q.records = .ok rs) :
    rs.length = rr_count q.header := by
  rw [records, Result.bind_eq_ok] at h
  obtain ⟨⟨off, question⟩, -, hrs⟩ := h
  exact get_rrs_length hrs

/-- The smallest TTL of a response of class IN that is neither truncated nor a failure. -/
theorem answer_min_ttl_of_records {q : Query} {owner : Str} {type : ℕ} {rs : List rr}
    (htc : q.header.tc = false)
    (hrcode : q.rcode = pkt_rcode.noerror.code ∨ q.rcode = pkt_rcode.nxdomain.code)
    (hqr : q.header.qr = true)
    (hq : q.get_question = .ok (owner, rr_class.internet.code, type))
    (hrs : q.records = .ok rs) :
    q.answer_min_ttl = .ok (if rs = [] then 0 else min_ttl rs) := by
  obtain ⟨-, r, off, -, -, hclass, -, -, hskip⟩ := get_question_walk hq
  have hlen := records_length hrs
  rw [records, hskip, Result.ok_bind] at hrs
  unfold answer_min_ttl
  dsimp only at hrs ⊢
  rw [htc, hqr, if_neg (by simp), if_neg (by tauto), if_neg (by simp)]
  by_cases hnil : rs = []
  · rw [if_pos (by rw [← hlen, hnil, List.length_nil]), if_pos hnil]
  · have hcount : rr_count q.header ≠ 0 := by
      rw [← hlen]
      exact fun h => hnil (List.length_eq_zero_iff.mp h)
    rw [if_neg hcount, hskip, Result.ok_bind, if_neg hnil]
    dsimp only
    rw [if_neg (by simp [hclass])]
    -- the loop folds over the records
    rcases for_each_get_rr q (fun m (r : rr) =>
      if r.type ≠ rr_type.opt.code ∧ r.ttl < m then r.ttl else m)
      (rr_count q.header) off (2147483647 : ℤ) with ⟨e, he, -⟩ | ⟨rs', o, hrs', hf⟩
    · rw [hrs] at he
      exact absurd he (by simp)
    · rw [hrs] at hrs'
      rw [hf, Result.ok_bind, ← Except.ok.inj hrs']
      rfl

/-- The minimum from any start is below the start and below every TTL that counts, and
one of them. -/
theorem foldl_min_ttl (rs : List rr) (m : ℤ) :
    let v := rs.foldl (fun m r => if r.type ≠ rr_type.opt.code ∧ r.ttl < m then r.ttl else m) m
    v ≤ m ∧ (∀ r ∈ rs, r.type ≠ rr_type.opt.code → v ≤ r.ttl) ∧
      (v = m ∨ ∃ r ∈ rs, r.type ≠ rr_type.opt.code ∧ v = r.ttl) := by
  induction rs generalizing m with
  | nil => exact ⟨le_refl m, by simp, Or.inl rfl⟩
  | cons r rs ih =>
      dsimp only at ih ⊢
      rw [List.foldl_cons]
      obtain ⟨h₁, h₂, h₃⟩ := ih (if r.type ≠ rr_type.opt.code ∧ r.ttl < m then r.ttl else m)
      refine ⟨?_, ?_, ?_⟩
      · refine le_trans h₁ ?_
        split_ifs with h
        · exact le_of_lt h.2
        · exact le_refl m
      · intro r' hr' htype
        rcases List.mem_cons.mp hr' with rfl | hr'
        · refine le_trans h₁ ?_
          split_ifs with h
          · exact le_refl _
          · exact not_lt.mp fun hlt => h ⟨htype, hlt⟩
        · exact h₂ r' hr' htype
      · rcases h₃ with h₃ | ⟨r', hr', htype, h₃⟩
        · rw [h₃]
          split_ifs with h
          · exact Or.inr ⟨r, List.mem_cons_self .., h.1, rfl⟩
          · exact Or.inl rfl
        · exact Or.inr ⟨r', List.mem_cons_of_mem r hr', htype, h₃⟩

theorem min_ttl_le {rs : List rr} {r : rr} (hr : r ∈ rs) (htype : r.type ≠ rr_type.opt.code) :
    min_ttl rs ≤ r.ttl := (foldl_min_ttl rs 2147483647).2.1 r hr htype

/-- Records that share one TTL have it as their minimum. -/
theorem min_ttl_with_ttl {rs : List rr} {ttl : ℤ} (hlt : ttl < 2147483648) {r : rr} (hr : r ∈ rs)
    (htype : r.type ≠ rr_type.opt.code) : min_ttl (rs.map (with_ttl ttl)) = ttl := by
  have hset : ∀ r' : rr, r'.type ≠ rr_type.opt.code → (with_ttl ttl r').ttl = ttl := by
    intro r' htype'
    rw [with_ttl, if_pos htype']
  have hle : min_ttl (rs.map (with_ttl ttl)) ≤ ttl := by
    have h := min_ttl_le (List.mem_map_of_mem (f := with_ttl ttl) hr)
      (by rw [with_ttl_type]; exact htype)
    rwa [hset r htype] at h
  rcases (foldl_min_ttl (rs.map (with_ttl ttl)) 2147483647).2.2 with h | ⟨r', hr', htype', h⟩
  · change min_ttl (rs.map (with_ttl ttl)) = _ at h
    omega
  · obtain ⟨r₀, -, rfl⟩ := List.mem_map.mp hr'
    rw [with_ttl_type] at htype'
    rw [hset r₀ htype'] at h
    exact h

/-! ## The whole message -/

/-- One question is walked over. -/
theorem skip_questions_of_rr_question {q : Query} {r : rr} {off : ℕ}
    (hqd : q.header.qdcount = 1) (hr : q.get_rr_question 12 = .ok (r, off)) :
    q.skip_questions q.header.qdcount = .ok (off, some r) := by
  have hwire : message_header.wire_size = 12 := rfl
  rw [skip_questions, hqd, for_each, hwire, hr]
  rfl

section Adjust

variable {q q' : Query} {tid : ℕ} {ttl : ℤ} {rs : List rr}

/-- The bytes of the new message. -/
theorem adjust_id_and_ttl_bytes (tid : ℕ) (ttl : ℤ) (hrs : q.records = .ok rs) :
    q.adjust_id_and_ttl tid ttl
      = .ok { q with bytes := rs.foldl (set_ttl ttl) (write q.bytes 0 (bytes16 tid)) } := by
  rw [adjust_id_and_ttl_eq, hrs, Result.ok_bind]

/-- Nothing but the id and the TTLs is overwritten. -/
theorem adjust_outside (hrs : q.records = .ok rs) (h : q.adjust_id_and_ttl tid ttl = .ok q') :
    q'.size = q.size ∧ ∀ i, 2 ≤ i → ¬ InTtl rs i → q'.bytes i = q.bytes i := by
  rw [adjust_id_and_ttl_bytes tid ttl hrs] at h
  rw [← Except.ok.inj h]
  refine ⟨rfl, fun i hi hin => ?_⟩
  dsimp only
  rw [foldl_set_ttl_outside ttl _ hin]
  apply write_apply_outside
  rw [bytes16_length]
  omega

/-- The TTLs lie behind the header. -/
theorem not_inTtl_header (hrs : q.records = .ok rs) {i : ℕ} (hi : i < 12) : ¬ InTtl rs i := by
  rintro ⟨r, hr, -, h, -⟩
  have := (records_bounds hrs).1 r hr
  omega

/-- The header has the new id, and the rest of it is the same. -/
theorem header_adjust (htid : tid < 65536) (hrs : q.records = .ok rs)
    (h : q.adjust_id_and_ttl tid ttl = .ok q') : q'.header = { q.header with id := tid } := by
  have hv := message_header.read_valid q.bytes
  rw [← set_header_header q (h := { q.header with id := tid })
    ⟨htid, hv.opcode, hv.rcode, hv.z, hv.qdcount, hv.ancount, hv.nscount, hv.arcount⟩]
  apply message_header.read_congr
  intro i hi
  rw [adjust_id_and_ttl_bytes tid ttl hrs] at h
  rw [← Except.ok.inj h, set_header_id]
  exact foldl_set_ttl_outside ttl _ (not_inTtl_header hrs hi)

/-- The question is found where it was: the TTLs lie behind it. -/
theorem get_rr_question_adjust (hqd : q.header.qdcount = 1) {r : rr} {off : ℕ}
    (hr : q.get_rr_question 12 = .ok (r, off)) (hrs : q.records = .ok rs)
    (h : q.adjust_id_and_ttl tid ttl = .ok q') :
    q'.get_rr_question 12 = .ok (r, off) ∧ q'.header.qdcount = 1 := by
  have hoff := get_rr_question_bounds hr
  obtain ⟨hsize, hout⟩ := adjust_outside hrs h
  have hbytes : ∀ i, 2 ≤ i → i < off → q.bytes i = q'.bytes i := by
    intro i h₁ h₂
    refine (hout i h₁ ?_).symm
    rw [records, skip_questions_of_rr_question hqd hr, Result.ok_bind] at hrs
    rintro ⟨r', hr', -, h₃, -⟩
    have := get_rrs_bounds hrs r' hr'
    omega
  constructor
  · apply get_rr_question_extend hr
    · intro i h₁ h₂
      exact hbytes i (by omega) h₂
    · omega
    · omega
  · rw [← hqd]
    exact be16_congr (hbytes 4 (by omega) (by omega)).symm (hbytes 5 (by omega) (by omega)).symm

/-- The question of a message is the same after `adjust_id_and_ttl`. -/
theorem get_question_adjust {owner : Str} {class_ type : ℕ}
    (h : q.adjust_id_and_ttl tid ttl = .ok q')
    (hq : q.get_question = .ok (owner, class_, type)) :
    q'.get_question = .ok (owner, class_, type) := by
  obtain ⟨hqd, r, off, hr, howner, hclass, htype, -, -⟩ := get_question_walk hq
  obtain ⟨rs, hrs, -⟩ := Result.bind_eq_ok.mp ((adjust_id_and_ttl_eq q tid ttl).symm.trans h)
  obtain ⟨hr', hqd'⟩ := get_rr_question_adjust hqd hr hrs h
  rw [get_question_of_rr_question hqd' hr', howner, hclass, htype]

/-- **The records after `adjust_id_and_ttl`** are those before it, with the TTL that was
put in. -/
theorem records_adjust (htid : tid < 65536) (h₁ : -2147483648 ≤ ttl) (h₂ : ttl < 2147483648)
    (hq : q.get_question.returns) (hrs : q.records = .ok rs)
    (h : q.adjust_id_and_ttl tid ttl = .ok q') :
    q'.records = .ok (rs.map (with_ttl ttl)) := by
  obtain ⟨⟨owner, class_, type⟩, hq⟩ := hq
  obtain ⟨hqd, r, off, hr, -⟩ := get_question_walk hq
  obtain ⟨hr', hqd'⟩ := get_rr_question_adjust hqd hr hrs h
  obtain ⟨hsize, hout⟩ := adjust_outside hrs h
  have hoff := get_rr_question_bounds hr
  have hpair := (records_bounds hrs).2
  have hcount : rr_count q'.header = rr_count q.header := by
    rw [header_adjust htid hrs h]
    rfl
  have hbytes := adjust_id_and_ttl_bytes tid ttl hrs
  rw [h] at hbytes
  rw [records, skip_questions_of_rr_question hqd hr, Result.ok_bind] at hrs
  rw [records, skip_questions_of_rr_question hqd' hr', Result.ok_bind, hcount]
  refine get_rrs_patch h₁ h₂ hsize hrs ?_ ?_
  · intro i hi₁ _ hin
    exact (hout i (by omega) hin).symm
  · intro r' hmem htype
    rw [Except.ok.inj hbytes]
    exact foldl_set_ttl_field ttl _ hpair hmem htype

/-- **Rewriting touches nothing else.** Take a message with one question whose question and
records parse, a 16-bit id and a signed 32-bit TTL. `adjust_id_and_ttl` succeeds; the size
and every byte but those of the id and of the TTLs are as before; the header has the new
id, and a second parse finds the same question and the same records with the new TTL in
each but OPT. That TTL is then what `answer_min_ttl` returns, if it is not negative and the
message is a whole response of class IN without a failure that has a record besides OPT. -/
theorem adjust_id_and_ttl_frame (hq : q.get_question.returns) (hrs : q.records = .ok rs)
    (htid : tid < 65536) (h₁ : -2147483648 ≤ ttl) (h₂ : ttl < 2147483648) :
    ∃ q', q.adjust_id_and_ttl tid ttl = .ok q' ∧ q'.size = q.size ∧
      (∀ i, 2 ≤ i → ¬ InTtl rs i → q'.bytes i = q.bytes i) ∧
      q'.header = { q.header with id := tid } ∧
      q'.get_question = q.get_question ∧
      q'.records = .ok (rs.map (with_ttl ttl)) ∧
      (∀ owner type, 0 ≤ ttl → q.header.tc = false → q.header.qr = true →
        q.rcode = pkt_rcode.noerror.code ∨ q.rcode = pkt_rcode.nxdomain.code →
        q.get_question = .ok (owner, rr_class.internet.code, type) →
        (∃ r ∈ rs, r.type ≠ rr_type.opt.code) → q'.answer_min_ttl = .ok ttl) := by
  have h := adjust_id_and_ttl_bytes tid ttl hrs
  refine ⟨_, h, rfl, (adjust_outside hrs h).2, header_adjust htid hrs h, ?_,
    records_adjust htid h₁ h₂ hq hrs h, ?_⟩
  · obtain ⟨⟨owner, class_, type⟩, hq⟩ := hq
    rw [hq]
    exact get_question_adjust h hq
  · intro owner type _ htc hqr hrcode hclass hsome
    obtain ⟨r, hr, htype⟩ := hsome
    have hhead := header_adjust htid hrs h
    have hne : rs.map (with_ttl ttl) ≠ [] := by
      rw [Ne, List.map_eq_nil_iff]
      exact List.ne_nil_of_mem hr
    rw [answer_min_ttl_of_records (by rw [hhead]; exact htc) (by rw [rcode, hhead]; exact hrcode)
      (by rw [hhead]; exact hqr) (get_question_adjust h hclass)
      (records_adjust htid h₁ h₂ hq hrs h), if_neg hne, min_ttl_with_ttl h₂ hr htype]

end Adjust

/-- An answer for the address of `a.` with a TTL of 300, and the OPT record of EDNS. -/
def sampleEdns : Query :=
  Query.of_bytes [0x12, 0x34, 0x81, 0x80, 0, 1, 0, 1, 0, 0, 0, 1, 1, 97, 0, 0, 1, 0, 1,
    0xc0, 12, 0, 1, 0, 1, 0, 0, 1, 0x2c, 0, 4, 10, 0, 0, 1,
    0, 0, 41, 16, 0, 0, 0, 0x80, 0, 0, 0] (by decide)

theorem adjust_id_and_ttl_frame_sample : ∃ q', sampleEdns.adjust_id_and_ttl 7 60 = .ok q' ∧
    q'.size = 46 ∧ q'.header = { sampleEdns.header with id := 7 } ∧
    q'.answer_min_ttl = .ok 60 := by
  have hquestion : sampleEdns.get_question = .ok ("a.".toList, 1, 1) := rfl
  have hrecords : ∃ rs, sampleEdns.records = .ok rs ∧ ∃ r ∈ rs, r.type ≠ rr_type.opt.code :=
    ⟨_, rfl, _, List.mem_cons_self .., by decide⟩
  obtain ⟨rs, hrs, hsome⟩ := hrecords
  obtain ⟨q', h, hsize, -, hhead, -, -, hmin⟩ :=
    @adjust_id_and_ttl_frame sampleEdns 7 60 rs ⟨_, hquestion⟩ hrs (by decide) (by decide)
      (by decide)
  exact ⟨q', h, hsize, hhead, hmin _ _ (by decide) (by decide) (by decide) (Or.inl rfl) hquestion
    hsome⟩

end Cdns.Query
