/-
How long an answer lives in the cache, seen from the TTLs of its records.

`answer_min_ttl` counts the OPT pseudo record among the records when it looks whether
there are any, and skips it when it takes the minimum. `AddsOpt` is the insertion of such
a record into the additional section, byte by byte. The other records are found where they
were or behind it (`records_adds_opt`), so the minimum is the same; what changes is whether
it is taken at all. A message without a record lives for `min_ttl`, and the same message
with an OPT record for a day (`answer_min_ttl_opt_iff`).

What is served is never older than it says: the TTL of a record that is served is what is
left of the time for which the message was stored, and that time is at most the TTL of each
record, or `min_ttl` (`served_ttl_le`).
-/
import Cdns.CacheServe

set_option autoImplicit false

namespace Cdns

open Lib.Storage Lib.Keyed

namespace Query

/-! ## An OPT record more -/

/-- An OPT record on the wire: the root for a name, and any class, TTL and data. -/
def opt_wire (class_ ttl : ℕ) (data : List UInt8) : List UInt8 :=
  [0] ++ bytes16 rr_type.opt.code ++ bytes16 class_ ++ bytes32 ttl ++ bytes16 data.length ++ data

theorem opt_wire_length (class_ ttl : ℕ) (data : List UInt8) :
    (opt_wire class_ ttl data).length = 11 + data.length := by
  simp [opt_wire]
  omega

/-- `m'` is `m` with an OPT record at `pos`, which lies behind the answers, the authority
records and some of the additional records, and with one more in the count of these. -/
structure AddsOpt (m m' : Query) (pos class_ ttl : ℕ) (data : List UInt8) : Prop where
  place : ∃ qs off i rs, m.questions = .ok (qs, off) ∧ i ≤ m.header.arcount ∧
    collect m.get_rr (m.header.ancount + m.header.nscount + i) off = .ok (rs, pos)
  data_lt : data.length < 65536
  size_eq : m'.size = m.size + (11 + data.length)
  header_eq : m'.header = { m.header with arcount := m.header.arcount + 1 }
  before : ∀ i, 12 ≤ i → i < pos → m'.bytes i = m.bytes i
  record : slice m'.bytes pos (11 + data.length) = opt_wire class_ ttl data
  behind : ∀ i, pos ≤ i → i < m.size → m'.bytes (i + (11 + data.length)) = m.bytes i

section AddsOpt

variable {m m' : Query} {pos class_ ttl : ℕ} {data : List UInt8}

/-- The new record is read as an OPT record. -/
theorem AddsOpt.get_rr (h : AddsOpt m m' pos class_ ttl data) (hpos : pos ≤ m.size)
    (hsize : 12 ≤ m.size) :
    ∃ o, m'.get_rr pos = .ok (o, pos + (11 + data.length)) ∧ o.type = rr_type.opt.code := by
  have hlt := h.data_lt
  have hsize' := h.size_eq
  have hslice := h.record
  rw [← opt_wire_length class_ ttl data, opt_wire] at hslice
  -- the fields of the record, one behind the other
  obtain ⟨hslice, -⟩ := slice_eq_append hslice
  obtain ⟨hslice, hlen⟩ := slice_eq_append hslice
  obtain ⟨hslice, -⟩ := slice_eq_append hslice
  obtain ⟨hslice, -⟩ := slice_eq_append hslice
  obtain ⟨hslice, htype⟩ := slice_eq_append hslice
  have hbyte : m'.bytes pos = 0 := (List.cons.inj hslice).1
  -- its name is the root, one byte
  have hname : m'.get_rr_name pos = .ok (pos + 1, []) := by
    have e₁ : message_header.wire_size = 12 := rfl
    refine get_rr_name_eq_ok.mpr ⟨by omega, by omega, .root ?_ (by omega)⟩
    rw [hbyte]
    rfl
  have htype' : be16 m'.bytes (pos + 1) = rr_type.opt.code := be16_of_slice htype
  have hlen' : be16 m'.bytes (pos + 1 + 8) = data.length :=
    (be16_of_slice hlen).trans (Nat.mod_eq_of_lt hlt)
  rw [Query.get_rr, hname, Result.ok_bind]
  dsimp only
  have hend : pos + 1 + 10 + data.length = pos + (11 + data.length) := by omega
  rw [hlen', if_neg (by omega), if_neg (by omega), hend]
  exact ⟨_, rfl, htype'⟩

/-- **The records of the new message** are those of the old one and, between two of them,
the OPT record. -/
theorem AddsOpt.records (h : AddsOpt m m' pos class_ ttl data) (hqd : m.header.qdcount = 1)
    {rs : List rr} (hrs : m.records = .ok rs) :
    ∃ rs₁ o rs₂, rs = rs₁ ++ rs₂ ∧ o.type = rr_type.opt.code ∧
      m'.records = .ok (rs₁ ++ o :: rs₂.map (rr.shift (11 + data.length))) ∧
      m'.get_question = m.get_question := by
  obtain ⟨qs, off, i, rs₁, hqs, hi, hbefore⟩ := h.place
  obtain ⟨hoff, hoffle, r, -, hr⟩ := questions_bounds hqd hqs
  obtain ⟨hpos, hposle⟩ := collect_bounds hbefore
  have hsize := h.size_eq
  -- the records in front of the new one, and those behind it
  have hskip := skip_questions_of_rr_question hqd hr
  rw [Query.records, hskip, Result.ok_bind] at hrs
  obtain ⟨e, hall⟩ := get_rrs_eq_ok.mp hrs
  obtain ⟨n, hn⟩ : ∃ n, rr_count m.header = m.header.ancount + m.header.nscount + i + n :=
    ⟨m.header.arcount - i, by rw [rr_count]; omega⟩
  rw [hn] at hall
  obtain ⟨⟨rs₂, e'⟩, hbehind⟩ := (collect_add hbefore n).mp ⟨_, hall⟩
  have hsplit := collect_append hbefore hbehind
  rw [hall] at hsplit
  obtain ⟨rfl, rfl⟩ := Prod.mk.inj (Except.ok.inj hsplit)
  obtain ⟨hend, hendle⟩ := collect_bounds hbehind
  -- the same walks in the new message
  obtain ⟨o, ho, htype⟩ := h.get_rr (by omega) (by omega)
  have hfirst := collect_extend (a := m') hbefore
    (fun j hj₁ hj₂ => (h.before j (by omega) hj₂).symm) (by omega) (by omega)
  have hlast := collect_shift (a := m') (11 + data.length) hbehind
    (fun j hj₁ hj₂ => (h.behind j hj₁ (by omega)).symm) (by omega) (by omega)
  have hnew := collect_append hfirst (collect_succ_eq_ok.mpr ⟨o, _, _, ho, hlast, rfl⟩)
  have hr' := get_rr_question_extend (a := m') hr
    (fun j hj₁ hj₂ => (h.before j hj₁ (by omega)).symm) (by omega) (by omega)
  have hqd' : m'.header.qdcount = 1 := by
    rw [h.header_eq]
    exact hqd
  have hcount : rr_count m'.header = m.header.ancount + m.header.nscount + i + (n + 1) := by
    rw [rr_count] at hn
    rw [h.header_eq, rr_count]
    dsimp only
    omega
  refine ⟨rs₁, o, rs₂, rfl, htype, ?_, ?_⟩
  · rw [Query.records, skip_questions_of_rr_question hqd' hr', Result.ok_bind, hcount]
    exact get_rrs_eq_ok.mpr ⟨_, hnew⟩
  · rw [get_question_of_rr_question hqd' hr', get_question_of_rr_question hqd hr]

end AddsOpt

/-- The minimum skips an OPT record, and does not see where the records lie. -/
theorem min_ttl_opt (rs₁ rs₂ : List rr) {o : rr} (ho : o.type = rr_type.opt.code) (d : ℕ) :
    min_ttl (rs₁ ++ o :: rs₂.map (rr.shift d)) = min_ttl (rs₁ ++ rs₂) := by
  unfold min_ttl
  rw [List.foldl_append, List.foldl_append, List.foldl_cons, if_neg fun h => h.1 ho,
    List.foldl_map]
  rfl

/-- A truncated message has no lifetime. -/
theorem answer_min_ttl_truncated {q : Query} (h : q.header.tc = true) :
    q.answer_min_ttl = .ok 0 := by
  unfold answer_min_ttl
  exact if_pos h

/-- The lifetime of a whole response with an OPT record more. -/
theorem AddsOpt.answer_min_ttl {m m' : Query} {pos class_ ttl : ℕ} {data : List UInt8}
    (h : AddsOpt m m' pos class_ ttl data) (htc : m.header.tc = false)
    (hqr : m.header.qr = true)
    (hrcode : m.rcode = pkt_rcode.noerror.code ∨ m.rcode = pkt_rcode.nxdomain.code)
    {owner : Str} {type : ℕ} (hq : m.get_question = .ok (owner, rr_class.internet.code, type))
    {rs : List rr} (hrs : m.records = .ok rs) : m'.answer_min_ttl = .ok (min_ttl rs) := by
  obtain ⟨hqd, -⟩ := get_question_walk hq
  obtain ⟨rs₁, o, rs₂, rfl, ho, hrs', hq'⟩ := h.records hqd hrs
  have hhead := h.header_eq
  rw [answer_min_ttl_of_records (by rw [hhead]; exact htc) (by rw [rcode, hhead]; exact hrcode)
    (by rw [hhead]; exact hqr) (hq'.trans hq) hrs', if_neg (by simp), min_ttl_opt rs₁ rs₂ ho]

end Query

namespace Cache

/-- A whole answer of class IN whose records parse is filed. -/
theorem filed_of_question {m : Query} {owner : Str} {type : ℕ} (htc : m.header.tc = false)
    (hrcode : m.rcode = pkt_rcode.noerror.code ∨ m.rcode = pkt_rcode.nxdomain.code)
    (hq : m.get_question = .ok (owner, rr_class.internet.code, type))
    (hrs : m.records.returns) : filed m = some (ascii_tolower owner, type) := by
  rw [filed_eq_accepted (answer_min_ttl_returns hrs), accepted, if_pos ⟨htc, hrcode⟩, hq]
  exact if_pos rfl

/-- When a message that was stored is to be dropped. -/
def deadline_of (c : Cache) (k : Str × ℕ) : Option ℤ := (c.entries.lookup k).map (·.deadline)

/-- What `store` does depends on the question, the lifetime and the flags. -/
theorem deadline_of_store {m m' : Query} (htc : m'.header.tc = m.header.tc)
    (hrcode : m'.rcode = m.rcode) (hq : m'.get_question = m.get_question)
    (hmin : m'.answer_min_ttl = m.answer_min_ttl) (c : Cache) (t : ℤ) (k : Str × ℕ) :
    (c.step (.store t m')).deadline_of k = (c.step (.store t m)).deadline_of k := by
  have hfiled : filed m' = filed m := by
    rw [filed, filed, hmin, accepted, accepted, htc, hrcode, hq]
  have hlife : life c.min_ttl m' = life c.min_ttl m := by
    rw [life, life, hmin]
  rw [deadline_of, deadline_of, step_store_filed, step_store_filed, hfiled, hlife]
  split_ifs <;> rfl

/-- **When an OPT record does not change the lifetime.** Take a response of class IN with
the code 0 or 3, whose question and records parse, and add an OPT record, with any class,
TTL and data, to its additional section. The lifetime, and with it the deadline in any
cache, is the same exactly when the message had a record before, or is truncated. -/
theorem answer_min_ttl_opt_iff {m m' : Query} {pos class_ ttl : ℕ} {data : List UInt8}
    (h : Query.AddsOpt m m' pos class_ ttl data) (hqr : m.header.qr = true)
    (hrcode : m.rcode = pkt_rcode.noerror.code ∨ m.rcode = pkt_rcode.nxdomain.code)
    {owner : Str} {type : ℕ} (hq : m.get_question = .ok (owner, rr_class.internet.code, type))
    (hrs : m.records.returns) :
    (m'.answer_min_ttl = m.answer_min_ttl ∧ ∀ (c : Cache) (t : ℤ) (k : Str × ℕ),
        (c.step (.store t m')).deadline_of k = (c.step (.store t m)).deadline_of k) ↔
      m.header.tc = true ∨ 0 < Query.rr_count m.header := by
  obtain ⟨rs, hrs⟩ := hrs
  obtain ⟨hqd, -⟩ := Query.get_question_walk hq
  obtain ⟨-, -, -, -, -, -, hq'⟩ := h.records hqd hrs
  have htc' : m'.header.tc = m.header.tc := by rw [h.header_eq]
  have hrcode' : m'.rcode = m.rcode := by rw [Query.rcode, h.header_eq]; rfl
  -- the deadlines follow the lifetimes
  suffices hmin : m'.answer_min_ttl = m.answer_min_ttl ↔
      m.header.tc = true ∨ 0 < Query.rr_count m.header by
    rw [← hmin]
    exact ⟨fun hboth => hboth.1, fun heq => ⟨heq, deadline_of_store htc' hrcode' hq' heq⟩⟩
  cases htc : m.header.tc with
  | true =>
      rw [Query.answer_min_ttl_truncated htc, Query.answer_min_ttl_truncated (htc'.trans htc)]
      simp
  | false =>
      rw [h.answer_min_ttl htc hqr hrcode hq hrs,
        Query.answer_min_ttl_of_records htc hrcode hqr hq hrs, ← Query.records_length hrs]
      by_cases hnil : rs = []
      · -- nothing but the OPT record: the minimum is taken over nothing
        rw [if_pos hnil, hnil]
        refine iff_of_false ?_ (by simp)
        intro heq
        exact absurd (Except.ok.inj heq) (by decide)
      · rw [if_neg hnil]
        exact iff_of_true rfl (Or.inr (List.length_pos_iff.mpr hnil))

theorem sampleEdns_adds : Query.AddsOpt sample Query.sampleEdns 35 4096 0x8000 [] where
  place := ⟨_, _, 0, _, rfl, Nat.zero_le _, rfl⟩
  data_lt := by decide
  size_eq := rfl
  header_eq := by decide
  before := by
    intro i h₁ h₂
    interval_cases i
    all_goals rfl
  record := by decide
  behind := by
    intro i h₁ h₂
    have hsize : sample.size = 35 := rfl
    omega

/-- An answer with one record has the lifetime of that record with EDNS, too. -/
theorem answer_min_ttl_opt_iff_sample :
    Query.sampleEdns.answer_min_ttl = sample.answer_min_ttl := by
  have hquestion : sample.get_question = .ok ("a.".toList, 1, 1) := rfl
  exact ((answer_min_ttl_opt_iff sampleEdns_adds (by decide) (Or.inl rfl) hquestion ⟨_, rfl⟩).mpr
    (Or.inr (by decide))).1

/-- The answer that there is no address of `a.`, without any record. -/
def sampleNone : Query :=
  Query.of_bytes [0x12, 0x34, 0x81, 0x80, 0, 1, 0, 0, 0, 0, 0, 0, 1, 97, 0, 0, 1, 0, 1] (by decide)

/-- The same with the OPT record of EDNS. -/
def sampleNoneEdns : Query :=
  Query.of_bytes [0x12, 0x34, 0x81, 0x80, 0, 1, 0, 0, 0, 0, 0, 1, 1, 97, 0, 0, 1, 0, 1,
    0, 0, 41, 16, 0, 0, 0, 0x80, 0, 0, 0] (by decide)

theorem sampleNoneEdns_adds : Query.AddsOpt sampleNone sampleNoneEdns 19 4096 0x8000 [] where
  place := ⟨_, _, 0, _, rfl, Nat.zero_le _, rfl⟩
  data_lt := by decide
  size_eq := rfl
  header_eq := by decide
  before := by
    intro i h₁ h₂
    interval_cases i
    all_goals rfl
  record := by decide
  behind := by
    intro i h₁ h₂
    have hsize : sampleNone.size = 19 := rfl
    omega

/-- **An empty answer** lives for `min_ttl`, and with an OPT record for a day. -/
theorem opt_stretches_empty : Query.AddsOpt sampleNone sampleNoneEdns 19 4096 0x8000 [] ∧
    sampleNone.header.qr = true ∧ sampleNone.rcode = pkt_rcode.noerror.code ∧
    sampleNone.get_question = .ok ("a.".toList, rr_class.internet.code, 1) ∧
    sampleNone.records.returns ∧
    sampleNone.answer_min_ttl = .ok 0 ∧ sampleNoneEdns.answer_min_ttl = .ok 2147483647 ∧
    ((empty 60).step (.store 100 sampleNone)).deadline_of ("a.".toList, 1) = some 160 ∧
    ((empty 60).step (.store 100 sampleNoneEdns)).deadline_of ("a.".toList, 1) = some 86500 := by
  have hquestion : sampleNone.get_question = .ok ("a.".toList, 1, 1) := rfl
  have hmin : sampleNoneEdns.answer_min_ttl = .ok 2147483647 :=
    sampleNoneEdns_adds.answer_min_ttl (by decide) (by decide) (Or.inl rfl) hquestion rfl
  have hquestion' : sampleNoneEdns.get_question = .ok ("a.".toList, 1, 1) := rfl
  have hfiled : filed sampleNoneEdns = some ("a.".toList, 1) :=
    filed_of_question (by decide) (Or.inl rfl) hquestion' ⟨_, rfl⟩
  have hlife : life 60 sampleNoneEdns = 86400 := by
    rw [life, hmin]
    exact min_eq_left (le_max_of_le_left (by decide))
  refine ⟨sampleNoneEdns_adds, by decide, rfl, hquestion, ⟨_, rfl⟩, rfl, hmin, rfl, ?_⟩
  rw [deadline_of, step_store_filed, if_pos hfiled]
  show some (100 + life 60 sampleNoneEdns) = some 86500
  rw [hlife]
  rfl

/-! ## The TTL that is served -/

/-- An entry that is found after operations that file nothing under its key was there
before them. -/
theorem lookup_of_steps {c : Cache} {k : Str × ℕ} {ops : List Op}
    (hops : ∀ t m, Op.store t m ∈ ops → filed m ≠ some k) {e : cache_entry}
    (h : (ops.foldl step c).entries.lookup k = some e) : c.entries.lookup k = some e := by
  induction ops generalizing c with
  | nil => exact h
  | cons op ops ih =>
      have hrest := ih (fun t m hm => hops t m (List.mem_cons_of_mem op hm)) h
      cases op with
      | store t m =>
          rwa [step_store_filed, if_neg (hops t m (List.mem_cons_self ..))] at hrest
      | retrieve t m => exact hrest
      | collect_garbage t =>
          rw [step, collect_garbage, KeyedSet.lookup_filter, Option.filter_eq_some_iff] at hrest
          exact hrest.1

/-- The flags of a message that was filed. -/
theorem storable_of_filed {m : Query} {k : Str × ℕ} (h : filed m = some k) :
    m.header.tc = false ∧
      (m.rcode = pkt_rcode.noerror.code ∨ m.rcode = pkt_rcode.nxdomain.code) := by
  have hacc := accepted_of_filed h
  unfold accepted at hacc
  split_ifs at hacc with hst
  exact hst

/-- **A message is kept no longer than its records say**, or for `min_ttl`. -/
theorem life_le_ttl {m : Query} {k : Str × ℕ} (hm : filed m = some k) {rs : List Query.rr}
    (hrs : m.records = .ok rs) {r : Query.rr} (hr : r ∈ rs) (htype : r.type ≠ rr_type.opt.code)
    (minttl : ℕ) : life minttl m ≤ max r.ttl minttl := by
  obtain ⟨htc, hrcode⟩ := storable_of_filed hm
  obtain ⟨owner, type, hq, -⟩ := accepted_eq_some (accepted_of_filed hm)
  refine le_trans (min_le_right _ _) (max_le ?_ (le_max_right _ _))
  by_cases hqr : m.header.qr = true
  · rw [Query.answer_min_ttl_of_records htc hrcode hqr hq hrs, if_neg (List.ne_nil_of_mem hr)]
    exact le_trans (Query.min_ttl_le hr htype) (le_max_left _ _)
  · -- a message that is no response counts as one without TTLs
    have hzero : m.answer_min_ttl = .ok 0 := by
      unfold Query.answer_min_ttl
      dsimp only
      rw [htc, if_neg (by simp), if_neg (by tauto), if_pos (Bool.not_eq_true _ ▸ hqr)]
    rw [hzero]
    exact le_trans (Int.natCast_nonneg minttl) (le_max_right _ _)

/-- **A TTL is never stretched beyond `min_ttl`.** Whatever is in the cache, store a
message at `t₀` and do anything that stores no other message under the same name and type.
If a query then hits at a time `t` not before `t₀`, the message it is given has the records
of the one that was stored, each but OPT with the same positive TTL, which is at most the
larger of the old TTL of the record and `min_ttl`, less the time since `t₀`. -/
theorem served_ttl_le {c : Cache} {t₀ t : ℤ} {m q q' : Query} {n : Str} {cl ty : ℕ}
    {ops : List Op} (hm : filed m = some (ascii_tolower n, ty))
    (hops : ∀ t₁ m₁, Op.store t₁ m₁ ∈ ops → filed m₁ ≠ some (ascii_tolower n, ty))
    (hq : q.get_question = .ok (n, cl, ty)) (ht : t₀ ≤ t)
    (hhit : (ops.foldl step (c.step (.store t₀ m))).retrieve t q = .ok (true, q')) :
    ∃ rs ttl, m.records = .ok rs ∧ q'.records = .ok (rs.map (Query.with_ttl ttl)) ∧ 0 < ttl ∧
      ∀ r ∈ rs, r.type ≠ rr_type.opt.code → ttl ≤ max r.ttl c.min_ttl - (t - t₀) := by
  cases hlive : (ops.foldl step (c.step (.store t₀ m))).live t n ty with
  | none =>
      rw [retrieve_miss hq hlive] at hhit
      exact absurd (Prod.mk.inj (Except.ok.inj hhit)).1 (by simp)
  | some e =>
      obtain ⟨hlen, heq⟩ := retrieve_hit hq hlive
      rw [heq, Result.bind_eq_ok] at hhit
      obtain ⟨m', hadjust, hhit⟩ := hhit
      obtain ⟨-, rfl⟩ := Prod.mk.inj (Except.ok.inj hhit)
      -- the entry is the one that was stored at `t₀`
      unfold live at hlive
      obtain ⟨hfind, hfresh⟩ := Option.filter_eq_some_iff.mp hlive
      rw [Bool.and_eq_true, decide_eq_true_eq, decide_eq_true_eq] at hfresh
      have hentry := lookup_of_steps hops hfind
      rw [step_store_filed, if_pos hm] at hentry
      have hresp : e.response = m.wire := by rw [← Option.some.inj hentry]
      have hdead : e.deadline = t₀ + life c.min_ttl m := by rw [← Option.some.inj hentry]
      -- the time that is left fits into 32 bits
      have hlife := life_le c.min_ttl m
      have hleft := hfresh.2
      rw [hdead] at hleft hadjust
      rw [Query.int32_uint32 (by omega) (by omega), of_bytes_response hresp] at hadjust
      obtain ⟨owner, type, hquestion, -⟩ := accepted_eq_some (accepted_of_filed hm)
      have hsize := Query.size_of_get_question hquestion
      obtain ⟨rs, hrs, -⟩ := Result.bind_eq_ok.mp
        ((Query.adjust_id_and_ttl_eq _ _ _).symm.trans hadjust)
      have hrecords := Query.records_adjust (be16_lt q.bytes 0) (by omega) (by omega)
        (by rw [get_question_restored (by omega)]; exact ⟨_, hquestion⟩) hrs hadjust
      rw [records_restored (by omega)] at hrs
      refine ⟨rs, t₀ + life c.min_ttl m - t, hrs, hrecords, by omega, ?_⟩
      intro r hr htype
      have hle := life_le_ttl hm hrs hr htype c.min_ttl
      omega

/-- An answer with the TTL 300 is stored, swept over and served. -/
theorem served_ttl_le_sample : ∃ q',
    ((empty 60).step (.store 100 sample) |>.step (.collect_garbage 110)).retrieve 120 sample
        = .ok (true, q') ∧
      ∃ rs ttl, sample.records = .ok rs ∧ q'.records = .ok (rs.map (Query.with_ttl ttl)) ∧
        0 < ttl ∧ ∀ r ∈ rs, r.type ≠ rr_type.opt.code → ttl ≤ max r.ttl 60 - 20 := by
  have hquestion : sample.get_question = .ok ("a.".toList, 1, 1) := rfl
  have hfiled := filed_of_question (by decide) (Or.inl rfl) hquestion ⟨_, rfl⟩
  have hlive : ∃ e, ((empty 60).step (.store 100 sample) |>.step (.collect_garbage 110)).live 120
      "a.".toList 1 = some e ∧ e.response = sample.wire := ⟨_, rfl, rfl⟩
  obtain ⟨e, hlive, hresp⟩ := hlive
  have hserve : Servable e := by
    intro hlen
    rw [of_bytes_response hresp, records_restored (by decide)]
    exact ⟨_, rfl⟩
  obtain ⟨hlen, heq⟩ := retrieve_hit hquestion hlive
  obtain ⟨rs, hrs⟩ := hserve hlen
  have hhit := heq
  rw [Query.adjust_id_and_ttl_bytes _ _ hrs, Result.ok_bind] at hhit
  exact ⟨_, hhit, @served_ttl_le (empty 60) 100 120 sample sample _ "a.".toList 1 1
    [.collect_garbage 110] hfiled (by simp) hquestion (by decide) hhit⟩

end Cache

end Cdns
