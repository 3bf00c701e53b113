/-
Answers from the hosts file (`responder::pre_filter`, `query::set_answer`).

`pre_filter` looks the name up whatever the question is about, and `set_answer` adds
an A record with the four bytes that a `sockaddr_in` has its address in, right behind
the answers that the query counts. So the result is a right answer for a question of
type A about a name with an IPv4 address, in a query without any record behind the
question (`pre_filter_hosts_iff`). For other questions the type is wrong, for an IPv6
address the data are, and a record behind the question is cut off while the header
still counts it.
-/
import Cdns.ResponderSpec

set_option autoImplicit false

namespace Cdns

open Lib.Storage

namespace Query

/-- The records of the three sections behind the questions, and where they end. -/
def sections (q : Query) : Result (List rr × ℕ) := do
  let (_, off) ← q.questions
  collect q.get_rr (rr_count q.header) off

/-- The additional records. -/
def additional (q : Query) : Result (List rr) := do
  let (rs, _) ← q.sections
  .ok (rs.drop (q.header.ancount + q.header.nscount))

/-- A record without its place in the message. -/
def rr.shown (r : rr) : Str × ℕ × ℕ × ℤ × List UInt8 := (r.owner, r.type, r.class_, r.ttl, r.data)

theorem sections_of_questions {q : Query} {qs : List rr} {off : ℕ}
    (h : q.questions = .ok (qs, off)) : q.sections = collect q.get_rr (rr_count q.header) off := by
  rw [sections, h]
  rfl

theorem records_of_sections {q : Query} (h : q.sections.returns) : q.records.returns := by
  obtain ⟨⟨rs, e⟩, h⟩ := h
  obtain ⟨⟨qs, off⟩, hqs, hrs⟩ := Result.bind_eq_ok.mp h
  obtain ⟨x, hskip⟩ := (skip_questions_returns q off).mpr ⟨qs, hqs⟩
  refine ⟨rs, ?_⟩
  rw [records, hskip, Result.ok_bind]
  exact get_rrs_eq_ok.mpr ⟨e, hrs⟩

end Query

/-- The type of a record with an address of the family. -/
def inet.rr_type : inet → ℕ
  | ipv4 => Cdns.rr_type.a.code
  | ipv6 => Cdns.rr_type.aaaa.code

/-- `m` answers `q`, a question for `type`, with the address `ip`: it parses to its end,
keeps the id, the question and the additional records, and has one answer, of the type
asked for and of the family of the address, with the address for its data. -/
structure HostsAnswered (net : Inet) (ip : Str) (type : ℕ) (q m : Query) : Prop where
  id_eq : m.header.id = q.header.id
  question_eq : m.get_question = q.get_question
  answer : ∃ a rest addr, m.sections = .ok (a :: rest, m.size) ∧ m.header.ancount = 1 ∧
    address.of_text net ip 0 = .ok addr ∧ a.type = type ∧ a.type = addr.inet.rr_type ∧
    a.data = addr.ip
  additional_eq : ∀ as, q.additional = .ok as →
    ∃ bs, m.additional = .ok bs ∧ bs.map Query.rr.shown = as.map Query.rr.shown

namespace responder

section Hosts

variable {env : Env} {r r' : responder} {q m : Query}

/-- When `pre_filter` answers from the hosts file. -/
theorem pre_filter_store (h : r.pre_filter env q = .ok (.store, m, r')) :
    ∃ owner class_ type, q.get_question = .ok (owner, class_, type) ∧
      q.set_answer env.net (r.hosts_response (Query.drop_dot owner)) = .ok m := by
  rw [pre_filter, Result.bind_eq_ok] at h
  obtain ⟨⟨owner, class_, type⟩, hq, h⟩ := h
  dsimp only at h
  obtain ⟨pass, -, h⟩ := Result.bind_eq_ok.mp h
  obtain ⟨u, -, h⟩ := Result.bind_eq_ok.mp h
  refine ⟨owner, class_, type, hq, ?_⟩
  by_cases hpass : pass = true
  · rw [if_pos hpass, pre_filter_passed] at h
    obtain ⟨⟨cr, q₁⟩, hret, h⟩ := Result.bind_eq_ok.mp h
    dsimp only at h
    by_cases hcr : cr = true
    · rw [if_pos hcr] at h
      simp at h
    rw [if_neg hcr] at h
    by_cases hip : r.hosts_response (Query.drop_dot owner) ≠ []
    · rw [if_pos hip] at h
      obtain ⟨m₁, hset, h⟩ := Result.bind_eq_ok.mp h
      obtain rfl : m₁ = m := by
        simp only [Except.ok.injEq, Prod.mk.injEq] at h
        exact h.2.1
      -- a miss of the cache leaves the query as it is
      cases hlive : r.cache.live env.tnow owner type with
      | none =>
          rw [Cache.retrieve_miss hq hlive] at hret
          obtain ⟨-, rfl⟩ := Prod.mk.inj (Except.ok.inj hret)
          exact hset
      | some e =>
          obtain ⟨hlen, hhit⟩ := Cache.retrieve_hit hq hlive
          rw [hhit] at hret
          obtain ⟨m₂, -, hret⟩ := Result.bind_eq_ok.mp hret
          obtain ⟨rfl, -⟩ := Prod.mk.inj (Except.ok.inj hret)
          exact absurd rfl hcr
    · rw [if_neg hip] at h
      simp at h
  · rw [if_neg hpass] at h
    simp at h

end Hosts

section SetAnswer

variable {net : Inet} {ip : Str} {q m : Query} {type : ℕ}

/-- What `set_answer` writes. -/
theorem set_answer_spec (h : q.set_answer net ip = .ok m) :
    ∃ addr, address.of_text net ip 0 = .ok addr ∧
      q.add_answer addr.sin_addr rr_type.a.code 10 = .ok m := by
  rw [Query.set_answer, Result.bind_eq_ok] at h
  obtain ⟨addr, haddr, h⟩ := h
  exact ⟨addr, haddr, h⟩

/-- In a query without records behind the question, the answer is all there is. -/
theorem sections_set_answer {addr : address}
    (h : q.add_answer addr.sin_addr rr_type.a.code 10 = .ok m)
    (hcount : Query.rr_count q.header = 0) :
    ∃ e, m.sections = .ok ([Query.answer_rr addr.sin_addr rr_type.a.code 10 e], m.size) := by
  obtain ⟨-, hqd, qs, off, rs, e, hqs, hrs, hsize, hbytes⟩ := Query.add_answer_spec h
  obtain ⟨qs', off', hqs', hqm⟩ := Query.add_answer_question h
  rw [Query.rr_count] at hcount
  -- nothing is skipped, so the answer stands right behind the question
  obtain rfl : e = off := by
    have han : q.header.ancount = 0 := by omega
    rw [han] at hrs
    exact (Prod.mk.inj (Except.ok.inj hrs)).2.symm
  obtain rfl : off' = e := by
    rw [hqs] at hqs'
    exact (Prod.mk.inj (Except.ok.inj hqs')).2.symm
  have hone : Query.rr_count m.header = 1 := by
    rw [Query.add_answer_header h, Query.rr_count, Query.answered_header]
    dsimp only
    omega
  have hr := Query.get_rr_add_answer addr.sin_addr_length_lt hbytes hsize
  refine ⟨off', ?_⟩
  rw [Query.sections_of_questions hqm, hone]
  exact Query.collect_succ_eq_ok.mpr ⟨_, m.size, [], hr, rfl, rfl⟩

/-- A message that parses and has one answer was made of a query without records behind
the question. -/
theorem rr_count_of_answered (h : q.set_answer net ip = .ok m)
    (ha : HostsAnswered net ip type q m) : Query.rr_count q.header = 0 := by
  obtain ⟨addr, -, hadd⟩ := set_answer_spec h
  obtain ⟨a, rest, addr', hsec, han, -⟩ := ha.answer
  have hzero := (Query.records_add_answer_iff addr.sin_addr_length_lt hadd).mp
    (Query.records_of_sections ⟨_, hsec⟩)
  have hlt := (message_header.read_valid q.bytes).ancount
  have hlt' : q.header.ancount < 65536 := hlt
  rw [Query.add_answer_header hadd, Query.answered_header] at han
  dsimp only at han
  rw [Query.rr_count]
  omega

/-- The answer is of type A, so only a question for that is answered. -/
theorem type_of_answered (h : q.set_answer net ip = .ok m)
    (ha : HostsAnswered net ip type q m) :
    type = rr_type.a.code ∧ ∃ addr, address.of_text net ip 0 = .ok addr ∧ addr.inet = .ipv4 := by
  have hcount := rr_count_of_answered h ha
  obtain ⟨addr, haddr, hadd⟩ := set_answer_spec h
  obtain ⟨e, hsec⟩ := sections_set_answer hadd hcount
  obtain ⟨a, rest, addr', hsec', -, haddr', htype, hfamily, -⟩ := ha.answer
  rw [hsec] at hsec'
  obtain ⟨hlist, -⟩ := Prod.mk.inj (Except.ok.inj hsec')
  obtain ⟨rfl, -⟩ := List.cons.inj hlist
  refine ⟨htype.symm, addr', haddr', ?_⟩
  -- no record of type A is one of the other family
  cases hinet : addr'.inet with
  | ipv4 => rfl
  | ipv6 =>
      rw [hinet] at hfamily
      exact absurd hfamily (by decide : ¬ (rr_type.a.code % 65536 = inet.ipv6.rr_type))

end SetAnswer

/-- **When an answer from the hosts file is right**: the question is for type A, the
address is of IPv4, and the query counts no record behind its question. -/
theorem pre_filter_hosts_iff {env : Env} {r r' : responder} {q m : Query}
    (h : r.pre_filter env q = .ok (.store, m, r')) :
    ∃ owner class_ type, q.get_question = .ok (owner, class_, type) ∧
      (HostsAnswered env.net (r.hosts_response (Query.drop_dot owner)) type q m ↔
        type = rr_type.a.code ∧
        (∃ addr, address.of_text env.net (r.hosts_response (Query.drop_dot owner)) 0 = .ok addr ∧
          addr.inet = .ipv4) ∧
        Query.rr_count q.header = 0) := by
  obtain ⟨owner, class_, type, hq, hset⟩ := pre_filter_store h
  refine ⟨owner, class_, type, hq, ?_⟩
  constructor
  · intro ha
    obtain ⟨htype, hipv4⟩ := type_of_answered hset ha
    exact ⟨htype, hipv4, rr_count_of_answered hset ha⟩
  · rintro ⟨htype, ⟨addr, haddr, hipv4⟩, hcount⟩
    obtain ⟨addr', haddr', hadd⟩ := set_answer_spec hset
    obtain rfl : addr' = addr := by
      rw [haddr] at haddr'
      exact (Except.ok.inj haddr').symm
    obtain ⟨e, hsec⟩ := sections_set_answer hadd hcount
    have hhead := Query.add_answer_header hadd
    have hcount' : q.header.ancount + q.header.arcount + q.header.nscount = 0 := hcount
    have han : m.header.ancount = 1 := by
      rw [hhead, Query.answered_header]
      dsimp only
      omega
    have hns : m.header.nscount = 0 := by
      rw [hhead, Query.answered_header]
      dsimp only
      omega
    have hdata : addr'.sin_addr = addr'.ip := by
      rw [address.sin_addr, hipv4]
    refine ⟨by rw [hhead]; rfl, ?_, ?_, ?_⟩
    · rw [Query.get_question_add_answer hadd hq, hq]
    · refine ⟨_, [], addr', hsec, han, haddr, ?_, ?_, hdata⟩
      · rw [htype]
        rfl
      · rw [hipv4]
        rfl
    · -- neither message has an additional record
      intro as has
      rw [Query.additional, Result.bind_eq_ok] at has
      obtain ⟨⟨rs, e'⟩, hsecq, has⟩ := has
      obtain ⟨⟨qs, off⟩, -, hwalk⟩ := Result.bind_eq_ok.mp hsecq
      rw [hcount] at hwalk
      obtain ⟨rfl, -⟩ := Prod.mk.inj (Except.ok.inj hwalk)
      refine ⟨[], ?_, ?_⟩
      · rw [Query.additional, hsec, Result.ok_bind, han, hns]
        rfl
      · rw [← Except.ok.inj has, List.drop_nil]

/-! ### Questions about a name in the hosts file -/

/-- A C library that knows one address of each family. -/
def sampleHostsInet : Inet where
  pton := fun af s =>
    match af with
    | .ipv4 => if s = "1.2.3.4".toList then some [1, 2, 3, 4] else none
    | .ipv6 => if s = "::1".toList then some [0, 0, 0, 0, 0, 0, 0, 0, 0, 0, 0, 0, 0, 0, 0, 1] else none
  pton_length := by
    intro af s l h
    cases af with
    | ipv4 =>
        dsimp only at h
        split_ifs at h
        rw [← Option.some.inj h]
        rfl
    | ipv6 =>
        dsimp only at h
        split_ifs at h
        rw [← Option.some.inj h]
        rfl
  ntop := fun _ _ => []

/-- A responder that knows the name `a`. -/
def sampleHostsResponder : responder :=
  { sampleResponder with hosts := [("a".toList, "1.2.3.4".toList)] }

/-- The question `a.` for an IPv6 address. -/
def sampleQuestionAAAA : Query :=
  Query.of_bytes [0, 1, 1, 0, 0, 1, 0, 0, 0, 0, 0, 0, 1, 97, 0, 0, 28, 0, 1] (by decide)

theorem pre_filter_hosts_iff_sample : ∃ m r',
    sampleHostsResponder.pre_filter { sampleEnv with net := sampleHostsInet }
      (sampleQuestion [1, 97, 0] (by decide)) = .ok (.store, m, r') ∧
    HostsAnswered sampleHostsInet "1.2.3.4".toList 1 (sampleQuestion [1, 97, 0] (by decide)) m := by
  have hpre : ∃ m r', sampleHostsResponder.pre_filter { sampleEnv with net := sampleHostsInet }
      (sampleQuestion [1, 97, 0] (by decide)) = .ok (.store, m, r') := ⟨_, _, rfl⟩
  obtain ⟨m, r', hpre⟩ := hpre
  obtain ⟨owner, class_, type, hq, hiff⟩ := pre_filter_hosts_iff hpre
  obtain ⟨rfl, rfl, rfl⟩ := Query.get_question_unique sample_question_a hq
  exact ⟨m, r', hpre, hiff.mpr ⟨rfl, ⟨_, rfl, rfl⟩, rfl⟩⟩

/-- **A question for an IPv6 address** about a name with an IPv4 address is answered with
a record of type A. -/
theorem pre_filter_hosts_aaaa : sampleQuestionAAAA.is_dns = true ∧ ∃ m r',
    sampleHostsResponder.pre_filter { sampleEnv with net := sampleHostsInet } sampleQuestionAAAA
      = .ok (.store, m, r') ∧
    ¬ HostsAnswered sampleHostsInet "1.2.3.4".toList 28 sampleQuestionAAAA m := by
  have hpre : ∃ m r', sampleHostsResponder.pre_filter { sampleEnv with net := sampleHostsInet }
      sampleQuestionAAAA = .ok (.store, m, r') := ⟨_, _, rfl⟩
  obtain ⟨m, r', hpre⟩ := hpre
  refine ⟨by decide, m, r', hpre, fun ha => ?_⟩
  obtain ⟨owner, class_, type, hq, hset⟩ := pre_filter_store hpre
  have hquestion : sampleQuestionAAAA.get_question = .ok ("a.".toList, 1, 28) := by rfl
  obtain ⟨rfl, rfl, rfl⟩ := Query.get_question_unique hquestion hq
  have htype := (type_of_answered hset ha).1
  exact absurd htype (by decide)

end responder

end Cdns
