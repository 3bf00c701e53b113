/-
What a cache gives back: whether an entry can be served at all, and whether it answers
the question that was asked.

`retrieve` walks over all the records of the entry it finds. `store` has walked over
them only if the message is a response, and `load` has not looked at them; `Parses`
says of a step that it puts in nothing that cannot be walked over, and a cache that was
reached by such steps serves every question (`reached_serves`).

An entry is found by name and type, and is of class IN. Rewriting the id and the TTLs
leaves its question alone (`get_question_adjust`), so a hit answers the question of
class IN, whichever class was asked for (`retrieve_question_iff`).
-/
import Cdns.CacheFile
import Cdns.ResponderSpec
import Cdns.Rewrite

set_option autoImplicit false

namespace Cdns

open Lib.Storage Lib.Keyed

namespace Cache

/-- An entry that holds a message is the message without what stood behind its end. -/
theorem of_bytes_response {e : cache_entry} {m : Query} (h : e.response = m.wire)
    (hlen : e.response.length ≤ max_size) : Query.of_bytes e.response hlen = restored m := by
  simp only [h]
  rfl

theorem records_restored {m : Query} (h : 12 ≤ m.size) : (restored m).records = m.records :=
  Query.records_congr (restored_agree m) (by rw [(restored_agree m).1]; exact h)

theorem get_question_restored {m : Query} (h : 12 ≤ m.size) :
    (restored m).get_question = m.get_question :=
  Query.get_question_congr (restored_agree m) (by rw [(restored_agree m).1]; exact h)

/-! ## Entries that can be served -/

/-- A step that changes a cache, or puts another in its place. -/
inductive Step where
  | store (tnow : ℤ) (msg : Query)
  | load (filename : String) (stack : List UInt8) (file : Option (List UInt8)) (minttl : ℕ)

/-- One step. A call that throws leaves the cache as it was. -/
def take (c : Cache) : Step → Cache
  | .store tnow msg => c.step (.store tnow msg)
  | .load filename stack file minttl =>
      match load filename stack file minttl with
      | .ok c' => c'
      | .error _ => c

/-- The cache after steps that start from the empty cache. -/
def reached (minttl : ℕ) (steps : List Step) : Cache := steps.foldl take (empty minttl)

/-- The step puts in nothing that cannot be walked over: an accepted message that is no
response has records that parse, and so have the messages of a file. -/
def Step.Parses : Step → Prop
  | .store _ msg => ∀ k, accepted msg = some k → msg.header.qr = false → msg.records.returns
  | .load filename stack file minttl => ∀ c, Cache.load filename stack file minttl = .ok c →
      ∀ e ∈ c.entries.elems, Servable e

/-- Every entry can be served. -/
def AllServable (c : Cache) : Prop := ∀ k e, c.entries.lookup k = some e → Servable e

/-- A message that was filed and whose records parse can be served. -/
theorem servable_of_filed {msg : Query} {k : Str × ℕ} (hfiled : filed msg = some k)
    (hqr : msg.header.qr = false → msg.records.returns) {e : cache_entry}
    (he : e.response = msg.wire) : Servable e := by
  have hacc := accepted_of_filed hfiled
  obtain ⟨owner, type, hq, -⟩ := accepted_eq_some hacc
  -- a response was walked over when it was stored
  have hrecords : msg.records.returns := by
    have hst : storable msg = true := by
      unfold accepted at hacc
      split_ifs at hacc with h
      exact (storable_iff msg).mpr h
    have hmin : msg.answer_min_ttl.returns := by
      unfold filed at hfiled
      split at hfiled
      · next v hv => exact ⟨v, hv⟩
      · exact absurd hfiled (by simp)
    rcases (answer_min_ttl_returns_iff hst hq).mp hmin with h | h
    · exact hqr h
    · exact h
  have hsize := Query.size_of_get_question hq
  intro hlen
  rw [of_bytes_response he, records_restored (by omega)]
  exact hrecords

/-- One step keeps it. -/
theorem take_servable {c : Cache} (hc : c.AllServable) {s : Step} (hs : s.Parses) :
    (c.take s).AllServable := by
  cases s with
  | store t msg =>
      intro k e he
      rw [take, step_store_filed] at he
      by_cases hk : filed msg = some k
      · rw [if_pos hk] at he
        refine servable_of_filed hk (hs k (accepted_of_filed hk)) ?_
        rw [← Option.some.inj he]
      · rw [if_neg hk] at he
        exact hc k e he
  | load filename stack file minttl =>
      rw [take]
      cases hload : load filename stack file minttl with
      | error x => exact hc
      | ok c' =>
          intro k e he
          exact hs c' hload e (KeyedSet.lookup_eq_some.mp he).1

theorem reached_servable (minttl : ℕ) {steps : List Step} (h : ∀ s ∈ steps, s.Parses) :
    (reached minttl steps).AllServable := by
  induction steps using List.reverseRecOn with
  | nil =>
      intro k e he
      exact absurd he (by simp [reached, empty, KeyedSet.empty, KeyedSet.lookup])
  | append_singleton steps s ih =>
      rw [reached, List.foldl_append]
      exact take_servable (ih fun s' hs' => h s' (List.mem_append_left _ hs')) (h s (by simp))

/-- **Every cached entry can be served.** After any steps that put in nothing that cannot
be walked over, `retrieve` returns for every query whose question parses, at any time. -/
theorem reached_serves (minttl : ℕ) {steps : List Step} (h : ∀ s ∈ steps, s.Parses) (tnow : ℤ)
    {q : Query} (hq : q.get_question.returns) :
    ((reached minttl steps).retrieve tnow q).returns := by
  obtain ⟨⟨owner, class_, type⟩, hq⟩ := hq
  cases hlive : (reached minttl steps).live tnow owner type with
  | none =>
      rw [retrieve_miss hq hlive]
      exact Result.returns_ok _
  | some e =>
      rw [retrieve_hit_returns hq hlive]
      unfold live at hlive
      exact reached_servable minttl h _ e (Option.filter_eq_some_iff.mp hlive).1

/-- A response is stored, and a query for the same name is served. -/
theorem reached_serves_sample :
    ((reached 60 [.store 100 sample]).retrieve 110 sample).returns := by
  refine reached_serves 60 ?_ 110 ⟨_, rfl⟩
  intro s hs
  rw [List.mem_singleton.mp hs]
  intro k _ _
  exact ⟨_, rfl⟩

/-- A question for the address of `a.` that counts an additional record and has none. -/
def sampleCut : Query :=
  Query.of_bytes [0, 1, 1, 0, 0, 1, 0, 0, 0, 0, 0, 1, 1, 97, 0, 0, 1, 0, 1] (by decide)

/-- **A message that is no response** is stored without a look at its records, and a
query for the same name throws. -/
theorem retrieve_cut_query : sampleCut.is_dns = true ∧ sampleCut.get_question.returns ∧
    ¬ ((reached 60 [.store 100 sampleCut]).retrieve 110 sampleCut).returns := by
  have hquestion : sampleCut.get_question = .ok ("a.".toList, 1, 1) := rfl
  refine ⟨by decide, ⟨_, hquestion⟩, ?_⟩
  have hlive : ∃ e, (reached 60 [.store 100 sampleCut]).live 110 "a.".toList 1 = some e ∧
      e.response = sampleCut.wire := ⟨_, rfl, rfl⟩
  obtain ⟨e, hlive, hresp⟩ := hlive
  rw [retrieve_hit_returns hquestion hlive]
  intro hserve
  have hlen : e.response.length ≤ max_size := by
    rw [hresp]
    decide
  obtain ⟨rs, hrs⟩ := hserve hlen
  have herr : (restored sampleCut).records = .error (.runtime_error "Too short DNS message") := rfl
  rw [of_bytes_response hresp, herr] at hrs
  exact absurd hrs (by simp)

/-! ## Entries that answer the question -/

/-- The question of an entry that is found. -/
theorem get_question_of_live {minttl : ℕ} {ops : List Op} {t : ℤ} {n : Str} {ty : ℕ}
    {e : cache_entry} (h : (run minttl ops).live t n ty = some e)
    (hlen : e.response.length ≤ max_size) :
    ∃ owner, (Query.of_bytes e.response hlen).get_question
        = .ok (owner, rr_class.internet.code, ty) ∧ ascii_tolower owner = ascii_tolower n := by
  unfold live at h
  have hfind : (run minttl ops).entries.lookup (ascii_tolower n, ty) = some e :=
    (Option.filter_eq_some_iff.mp h).1
  obtain ⟨t₀, m, -, hfiled, heq⟩ := run_entry hfind
  obtain ⟨owner, type, hq, hk⟩ := accepted_eq_some (accepted_of_filed hfiled)
  obtain ⟨hname, rfl⟩ := Prod.mk.inj hk
  refine ⟨owner, ?_, hname.symm⟩
  have hresp : e.response = m.wire := by rw [heq]
  have hsize := Query.size_of_get_question hq
  rw [of_bytes_response hresp, get_question_restored (by omega), hq]

/-- **Whether a hit answers the question asked.** After any history of operations, the
message that `retrieve` found asks for the type of the query and for its name up to case,
and for its class exactly when that is IN. -/
theorem retrieve_question_iff {minttl : ℕ} {ops : List Op} {t : ℤ} {q q' : Query}
    (h : (run minttl ops).retrieve t q = .ok (true, q')) :
    ∃ n cl ty, q.get_question = .ok (n, cl, ty) ∧
      ((∃ n', q'.get_question = .ok (n', cl, ty) ∧ ascii_tolower n' = ascii_tolower n) ↔
        cl = rr_class.internet.code) := by
  obtain ⟨⟨n, cl, ty⟩, hq, -⟩ := Result.bind_eq_ok.mp h
  refine ⟨n, cl, ty, hq, ?_⟩
  cases hlive : (run minttl ops).live t n ty with
  | none =>
      rw [retrieve_miss hq hlive] at h
      exact absurd (Prod.mk.inj (Except.ok.inj h)).1 (by simp)
  | some e =>
      obtain ⟨hlen, hhit⟩ := retrieve_hit hq hlive
      rw [hhit, Result.bind_eq_ok] at h
      obtain ⟨m, hadjust, h⟩ := h
      obtain ⟨-, rfl⟩ := Prod.mk.inj (Except.ok.inj h)
      obtain ⟨owner, howner, hcase⟩ := get_question_of_live hlive hlen
      have hquestion := Query.get_question_adjust hadjust howner
      constructor
      · rintro ⟨n', hn', -⟩
        exact (Query.get_question_unique hn' hquestion).2.1
      · rintro rfl
        exact ⟨owner, hquestion, hcase⟩

/-- The question `a.` of type A and class CHAOS. -/
def sampleChaos : Query :=
  Query.of_bytes [0, 2, 1, 0, 0, 1, 0, 0, 0, 0, 0, 0, 1, 97, 0, 0, 1, 0, 3] (by decide)

/-- A lookup of the name in a cache that holds the answer. -/
theorem retrieve_sample (q : Query) {cl : ℕ} (hq : q.get_question = .ok ("a.".toList, cl, 1)) :
    ∃ q', (run 60 [.store 100 sample]).retrieve 110 q = .ok (true, q') := by
  have hlive : ∃ e, (run 60 [.store 100 sample]).live 110 "a.".toList 1 = some e ∧
      e.response = sample.wire := ⟨_, rfl, rfl⟩
  obtain ⟨e, hlive, hresp⟩ := hlive
  obtain ⟨hlen, hhit⟩ := retrieve_hit hq hlive
  have hrecords : sample.records.returns := ⟨_, rfl⟩
  obtain ⟨rs, hrs⟩ := hrecords
  rw [hhit, Query.adjust_id_and_ttl_eq, of_bytes_response hresp, records_restored (by decide), hrs]
  exact ⟨_, rfl⟩

theorem retrieve_question_iff_sample : ∃ q',
    (run 60 [.store 100 sample]).retrieve 110 sample = .ok (true, q') ∧
      ∃ n', q'.get_question = .ok (n', 1, 1) ∧ ascii_tolower n' = ascii_tolower "a.".toList := by
  have hquestion : sample.get_question = .ok ("a.".toList, 1, 1) := rfl
  obtain ⟨q', hhit⟩ := retrieve_sample sample hquestion
  obtain ⟨n, cl, ty, hq, hiff⟩ := retrieve_question_iff hhit
  obtain ⟨rfl, rfl, rfl⟩ := Query.get_question_unique hquestion hq
  exact ⟨q', hhit, hiff.mpr rfl⟩

/-- **A question of class CHAOS** is answered with the entry of class IN. -/
theorem retrieve_chaos : sampleChaos.get_question = .ok ("a.".toList, 3, 1) ∧ ∃ q',
    (run 60 [.store 100 sample]).retrieve 110 sampleChaos = .ok (true, q') ∧
      ¬ ∃ n', q'.get_question = .ok (n', 3, 1) ∧ ascii_tolower n' = ascii_tolower "a.".toList := by
  have hquestion : sampleChaos.get_question = .ok ("a.".toList, 3, 1) := rfl
  obtain ⟨q', hhit⟩ := retrieve_sample sampleChaos hquestion
  refine ⟨hquestion, q', hhit, ?_⟩
  have hlive : ∃ e, (run 60 [.store 100 sample]).live 110 "a.".toList 1 = some e := ⟨_, rfl⟩
  obtain ⟨e, hlive⟩ := hlive
  obtain ⟨hlen, heq⟩ := retrieve_hit hquestion hlive
  rw [heq, Result.bind_eq_ok] at hhit
  obtain ⟨m, hadjust, hhit⟩ := hhit
  obtain ⟨-, rfl⟩ := Prod.mk.inj (Except.ok.inj hhit)
  obtain ⟨owner, howner, -⟩ := get_question_of_live hlive hlen
  rintro ⟨n', hn', -⟩
  have hclass := (Query.get_question_unique hn' (Query.get_question_adjust hadjust howner)).2.1
  exact absurd hclass (by decide)

end Cache

end Cdns
