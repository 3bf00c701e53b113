/-
What a cache is for: a map from lower-case name and type to a message and a
deadline.

The specification forgets the table. `latest` is the last message of a history of
operations that the cache accepts for a key, with the time it came at; a lookup
finds it as long as its time is not over. `Holds` is the invariant that connects
the table to the history: an entry is the latest accepted message of its key, and
a key without an entry has none, or one that a garbage collection found expired.
-/
import Cdns.Cache

set_option autoImplicit false

namespace Cdns.Cache

open Lib.Storage Lib.Keyed

/-! ## Histories -/

/-- An operation on a cache and the clock it reads. -/
inductive Op where
  | store (tnow : ℤ) (msg : Query)
  | retrieve (tnow : ℤ) (msg : Query)
  | collect_garbage (tnow : ℤ)

/-- The clock of an operation. -/
def Op.time : Op → ℤ
  | store tnow _ => tnow
  | retrieve tnow _ => tnow
  | collect_garbage tnow => tnow

/-- One operation. A `store` that throws leaves the cache as it was. -/
def step (c : Cache) : Op → Cache
  | .store tnow msg =>
      match c.store tnow msg with
      | .ok c' => c'
      | .error _ => c
  | .retrieve _ _ => c
  | .collect_garbage tnow => c.collect_garbage tnow

/-- The cache after a history that starts from the empty cache. -/
def run (minttl : ℕ) (ops : List Op) : Cache := ops.foldl step (empty minttl)

/-! ## The map -/

/-- The key a message is accepted under: it is not truncated, its rcode is 0 or
3, and it asks one question, of class IN. -/
def accepted (msg : Query) : Option (Str × ℕ) :=
  if msg.header.tc = false ∧
      (msg.rcode = pkt_rcode.noerror.code ∨ msg.rcode = pkt_rcode.nxdomain.code) then
    match msg.get_question with
    | .ok (owner, class_, type) =>
        if class_ = rr_class.internet.code then some (ascii_tolower owner, type) else none
    | .error _ => none
  else none

/-- How long a message is kept, `min (86400, max (answer_min_ttl, min_ttl))`. -/
def life (minttl : ℕ) (msg : Query) : ℤ :=
  min max_ttl (max (msg.answer_min_ttl.toOption.getD 0) minttl)

/-- The last message of a history that is accepted under a key. -/
def latest (ops : List Op) (k : Str × ℕ) : Option (ℤ × Query) :=
  ops.foldl (fun found op =>
    match op with
    | .store tnow msg => if accepted msg = some k then some (tnow, msg) else found
    | _ => found) none

theorem latest_append_store (ops : List Op) (t : ℤ) (msg : Query) (k : Str × ℕ) :
    latest (ops ++ [.store t msg]) k
      = if accepted msg = some k then some (t, msg) else latest ops k := by
  rw [latest, List.foldl_append]
  rfl

theorem latest_append_other (ops : List Op) {op : Op} (h : ∀ t msg, op ≠ .store t msg)
    (k : Str × ℕ) : latest (ops ++ [op]) k = latest ops k := by
  rw [latest, List.foldl_append]
  cases op with
  | store t msg => exact absurd rfl (h t msg)
  | retrieve t msg => rfl
  | collect_garbage t => rfl

/-- Garbage collections are not part of the map. -/
theorem latest_drop_garbage (ops₁ ops₂ : List Op) (t : ℤ) (k : Str × ℕ) :
    latest (ops₁ ++ .collect_garbage t :: ops₂) k = latest (ops₁ ++ ops₂) k := by
  rw [latest, latest, List.foldl_append, List.foldl_append, List.foldl_cons]

theorem latest_mem {ops : List Op} {k : Str × ℕ} {t : ℤ} {msg : Query}
    (h : latest ops k = some (t, msg)) : .store t msg ∈ ops ∧ accepted msg = some k := by
  induction ops using List.reverseRecOn with
  | nil => exact absurd h (by simp [latest])
  | append_singleton ops op ih =>
      rcases op with ⟨t', msg'⟩ | ⟨t', msg'⟩ | t'
      · rw [latest_append_store] at h
        split_ifs at h with ha
        · obtain ⟨rfl, rfl⟩ := Prod.mk.inj (Option.some.inj h)
          exact ⟨by simp, ha⟩
        · exact ⟨List.mem_append_left _ (ih h).1, (ih h).2⟩
      · rw [latest_append_other ops (by simp)] at h
        exact ⟨List.mem_append_left _ (ih h).1, (ih h).2⟩
      · rw [latest_append_other ops (by simp)] at h
        exact ⟨List.mem_append_left _ (ih h).1, (ih h).2⟩

/-- An accepted message asks one question, of class IN. -/
theorem accepted_eq_some {m : Query} {k : Str × ℕ} (h : accepted m = some k) :
    ∃ owner type, m.get_question = .ok (owner, rr_class.internet.code, type) ∧
      k = (ascii_tolower owner, type) := by
  unfold accepted at h
  split_ifs at h with h₁
  split at h
  · next owner class_ type hq =>
    split_ifs at h with hclass
    refine ⟨owner, type, ?_, (Option.some.inj h).symm⟩
    rw [hq, hclass]
  · exact absurd h (by simp)

/-! ## One operation -/

theorem answer_min_ttl_returns {q : Query} (h : q.records.returns) : q.answer_min_ttl.returns := by
  obtain ⟨rs, h⟩ := h
  rw [Query.records, Result.bind_eq_ok] at h
  obtain ⟨⟨off, question⟩, hq, hrs⟩ := h
  unfold Query.answer_min_ttl
  dsimp only at hrs ⊢
  split_ifs
  all_goals try exact Result.returns_ok _
  rw [hq, Result.ok_bind]
  dsimp only
  split_ifs
  · exact Result.returns_ok _
  · rcases Query.for_each_get_rr q (fun min_ttl (r : Query.rr) =>
      if r.type ≠ rr_type.opt.code ∧ r.ttl < min_ttl then r.ttl else min_ttl)
      (Query.rr_count q.header) off (2147483647 : ℤ) with ⟨e, he, -⟩ | ⟨rs', o, -, hf⟩
    · rw [hrs] at he
      exact absurd he (by simp)
    · rw [hf, Result.ok_bind]
      exact Result.returns_ok _

theorem storable_iff (msg : Query) :
    storable msg = true ↔ msg.header.tc = false ∧
      (msg.rcode = pkt_rcode.noerror.code ∨ msg.rcode = pkt_rcode.nxdomain.code) := by
  show _ ↔ bit (msg.bytes 2).toNat 1 = false ∧
    ((msg.bytes 3).toNat % 16 = 0 ∨ (msg.bytes 3).toNat % 16 = 3)
  rw [storable]
  cases bit (msg.bytes 2).toNat 1
  · simp only [Bool.false_or, Bool.not_eq_true', Bool.and_eq_false_iff, bne_eq_false_iff_eq,
      true_and]
  · simp

/-- `replace_entry` changes what is found under one key. -/
theorem lookup_replace_entry (c : Cache) (t : ℤ) {n : Str} (hn : ascii_tolower n = n)
    (data : List UInt8) (ttl : ℤ) (ty : ℕ) (k : Str × ℕ) :
    ((c.replace_entry t n data ttl ty).entries.lookup k = if k = (n, ty)
      then some ⟨n, ty, t + ttl, data⟩ else c.entries.lookup k) := by
  rw [replace_entry, find, hn]
  cases hl : c.entries.lookup (n, ty) with
  | none =>
      dsimp only
      rw [KeyedSet.lookup_insert _ hl]
      rfl
  | some e =>
      have hk : e.key = (n, ty) := (KeyedSet.lookup_eq_some.mp hl).2
      dsimp only
      rw [KeyedSet.lookup_modify, hk]
      split_ifs with h
      · rw [h, hl, Option.map_some, update]
        obtain ⟨h₁, h₂⟩ := Prod.mk.inj hk
        rw [← h₁, ← h₂]
      · rfl

/-- The key a message is filed under: it is accepted, and `answer_min_ttl` takes it. -/
def filed (msg : Query) : Option (Str × ℕ) :=
  match msg.answer_min_ttl with
  | .ok _ => accepted msg
  | .error _ => none

/-- What `store` does: a message that is filed replaces the entry of its key, any other
message changes nothing. -/
theorem step_store_filed (c : Cache) (t : ℤ) (msg : Query) (k : Str × ℕ) :
    (c.step (.store t msg)).entries.lookup k = if filed msg = some k
      then some ⟨k.1, k.2, t + life c.min_ttl msg, msg.wire⟩ else c.entries.lookup k := by
  rw [step, store, filed]
  -- the branches of `store`, each with what the map makes of the message
  by_cases hst : storable msg = true
  · have hacc := (storable_iff msg).mp hst
    rw [if_pos hst]
    cases hq : msg.get_question with
    | error e =>
        have : accepted msg = none := by rw [accepted, if_pos hacc, hq]
        rw [this]
        cases msg.answer_min_ttl with
        | error x => simp
        | ok v => simp
    | ok p =>
        obtain ⟨owner, class_, type⟩ := p
        simp only [Result.ok_bind]
        by_cases hc : class_ = rr_class.internet.code
        · rw [if_pos hc]
          cases hv : msg.answer_min_ttl with
          | error x =>
              rw [Result.error_bind]
              simp
          | ok v =>
              have hlife : c.lifetime v = life c.min_ttl msg := by
                rw [lifetime, life, hv]
                rfl
              have : accepted msg = some (ascii_tolower owner, type) := by
                rw [accepted, if_pos hacc, hq]
                exact if_pos hc
              rw [Result.ok_bind, hlife, this]
              dsimp only
              rw [lookup_replace_entry c t (ascii_tolower_idem owner)]
              -- the entry that was written, or any other
              by_cases hk : k = (ascii_tolower owner, type)
              · rw [if_pos hk, if_pos (congrArg some hk.symm), hk]
              · rw [if_neg hk, if_neg fun h => hk (Option.some.inj h).symm]
        · have : accepted msg = none := by
            rw [accepted, if_pos hacc, hq]
            exact if_neg hc
          rw [if_neg hc, this]
          cases msg.answer_min_ttl with
          | error x => simp
          | ok v => simp
  · have : accepted msg = none := if_neg fun h => hst ((storable_iff msg).mpr h)
    rw [if_neg hst, this]
    cases msg.answer_min_ttl with
    | error x => simp
    | ok v => simp

theorem filed_eq_accepted {msg : Query} (h : msg.answer_min_ttl.returns) : filed msg = accepted msg := by
  obtain ⟨v, hv⟩ := h
  rw [filed, hv]

theorem accepted_of_filed {msg : Query} {k : Str × ℕ} (h : filed msg = some k) :
    accepted msg = some k := by
  unfold filed at h
  split at h
  · exact h
  · exact absurd h (by simp)

/-- The same for a message whose records parse, which is filed when it is accepted. -/
theorem step_store (c : Cache) (t : ℤ) {msg : Query} (hparse : msg.records.returns)
    (k : Str × ℕ) :
    (c.step (.store t msg)).entries.lookup k = if accepted msg = some k
      then some ⟨k.1, k.2, t + life c.min_ttl msg, msg.wire⟩ else c.entries.lookup k := by
  rw [step_store_filed, filed_eq_accepted (answer_min_ttl_returns hparse)]

theorem step_min_ttl (c : Cache) (op : Op) : (c.step op).min_ttl = c.min_ttl := by
  cases op with
  | store t msg =>
      rw [step, store]
      by_cases hst : storable msg = true
      · rw [if_pos hst]
        cases msg.get_question with
        | error e => rfl
        | ok p =>
            simp only [Result.ok_bind]
            split_ifs
            · cases msg.answer_min_ttl with
              | error e => rfl
              | ok v =>
                  simp only [Result.ok_bind, replace_entry]
                  split <;> rfl
            · rfl
      · rw [if_neg hst]
  | retrieve t msg => rfl
  | collect_garbage t => rfl

theorem run_min_ttl (minttl : ℕ) (ops : List Op) : (run minttl ops).min_ttl = minttl := by
  induction ops using List.reverseRecOn with
  | nil => rfl
  | append_singleton ops op ih =>
      rw [run, List.foldl_append]
      exact (step_min_ttl _ op).trans ih

/-- An entry is a message of the history that was filed under its key. -/
theorem run_entry {minttl : ℕ} {ops : List Op} {k : Str × ℕ} {e : cache_entry}
    (h : (run minttl ops).entries.lookup k = some e) :
    ∃ t m, Op.store t m ∈ ops ∧ filed m = some k ∧ e = ⟨k.1, k.2, t + life minttl m, m.wire⟩ := by
  -- along the history: the last operation put the entry in, or left it there
  induction ops using List.reverseRecOn with
  | nil => exact absurd h (by simp [run, empty, KeyedSet.empty, KeyedSet.lookup])
  | append_singleton ops op ih =>
      have hkeep : (run minttl ops).entries.lookup k = some e → ∃ t m, Op.store t m ∈ ops ++ [op] ∧
          filed m = some k ∧ e = ⟨k.1, k.2, t + life minttl m, m.wire⟩ := by
        intro he
        obtain ⟨t, m, hmem, hrest⟩ := ih he
        exact ⟨t, m, List.mem_append_left _ hmem, hrest⟩
      have hlast : ((run minttl ops).step op).entries.lookup k = some e := by
        rw [run, List.foldl_append] at h
        exact h
      cases op with
      | store t m =>
          rw [step_store_filed, run_min_ttl] at hlast
          by_cases hk : filed m = some k
          · rw [if_pos hk] at hlast
            exact ⟨t, m, by simp, hk, (Option.some.inj hlast).symm⟩
          · rw [if_neg hk] at hlast
            exact hkeep hlast
      | retrieve t m => exact hkeep hlast
      | collect_garbage t =>
          have hlook : ((run minttl ops).step (.collect_garbage t)).entries.lookup k
              = ((run minttl ops).entries.lookup k).filter fun e => !(e.deadline < t) :=
            KeyedSet.lookup_filter _ _ _
          rw [hlook, Option.filter_eq_some_iff] at hlast
          exact hkeep hlast.1

/-! ## The invariant -/

/-- The table holds what the history says. -/
structure Holds (minttl : ℕ) (ops : List Op) (c : Cache) : Prop where
  found : ∀ k e, c.entries.lookup k = some e → ∃ t₀ m, latest ops k = some (t₀, m) ∧
    e.response = m.wire ∧ e.deadline = t₀ + life minttl m
  missing : ∀ k, c.entries.lookup k = none → ∀ t₀ m, latest ops k = some (t₀, m) →
    ∃ op ∈ ops, t₀ + life minttl m < op.time

theorem Holds.step {minttl : ℕ} {ops : List Op} {c : Cache} (h : Holds minttl ops c)
    (hc : c.min_ttl = minttl) (op : Op) (hop : ∀ t m, op = .store t m → m.records.returns) :
    Holds minttl (ops ++ [op]) (c.step op) := by
  rcases op with ⟨t, msg⟩ | ⟨t, msg⟩ | t
  · have hlook := step_store c t (hop t msg rfl)
    refine ⟨fun k e he => ?_, fun k hn t₀ m hm => ?_⟩
    · rw [hlook] at he
      rw [latest_append_store]
      split_ifs at he ⊢ with hk
      · obtain rfl := Option.some.inj he
        exact ⟨t, msg, rfl, rfl, by rw [hc]⟩
      · exact h.found k e he
    · rw [hlook] at hn
      rw [latest_append_store] at hm
      split_ifs at hn hm with hk
      obtain ⟨op, hmem, hlt⟩ := h.missing k hn t₀ m hm
      exact ⟨op, List.mem_append_left _ hmem, hlt⟩
  · have hlat : ∀ k, latest (ops ++ [.retrieve t msg]) k = latest ops k :=
      latest_append_other ops (by simp)
    refine ⟨fun k e he => ?_, fun k hn t₀ m hm => ?_⟩
    · rw [hlat]
      exact h.found k e he
    · rw [hlat] at hm
      obtain ⟨op, hmem, hlt⟩ := h.missing k hn t₀ m hm
      exact ⟨op, List.mem_append_left _ hmem, hlt⟩
  · have hlat : ∀ k, latest (ops ++ [.collect_garbage t]) k = latest ops k :=
      latest_append_other ops (by simp)
    have hlook : ∀ k, (c.step (.collect_garbage t)).entries.lookup k
        = (c.entries.lookup k).filter fun e => !(e.deadline < t) := KeyedSet.lookup_filter _ _
    refine ⟨fun k e he => ?_, fun k hn t₀ m hm => ?_⟩
    · rw [hlook, Option.filter_eq_some_iff] at he
      rw [hlat]
      exact h.found k e he.1
    · rw [hlat] at hm
      rw [hlook] at hn
      cases hl : c.entries.lookup k with
      | none =>
          obtain ⟨op, hmem, hlt⟩ := h.missing k hl t₀ m hm
          exact ⟨op, List.mem_append_left _ hmem, hlt⟩
      | some e =>
          -- the sweep dropped the entry, so its deadline had passed
          rw [hl, Option.filter_eq_none_iff] at hn
          obtain ⟨t₁, m₁, hm₁, -, hd⟩ := h.found k e hl
          rw [hm] at hm₁
          obtain ⟨rfl, rfl⟩ := Prod.mk.inj (Option.some.inj hm₁)
          refine ⟨.collect_garbage t, by simp, ?_⟩
          rw [← hd]
          simpa [Op.time] using hn e rfl

theorem run_holds (minttl : ℕ) (ops : List Op)
    (hparse : ∀ t m, Op.store t m ∈ ops → m.records.returns) :
    Holds minttl ops (run minttl ops) := by
  induction ops using List.reverseRecOn with
  | nil =>
      refine ⟨fun k e he => ?_, fun k _ t₀ m hm => ?_⟩
      · exact absurd he (by simp [run, empty, KeyedSet.empty, KeyedSet.lookup])
      · exact absurd hm (by simp [latest])
  | append_singleton ops op ih =>
      have hops := ih fun t m hm => hparse t m (List.mem_append_left _ hm)
      rw [run, List.foldl_append]
      exact hops.step (run_min_ttl minttl ops) op fun t m hm => hparse t m (by simp [hm])

/-! ## Lookups -/

/-- A message as the cache gives it back: the bytes behind its end are lost. -/
def restored (m : Query) : Query := Query.of_bytes m.wire (by rw [Query.wire_length]; exact m.size_le)

theorem restored_agree (m : Query) : Query.Agree (restored m) m 0 := by
  have hsize : (restored m).size = m.size := Query.wire_length m
  refine ⟨hsize, fun i _ hi => ?_⟩
  rw [hsize] at hi
  have := slice_getD m.bytes 0 m.size hi 0
  rw [Nat.zero_add] at this
  exact this

theorem rewritten_of_restored {m q' : Query} (hrecords : (restored m).records = m.records)
    {tid : ℕ} {ttl : ℤ} (h : Query.Rewritten (restored m) q' tid ttl) :
    Query.Rewritten m q' tid ttl := by
  obtain ⟨hsize, hbytes⟩ := restored_agree m
  refine ⟨h.size_eq.trans hsize, h.id_eq, ?_, ?_⟩
  · rw [← hrecords]
    exact h.ttl_eq
  · rw [← hrecords, ← hsize]
    intro rs hrs i h₁ h₂ h₃
    rw [h.rest_eq rs hrs i h₁ h₂ h₃, hbytes i (by omega) h₂]

/-- The lookup of the map: what `retrieve` has to answer after a history. -/
def answer (minttl : ℕ) (ops : List Op) (t : ℤ) (q : Query) : Result (Bool × Query) := do
  let (n, _, ty) ← q.get_question
  match latest ops (ascii_tolower n, ty) with
  | none => .ok (false, q)
  | some (t₀, m) =>
      if t < t₀ + life minttl m then do
        let q' ← (restored m).adjust_id_and_ttl q.header.id (t₀ + life minttl m - t)
        .ok (true, q')
      else .ok (false, q)

theorem life_le (minttl : ℕ) (m : Query) : life minttl m ≤ 86400 := min_le_left _ _

/-- **A lookup in the table is a lookup in the map.** -/
theorem retrieve_eq {minttl : ℕ} {ops : List Op} {t : ℤ} (hclock : ∀ op ∈ ops, op.time ≤ t)
    (hparse : ∀ t₀ m, Op.store t₀ m ∈ ops → m.records.returns) (q : Query) :
    (run minttl ops).retrieve t q = answer minttl ops t q := by
  have hholds := run_holds minttl ops hparse
  rw [retrieve, answer]
  cases q.get_question with
  | error e => rfl
  | ok p =>
      obtain ⟨n, cl, ty⟩ := p
      simp only [Result.ok_bind, find]
      cases hl : (run minttl ops).entries.lookup (ascii_tolower n, ty) with
      | none =>
          -- nothing was stored, or its time is over
          cases hm : latest ops (ascii_tolower n, ty) with
          | none => rfl
          | some p =>
              obtain ⟨t₀, m⟩ := p
              obtain ⟨op, hop, hlt⟩ := hholds.missing _ hl t₀ m hm
              have := hclock op hop
              dsimp only
              rw [if_neg (by omega)]
      | some e =>
          obtain ⟨t₀, m, hm, hresp, hdead⟩ := hholds.found _ e hl
          obtain ⟨first, second, deadline, response⟩ := e
          dsimp only at hresp hdead
          subst hresp hdead
          have ht₀ : t₀ ≤ t := hclock _ (latest_mem hm).1
          have hlife := life_le minttl m
          have hlen : m.wire.length ≤ max_size := by rw [Query.wire_length]; exact m.size_le
          rw [hm]
          dsimp only
          by_cases hlt : t < t₀ + life minttl m
          · rw [dif_pos ⟨hlen, hlt⟩, if_pos hlt, Query.int32_uint32 (by omega) (by omega)]
            rfl
          · rw [dif_neg fun h => hlt h.2, if_neg hlt]

/-- **The cache is a map with deadlines.** Take any history of operations on an
initially empty cache, whose stored messages have records that parse, and a clock
that has not gone back since. A lookup hits exactly when the latest message
accepted for the lower-case name and the type was stored at `t₀` and `t` is
before `t₀ + min (86400, max (answer_min_ttl, min_ttl))`. On a hit the query
becomes that message with the id of the query and with the time left, a number
from 1 to 86400, in the TTL of every record but OPT; on a miss it is unchanged.
Leaving out any garbage collection changes no lookup. -/
theorem cache_refines_map {minttl : ℕ} {ops : List Op} {t : ℤ} (hclock : ∀ op ∈ ops, op.time ≤ t)
    (hparse : ∀ t₀ m, Op.store t₀ m ∈ ops → m.records.returns) :
    (∀ q n cl ty, q.get_question = .ok (n, cl, ty) →
      ∃ hit q', (run minttl ops).retrieve t q = .ok (hit, q') ∧
        (hit = true ↔ ∃ t₀ m, latest ops (ascii_tolower n, ty) = some (t₀, m) ∧
          t < t₀ + life minttl m) ∧
        (hit = false → q' = q) ∧
        (hit = true → ∀ t₀ m, latest ops (ascii_tolower n, ty) = some (t₀, m) →
          Query.Rewritten m q' q.header.id (t₀ + life minttl m - t) ∧
          1 ≤ t₀ + life minttl m - t ∧ t₀ + life minttl m - t ≤ 86400)) ∧
    (∀ ops₁ ops₂ t', ops = ops₁ ++ .collect_garbage t' :: ops₂ → ∀ q,
      (run minttl ops).retrieve t q = (run minttl (ops₁ ++ ops₂)).retrieve t q) := by
  refine ⟨fun q n cl ty hq => ?_, fun ops₁ ops₂ t' hops q => ?_⟩
  · -- a lookup is a lookup in the map of the last stores
    rw [retrieve_eq hclock hparse, answer, hq]
    simp only [Result.ok_bind]
    cases hm : latest ops (ascii_tolower n, ty) with
    | none => exact ⟨false, q, rfl, by simp, fun _ => rfl, by simp⟩
    | some p =>
        obtain ⟨t₀, m⟩ := p
        dsimp only
        by_cases hlt : t < t₀ + life minttl m
        · obtain ⟨hmem, hacc⟩ := latest_mem hm
          obtain ⟨rs, hrs⟩ := hparse t₀ m hmem
          have ht₀ : t₀ ≤ t := hclock _ hmem
          have hlife := life_le minttl m
          -- the entry is restored from its wire data, which has a whole header
          have hsize : 12 ≤ m.size := by
            obtain ⟨owner, type, hp, -⟩ := accepted_eq_some hacc
            exact le_of_lt (Query.size_of_get_question hp)
          -- so its records are those of the message that was stored
          have hrecords : (restored m).records = m.records :=
            Query.records_congr (restored_agree m) (by rw [(restored_agree m).1]; exact hsize)
          have hid : q.header.id < 65536 := be16_lt q.bytes 0
          obtain ⟨q', hq', hrew⟩ := Query.adjust_id_and_ttl_rewritten hid
            (t₀ + life minttl m - t) (hrecords.trans hrs)
          rw [if_pos hlt, hq']
          refine ⟨true, q', rfl, ?_, by simp, fun _ t₁ m₁ h => ?_⟩
          · simp only [Option.some.injEq, Prod.mk.injEq, true_iff]
            exact ⟨t₀, m, ⟨rfl, rfl⟩, hlt⟩
          · obtain ⟨rfl, rfl⟩ := Prod.mk.inj (Option.some.inj h)
            exact ⟨rewritten_of_restored hrecords hrew, by omega, by omega⟩
        · rw [if_neg hlt]
          refine ⟨false, q, rfl, ?_, fun _ => rfl, by simp⟩
          simp only [Bool.false_eq_true, Option.some.injEq, Prod.mk.injEq, false_iff]
          rintro ⟨t₁, m₁, ⟨rfl, rfl⟩, h⟩
          exact hlt h
  · -- garbage collection is no store, so the map does not see it
    subst hops
    have hsub : ∀ op ∈ ops₁ ++ ops₂, op ∈ ops₁ ++ .collect_garbage t' :: ops₂ := by
      intro op hop
      rcases List.mem_append.mp hop with h | h
      · exact List.mem_append_left _ h
      · exact List.mem_append_right _ (List.mem_cons_of_mem _ h)
    rw [retrieve_eq hclock hparse, retrieve_eq (fun op hop => hclock op (hsub op hop))
      fun t₀ m hm => hparse t₀ m (hsub _ hm), answer, answer]
    simp only [latest_drop_garbage]

/-- An answer to the question for the address of `a.`, with a TTL of 300. -/
def sample : Query :=
  Query.of_bytes [0x12, 0x34, 0x81, 0x80, 0, 1, 0, 1, 0, 0, 0, 0, 1, 97, 0, 0, 1, 0, 1,
    0xc0, 12, 0, 1, 0, 1, 0, 0, 1, 0x2c, 0, 4, 10, 0, 0, 1] (by decide)

/-- The answer is found by a query for the same name, after a sweep. -/
theorem cache_refines_map_sample :
    ∃ hit q', (run 60 [.store 100 sample, .collect_garbage 110]).retrieve 120 sample
        = .ok (hit, q') ∧
      (hit = true ↔ ∃ t₀ m, latest [.store 100 sample, .collect_garbage 110] ("a.".toList, 1)
        = some (t₀, m) ∧ 120 < t₀ + life 60 m) := by
  have hparse : sample.records.returns := ⟨_, rfl⟩
  have hclock : ∀ op ∈ [Op.store 100 sample, .collect_garbage 110], op.time ≤ 120 := by
    simp [Op.time]
  obtain ⟨h, -⟩ := @cache_refines_map 60 [.store 100 sample, .collect_garbage 110] 120 hclock
    (by
      rintro t₀ m hm
      simp only [List.mem_cons, Op.store.injEq, List.not_mem_nil, reduceCtorEq, or_false] at hm
      exact hm.2 ▸ hparse)
  obtain ⟨hit, q', h₁, h₂, -, -⟩ := h sample "a.".toList 1 1 rfl
  exact ⟨hit, q', h₁, h₂⟩

end Cdns.Cache
