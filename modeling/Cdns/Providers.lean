/-
The table of DNSCrypt providers: `cresponder::load` (`dns/crypt/srcz/cresponder.cpp`).

The table is a `std::map` from the text of an address to a certifier. A new list of
resolvers is merged into it in two passes: the first adds the resolvers that are not there
and drops those that may not be used, the second drops what is not in the list any more.
The resolvers that were added have been moved out of the list by then, but the second pass
looks at addresses only, and these are copied by a move.

Both passes find an entry by its address alone. What comes out is known for every key
(`merge_lookup`): the entry that was there before, or one for the first usable resolver with
that address. So an entry survives a change of its host name or key; and the check at the end,
which compares the number of entries with the number of usable lines, fails if two of these
have the same address (`load_iff`).
-/
import Cdns.Lib.Keyed
import Cdns.ResolverFile
import Cdns.Upstream

set_option autoImplicit false

namespace Cdns

open Lib.Keyed

/-- What a resolver and its encryptor draw or leave uninitialised when they are made. -/
structure Seed where
  nonce_pad : nonce
  secretkey : Cdns.secretkey
  magic_query : Block 8

/-- `certifier::certifier (resolver, tcp_only, tsec)`; the timer is set to `retry::min_delay`. -/
def certifier.make (seed : Seed) (tcp_only : proto) (r : listed_resolver) : certifier where
  address := r.address
  net_proto := r.net_proto
  tcp_only := tcp_only
  resolver :=
    { pubkey_ := r.public_key
      resolver_pubkey_ := Block.zero 32
      ready_ := false
      dnscrypt_magic_query_ := seed.magic_query
      dnscrypt_client_ :=
        { magic_query := Block.zero 8
          publickey := Block.zero 32
          secretkey := seed.secretkey
          nmkey := Block.zero 32
          nonce_pad := seed.nonce_pad
          cipher := .undefined
          ephemeral_keys := true } }
  ephemeral := rfl
  query_retry_step := 0
  timer := 17

/-- An entry of `dnscrypt_providers_`. -/
structure provider_entry where
  ip_port : Str
  hostname : Str
  certifier : Cdns.certifier

/-- The key of the resolver that an entry certifies. -/
def provider_entry.public_key (e : provider_entry) : pubkey := e.certifier.resolver.pubkey_

/-- `cresponder::dnscrypt_providers_`. -/
abbrev provider_table := KeyedSet provider_entry.ip_port

namespace cresponder

/-- What `load` is called with, and what the resolvers draw. -/
structure LoadArgs where
  net : Inet
  noipv6 : Bool
  tcponly : proto
  draw : listed_resolver → Seed

section Load

variable (args : LoadArgs)

/-- `use` in the first pass. -/
def use (r : listed_resolver) : Bool := !(args.noipv6 && r.address.inet == .ipv6)

/-- The key of a resolver. -/
def ip_port (r : listed_resolver) : Str := r.address.ip_port args.net

/-- The entry that is made for a resolver. -/
def entry (r : listed_resolver) : provider_entry :=
  ⟨ip_port args r, r.hostname, certifier.make (args.draw r) args.tcponly r⟩

/-- `dnscrypt_providers_.erase`. -/
def erase (providers : provider_table) (k : Str) : provider_table :=
  providers.filter fun e => e.ip_port != k

/-- One turn of the first pass: the table, and how many resolvers are used so far. -/
def load_step (st : provider_table × ℕ) (r : listed_resolver) : provider_table × ℕ :=
  let ipp := ip_port args r
  let found := (st.1.lookup ipp).isSome
  let used := st.2 + (use args r).toNat
  let providers := if use args r && !found then st.1.insert (entry args r) else st.1
  (if !use args r && found then erase providers ipp else providers, used)

/-- The second pass. -/
def drop_unlisted (providers : provider_table) (resolvers : List listed_resolver) :
    provider_table :=
  providers.filter fun e => resolvers.any fun p => ip_port args p == e.ip_port

/-- The two passes. -/
def merge (providers : provider_table) (resolvers : List listed_resolver) : provider_table × ℕ :=
  let st := resolvers.foldl (load_step args) (providers, 0)
  (drop_unlisted args st.1 resolvers, st.2)

/-- `cresponder::load` with what `parse_resolvers_list` returned: the table it leaves, and
whether it throws. A failure to read the list is logged. -/
def load (providers : provider_table) (parsed : Result (List listed_resolver)) :
    provider_table × Result Unit :=
  match parsed with
  | .error e => (providers, if e.is_runtime_error then .ok () else .error e)
  | .ok resolvers =>
      let (providers, used) := merge args providers resolvers
      (providers, if providers.elems.length ≠ used then
        .error (.logic_error "DNScrypt resolvers merging failed") else .ok ())

end Load

/-! ## The table after a merge -/

section Merge

variable {args : LoadArgs}

/-- Resolvers with the same address are used together or not at all. -/
def Consistent (args : LoadArgs) (rs : List listed_resolver) : Prop :=
  ∀ r ∈ rs, ∀ r' ∈ rs, ip_port args r = ip_port args r' → use args r = use args r'

/-- The first resolver with a key that may be used. -/
def first (args : LoadArgs) (rs : List listed_resolver) (k : Str) : Option listed_resolver :=
  (rs.filter (use args)).find? fun r => ip_port args r == k

theorem first_append (rs : List listed_resolver) (r : listed_resolver) (k : Str) :
    first args (rs ++ [r]) k = (first args rs k).or
      (if use args r = true ∧ ip_port args r = k then some r else none) := by
  unfold first
  rw [List.filter_append, List.find?_append, List.filter_singleton]
  by_cases hu : use args r = true
  · by_cases hk : ip_port args r = k
    · simp [hu, hk]
    · simp [hu, hk]
  · simp [hu]

theorem first_eq_none {rs : List listed_resolver} {k : Str} :
    first args rs k = none ↔ ∀ r ∈ rs, use args r = true → ip_port args r ≠ k := by
  unfold first
  rw [List.find?_eq_none]
  simp only [List.mem_filter, beq_iff_eq, and_imp, ne_eq]

theorem first_eq_some {rs : List listed_resolver} {k : Str} {r : listed_resolver}
    (h : first args rs k = some r) : r ∈ rs ∧ use args r = true ∧ ip_port args r = k := by
  unfold first at h
  have hmem := List.mem_filter.mp (List.mem_of_find?_eq_some h)
  exact ⟨hmem.1, hmem.2, by simpa using List.find?_some h⟩

theorem lookup_erase (providers : provider_table) (k k' : Str) :
    (erase providers k).lookup k' = if k' = k then none else providers.lookup k' := by
  rw [erase, KeyedSet.lookup_filter]
  cases hl : providers.lookup k' with
  | none => simp
  | some e =>
      have hk := (KeyedSet.lookup_eq_some.mp hl).2
      by_cases heq : k' = k
      · rw [if_pos heq, Option.filter_some_neg (by simp [hk, heq])]
      · rw [if_neg heq, Option.filter_some_pos (by simpa [hk] using heq)]

/-- What the first pass leaves under a key. -/
def passed (args : LoadArgs) (old : provider_table) (rs : List listed_resolver) (k : Str) :
    Option provider_entry :=
  match first args rs k with
  | some r => some ((old.lookup k).getD (entry args r))
  | none => if ∃ r ∈ rs, ip_port args r = k then none else old.lookup k

/-- One turn changes what is found under one key: an address that is used gets an entry if it
has none, another loses its entry. -/
theorem load_step_lookup (st : provider_table × ℕ) (r : listed_resolver) (k : Str) :
    (load_step args st r).1.lookup k =
      if k = ip_port args r then
        if use args r = true then some ((st.1.lookup k).getD (entry args r)) else none
      else st.1.lookup k := by
  have hkey : (entry args r).ip_port = ip_port args r := rfl
  unfold load_step
  dsimp only
  cases hu : use args r with
  | true =>
      cases hl : st.1.lookup (ip_port args r) with
      | none =>
          simp only [Option.isSome_none, Bool.not_false, Bool.and_self, if_true, Bool.not_true,
            Bool.false_eq_true, if_false]
          rw [KeyedSet.lookup_insert _ (by rw [hkey]; exact hl), hkey]
          split_ifs with hk
          · rw [hk, hl]
            rfl
          · rfl
      | some e =>
          simp only [Option.isSome_some, Bool.not_true, Bool.and_false, Bool.false_and,
            Bool.false_eq_true, if_false, if_true]
          split_ifs with hk
          · rw [hk, hl]
            rfl
          · rfl
  | false =>
      cases hl : st.1.lookup (ip_port args r) with
      | none =>
          simp only [Option.isSome_none, Bool.and_false, Bool.false_and, Bool.false_eq_true,
            if_false]
          split_ifs with hk
          · rw [hk, hl]
          · rfl
      | some e =>
          simp only [Option.isSome_some, Bool.not_false, Bool.and_self, if_true, Bool.false_and,
            Bool.false_eq_true, if_false]
          exact lookup_erase st.1 (ip_port args r) k

/-- The same for what is expected of the first pass. -/
theorem passed_append (old : provider_table) {rs : List listed_resolver} {r : listed_resolver}
    (hrs : ∀ r' ∈ rs, ip_port args r' = ip_port args r → use args r' = use args r) (k : Str) :
    passed args old (rs ++ [r]) k =
      if k = ip_port args r then
        if use args r = true then some ((passed args old rs k).getD (entry args r)) else none
      else passed args old rs k := by
  unfold passed
  rw [first_append]
  have hmem : (∃ r' ∈ rs ++ [r], ip_port args r' = k) ↔
      (∃ r' ∈ rs, ip_port args r' = k) ∨ k = ip_port args r := by
    simp only [List.mem_append, List.mem_singleton, or_and_right, exists_or, exists_eq_left]
    exact or_congr_right eq_comm
  by_cases hk : k = ip_port args r
  · -- whether an earlier resolver has this address, and is used with it
    rw [if_pos hk]
    cases hf : first args rs k with
    | some r₀ =>
        obtain ⟨hr₀, hu₀, hk₀⟩ := first_eq_some hf
        have hu : use args r = true := (hrs r₀ hr₀ (hk₀.trans hk)).symm.trans hu₀
        rw [if_pos hu]
        rfl
    | none =>
        by_cases hu : use args r = true
        · have hno : ¬ ∃ r' ∈ rs, ip_port args r' = k := by
            rintro ⟨r', hr', hk'⟩
            exact first_eq_none.mp hf r' hr' ((hrs r' hr' (hk'.trans hk)).trans hu) hk'
          rw [if_pos hu, if_pos ⟨hu, hk.symm⟩]
          dsimp only
          rw [if_neg hno]
          rfl
        · rw [if_neg hu, if_neg fun h => hu h.1]
          rw [Option.or_none]
          exact if_pos (hmem.mpr (Or.inr hk))
  · rw [if_neg hk, if_neg fun h => hk h.2.symm, Option.or_none]
    cases first args rs k with
    | some r₀ => rfl
    | none =>
        dsimp only
        exact if_congr (hmem.trans (or_iff_left hk)) rfl rfl

/-- **The first pass**, for every key: a used address has its old entry or a new one, an
address that may not be used has none, and the others are as before. -/
theorem first_pass_lookup (old : provider_table) {rs : List listed_resolver}
    (hrs : Consistent args rs) (k : Str) :
    (rs.foldl (load_step args) (old, 0)).1.lookup k = passed args old rs k := by
  induction rs using List.reverseRecOn generalizing k with
  | nil => rfl
  | append_singleton rs r ih =>
      have hprev : Consistent args rs := fun r₁ h₁ r₂ h₂ =>
        hrs r₁ (List.mem_append_left _ h₁) r₂ (List.mem_append_left _ h₂)
      have hsame : ∀ r' ∈ rs, ip_port args r' = ip_port args r → use args r' = use args r :=
        fun r' hr' => hrs r' (List.mem_append_left _ hr') r (by simp)
      rw [List.foldl_append, List.foldl_cons, List.foldl_nil, load_step_lookup, ih hprev,
        passed_append old hsame]

theorem first_pass_used (old : provider_table) (rs : List listed_resolver) :
    (rs.foldl (load_step args) (old, 0)).2 = (rs.filter (use args)).length := by
  induction rs using List.reverseRecOn with
  | nil => rfl
  | append_singleton rs r ih =>
      rw [List.foldl_append, List.foldl_cons, List.foldl_nil, List.filter_append,
        List.length_append, ← ih, List.filter_singleton]
      unfold load_step
      cases use args r <;> rfl

/-- **The table after both passes**: the old entry or a new one for each used address, and
nothing else. -/
theorem merge_lookup (old : provider_table) {rs : List listed_resolver}
    (hrs : Consistent args rs) (k : Str) :
    (merge args old rs).1.lookup k
      = (first args rs k).map fun r => (old.lookup k).getD (entry args r) := by
  have hkeys : ∀ e, (rs.foldl (load_step args) (old, 0)).1.lookup k = some e →
      ((rs.any fun p => ip_port args p == e.ip_port) = true ↔ ∃ r ∈ rs, ip_port args r = k) := by
    intro e he
    rw [(KeyedSet.lookup_eq_some.mp he).2, List.any_eq_true]
    simp only [beq_iff_eq]
  rw [merge, drop_unlisted, KeyedSet.lookup_filter]
  cases hl : (rs.foldl (load_step args) (old, 0)).1.lookup k with
  | none =>
      have hnone := hl
      rw [first_pass_lookup old hrs, passed] at hnone
      cases hf : first args rs k with
      | none => rfl
      | some r =>
          rw [hf] at hnone
          exact absurd hnone (by simp)
  | some e =>
      have hsome := hl
      have hiff := hkeys e hl
      rw [first_pass_lookup old hrs, passed] at hsome
      cases hf : first args rs k with
      | none =>
          -- an entry that the first pass left alone and that is not listed
          rw [hf] at hsome
          dsimp only at hsome
          split_ifs at hsome with hin
          have hdrop : ¬ (rs.any fun p => ip_port args p == e.ip_port) = true :=
            fun h => hin (hiff.mp h)
          rw [Option.filter_some, if_neg hdrop]
          rfl
      | some r =>
          obtain ⟨hr, -, hk⟩ := first_eq_some hf
          rw [hf] at hsome
          dsimp only at hsome
          rw [Option.filter_some, if_pos (hiff.mpr ⟨r, hr, hk⟩), ← hsome]
          rfl

theorem merge_used (old : provider_table) (rs : List listed_resolver) :
    (merge args old rs).2 = (rs.filter (use args)).length := first_pass_used old rs

/-- The keys of the table are those of the used resolvers. -/
theorem merge_keys (old : provider_table) {rs : List listed_resolver} (hrs : Consistent args rs)
    (k : Str) : (∃ e ∈ (merge args old rs).1.elems, e.ip_port = k) ↔
      ∃ r ∈ rs, use args r = true ∧ ip_port args r = k := by
  have hlookup := merge_lookup old hrs k
  constructor
  · rintro ⟨e, he, hk⟩
    rw [KeyedSet.lookup_eq_some.mpr ⟨he, hk⟩] at hlookup
    cases hf : first args rs k with
    | none =>
        rw [hf] at hlookup
        exact absurd hlookup (by simp)
    | some r => exact ⟨r, first_eq_some hf⟩
  · rintro ⟨r, hr, hu, hk⟩
    cases hf : first args rs k with
    | none => exact absurd hk (first_eq_none.mp hf r hr hu)
    | some r₀ =>
        rw [hf, Option.map_some, KeyedSet.lookup_eq_some] at hlookup
        exact ⟨_, hlookup⟩

/-- No two used resolvers have the same address. -/
def Distinct (args : LoadArgs) (rs : List listed_resolver) : Prop :=
  ((rs.filter (use args)).map (ip_port args)).Nodup

/-- **The check at the end**: there are as many entries as used lines exactly when these have
different addresses. -/
theorem merge_size_iff (old : provider_table) {rs : List listed_resolver}
    (hrs : Consistent args rs) :
    (merge args old rs).1.elems.length = (merge args old rs).2 ↔ Distinct args rs := by
  have hnodup := (merge args old rs).1.nodup
  have hmem : ∀ k, k ∈ (merge args old rs).1.elems.map provider_entry.ip_port ↔
      k ∈ (rs.filter (use args)).map (ip_port args) := by
    intro k
    rw [List.mem_map, merge_keys old hrs, List.mem_map]
    simp only [List.mem_filter, and_assoc]
  rw [merge_used, ← List.length_map provider_entry.ip_port, ← List.length_map (ip_port args)]
  constructor
  · intro hlen
    have hsub := List.subperm_of_subset hnodup fun k hk => (hmem k).mp hk
    exact (hsub.perm_of_length_le (le_of_eq hlen.symm)).nodup_iff.mp hnodup
  · intro hdistinct
    exact ((List.perm_ext_iff_of_nodup hnodup hdistinct).mpr hmem).length_eq

end Merge

/-! ## Loading -/

/-- The table is that of the list: its keys are the addresses of the used resolvers, each
entry has the host name and the key of a listed resolver with its address, and an entry that
was there with the same host name and key is there still. -/
structure Loaded (args : LoadArgs) (old new : provider_table) (rs : List listed_resolver) :
    Prop where
  keys : ∀ k, (∃ e ∈ new.elems, e.ip_port = k) ↔
    ∃ r ∈ rs, use args r = true ∧ ip_port args r = k
  listed : ∀ e ∈ new.elems, ∃ r ∈ rs, ip_port args r = e.ip_port ∧ r.hostname = e.hostname ∧
    r.public_key = e.public_key
  kept : ∀ e ∈ old.elems, ∀ r ∈ rs, use args r = true → ip_port args r = e.ip_port →
    r.hostname = e.hostname → r.public_key = e.public_key → e ∈ new.elems

/-- Every old entry whose address is used has the host name and the key of a listed resolver
with that address. -/
def Unchanged (args : LoadArgs) (old : provider_table) (rs : List listed_resolver) : Prop :=
  ∀ e ∈ old.elems, (∃ r ∈ rs, use args r = true ∧ ip_port args r = e.ip_port) →
    ∃ r ∈ rs, ip_port args r = e.ip_port ∧ r.hostname = e.hostname ∧ r.public_key = e.public_key

section Loading

variable {args : LoadArgs}

theorem consistent_of_posix {rs : List listed_resolver}
    (h : ∀ r ∈ rs, r.address.Posix args.net) : Consistent args rs := by
  intro r hr r' hr' heq
  unfold use
  rw [address.inet_of_ip_port (h r hr) (h r' hr') heq]

/-- An old entry with a used address stays. -/
theorem mem_merge_of_old (old : provider_table) {rs : List listed_resolver}
    (hrs : Consistent args rs) {e : provider_entry} (he : e ∈ old.elems)
    (hr : ∃ r ∈ rs, use args r = true ∧ ip_port args r = e.ip_port) :
    e ∈ (merge args old rs).1.elems := by
  obtain ⟨r, hr, hu, hk⟩ := hr
  have hlookup := merge_lookup old hrs e.ip_port
  cases hf : first args rs e.ip_port with
  | none => exact absurd hk (first_eq_none.mp hf r hr hu)
  | some r₀ =>
      rw [hf, KeyedSet.lookup_eq_some.mpr ⟨he, rfl⟩, Option.map_some, Option.getD_some] at hlookup
      exact (KeyedSet.lookup_eq_some.mp hlookup).1

/-- An entry is an old one or was made for a listed resolver. -/
theorem merge_entry (old : provider_table) {rs : List listed_resolver} (hrs : Consistent args rs)
    {e : provider_entry} (he : e ∈ (merge args old rs).1.elems) :
    e ∈ old.elems ∨ ∃ r ∈ rs, e = entry args r := by
  have hlookup := merge_lookup old hrs e.ip_port
  rw [KeyedSet.lookup_eq_some.mpr ⟨he, rfl⟩] at hlookup
  cases hf : first args rs e.ip_port with
  | none =>
      rw [hf] at hlookup
      exact absurd hlookup (by simp)
  | some r =>
      rw [hf, Option.map_some] at hlookup
      cases hold : old.lookup e.ip_port with
      | none =>
          rw [hold] at hlookup
          exact Or.inr ⟨r, (first_eq_some hf).1, Option.some.inj hlookup⟩
      | some e₀ =>
          rw [hold] at hlookup
          rw [Option.some.inj hlookup]
          exact Or.inl (KeyedSet.lookup_eq_some.mp hold).1

/-- **When a list of resolvers is loaded as it should be.** For every table, every list and
either setting of `noipv6`, with the texts of `inet_ntop` as documented: `load` does not
throw and leaves the table of the list exactly when no two used resolvers of the list have the
same address, and every old entry whose address is used has the host name and the key of a
listed resolver with that address. -/
theorem load_iff (old : provider_table) {rs : List listed_resolver}
    (hnet : ∀ r ∈ rs, r.address.Posix args.net) :
    ((load args old (.ok rs)).2 = .ok () ∧ Loaded args old (load args old (.ok rs)).1 rs) ↔
      Distinct args rs ∧ Unchanged args old rs := by
  have hrs := consistent_of_posix hnet
  have htable : (load args old (.ok rs)).1 = (merge args old rs).1 := rfl
  have houtcome : (load args old (.ok rs)).2 = .ok () ↔ Distinct args rs := by
    rw [← merge_size_iff old hrs]
    unfold load
    dsimp only
    by_cases hsize : (merge args old rs).1.elems.length = (merge args old rs).2
    · rw [if_neg (not_not_intro hsize)]
      exact iff_of_true rfl hsize
    · rw [if_pos hsize]
      exact iff_of_false (by simp) hsize
  rw [houtcome, htable]
  refine and_congr_right fun _ => ?_
  constructor
  · intro h e he hr
    exact h.listed e (mem_merge_of_old old hrs he hr)
  · intro h
    refine ⟨merge_keys old hrs, ?_, ?_⟩
    · intro e he
      rcases merge_entry old hrs he with hold | ⟨r, hr, rfl⟩
      · exact h e hold ((merge_keys old hrs e.ip_port).mp ⟨e, he, rfl⟩)
      · exact ⟨r, hr, rfl, rfl, rfl⟩
    · intro e he r hr hu hk _ _
      exact mem_merge_of_old old hrs he ⟨r, hr, hu, hk⟩

end Loading

/-- IPv6 is allowed, and nothing is drawn. -/
def sampleArgs : LoadArgs where
  net := Inet.sample
  noipv6 := false
  tcponly := .udp
  draw := fun _ => ⟨Block.zero 12, Block.zero 32, Block.zero 8⟩

/-- A list of one resolver is loaded into an empty table. -/
theorem load_iff_sample :
    (load sampleArgs KeyedSet.empty (.ok [sampleListed "a.b".toList])).2 = .ok () ∧
      Loaded sampleArgs KeyedSet.empty
        (load sampleArgs KeyedSet.empty (.ok [sampleListed "a.b".toList])).1
        [sampleListed "a.b".toList] := by
  have hnet : ∀ r ∈ [sampleListed "a.b".toList], r.address.Posix sampleArgs.net := by
    intro r hr
    rw [List.mem_singleton.mp hr]
    exact sampleAt_posix
  refine (load_iff KeyedSet.empty hnet).mpr ⟨List.nodup_singleton _, ?_⟩
  intro e he
  exact absurd he List.not_mem_nil

/-- **Two lines with one address** are read, and loading them throws. -/
theorem load_duplicate :
    parse_resolvers_list sampleListing [] (some (save_resolvers sampleListing.net
        [sampleListed "a.b".toList, sampleListed "a.b".toList])) .udp
      = .ok [sampleListed "a.b".toList, sampleListed "a.b".toList] ∧
    (load sampleArgs KeyedSet.empty (.ok [sampleListed "a.b".toList, sampleListed "a.b".toList])).2
      = .error (.logic_error "DNScrypt resolvers merging failed") := by
  have hplain : csv.Plain "a.b".toList := ⟨by decide, by decide, by decide, by decide⟩
  have hboth : ∀ r ∈ [sampleListed "a.b".toList, sampleListed "a.b".toList],
      r = sampleListed "a.b".toList := by
    intro r hr
    simpa using hr
  have hrs : ∀ r ∈ [sampleListed "a.b".toList, sampleListed "a.b".toList],
      r.Read ∧ r.Printed sampleListing := by
    intro r hr
    rw [hboth r hr]
    exact ⟨sampleListed_read hplain (by decide), sampleListed_printed _⟩
  refine ⟨?_, ?_⟩
  · rw [parse_saved_file hrs, parse_lines_saved hrs]
    · rfl
    · intro r hr
      rw [hboth r hr]
      decide
  · -- two lines are used, and there is one entry
    have hsize : ¬ (merge sampleArgs KeyedSet.empty
        [sampleListed "a.b".toList, sampleListed "a.b".toList]).1.elems.length
          = (merge sampleArgs KeyedSet.empty
              [sampleListed "a.b".toList, sampleListed "a.b".toList]).2 := by
      rw [merge_size_iff]
      · intro hdistinct
        exact absurd hdistinct (List.not_nodup_pair _)
      · exact consistent_of_posix fun r hr => by
          rw [hboth r hr]
          exact sampleAt_posix
    unfold load
    dsimp only
    rw [if_pos hsize]

end cresponder

end Cdns
