/-
The way of a question, and the spelling of its name.

`way_of` is what `responder::process` decides about a question before it does anything,
and `process_dns_way` says that it then does that. Two queries are `CaseVariant`s of each
other when they differ in the case of letters of the name only. The lists and the cache
take a name in lower case. The hosts map and the test for the `.onion` zone take it as it
is spelled, and `way_of_case_iff` says when this makes a difference.
-/
import Cdns.FilterSpec
import Cdns.Hostname
import Cdns.ResponderSpec

set_option autoImplicit false

namespace Cdns

open Lib.Storage

/-! ## Ways -/

/-- The ways a question can go, as a client sees them. -/
inductive way where
  /-- not a query -/
  | dropped
  | refused
  | cached
  | hosts (ip : Str)
  | onion
  | ordinary
  deriving Repr, DecidableEq

namespace responder

/-- What `process` decides about a query. -/
def question_way (env : Env) (r : responder) (dns_query : Query) : Result way := do
  let (owner, class_, type) ← dns_query.get_question
  let pass ← r.passes (Query.drop_dot owner) type
  let _ ← log_class env class_
  if pass = false then .ok .refused
  else if (r.cache.live env.tnow owner type).isSome then .ok .cached
  else if r.hosts_response (Query.drop_dot owner) ≠ [] then
    .ok (.hosts (r.hosts_response (Query.drop_dot owner)))
  else do
    let zone ← r.zone_provider dns_query
    .ok (if zone.isSome then .onion else .ordinary)

/-- What `process` decides about a message that it is given. -/
def way_of (env : Env) (r : responder) (dns_query : Query) : Result way :=
  if dns_query.is_dns = false then .ok .dropped else r.question_way env dns_query

/-- `random_provider` behind the zones. -/
def ordinary_provider (env : Env) (r : responder) : Result (Option provider) :=
  match r.crypt with
  | some c =>
      if c.dnscrypt_providers = [] then r.random_dns_provider env
      else .ok (random_dnscrypt_provider env c.dnscrypt_providers)
  | none => r.random_dns_provider env

/-- The end of `process`, once a provider was chosen. -/
def forward (env : Env) (r : responder) (req : incoming) (prov : Option provider) :
    Result (responder × outcome) :=
  let failed := { req with message := req.message.mark_servfail }
  match prov with
  | none => r.finish env failed
  | some p =>
      match env.created with
      | none => .ok (r, .forwarded (upstream.create p req))
      | some (.net_error _) => r.finish env failed
      | some e => .error e

/-- What is done on each way. -/
def follow_way (env : Env) (r : responder) (req : incoming) : way → Result (responder × outcome)
  | .dropped => .ok (r, .dropped)
  | .refused => r.follow env req .refused
  | .cached => do
      let (_, m) ← r.cache.retrieve env.tnow req.message.query
      finish env { r with cached_count := r.cached_count + 1 } { req with message := .of_query m }
  | .hosts ip => r.follow env req (.hosts ip)
  | .onion => r.forward env req r.onion_provider
  | .ordinary => do
      let prov ← r.ordinary_provider env
      r.forward env req prov

/-- The test of `zone_provider`. -/
def onion_zone (owner : Str) : Bool :=
  owner.length > 6 && owner.drop (owner.length - 6) == ".onion".toList

theorem zone_provider_eq (r : responder) {q : Query} {n : Str} {class_ type : ℕ}
    (hq : q.get_question = .ok (n, class_, type)) : r.zone_provider q =
      .ok (if onion_zone (Query.drop_dot n) = true then r.onion_provider else none) := by
  unfold zone_provider onion_zone
  cases r.onion_provider with
  | none => rw [ite_self]
  | some p =>
      dsimp only
      rw [Query.hostname, hq, Result.ok_bind]
      simp only [Result.ok_bind, Bool.and_eq_true, decide_eq_true_eq, beq_iff_eq]

/-- Asking goes to the zone or to an ordinary provider. -/
theorem ask_of_zone {env : Env} {r : responder} {req : incoming} {zone : Option provider}
    (h : r.zone_provider req.message.query = .ok zone)
    (hzone : zone = none ∨ zone = r.onion_provider) :
    r.ask env req = r.follow_way env req (if zone.isSome then .onion else .ordinary) := by
  rw [ask, random_provider, h, Result.ok_bind]
  cases zone with
  | none => rfl
  | some p =>
      rcases hzone with hnone | hp
      · exact absurd hnone (by simp)
      · show r.forward env req (some p) = r.forward env req r.onion_provider
        rw [hp]

/-- An exception of the first steps leaves `process`. -/
theorem process_dns_of_pre_filter {env : Env} {r : responder} {req : incoming} {e : Exn}
    (hdns : req.message.query.is_dns = true)
    (h : pre_filter env { r with processed_count := r.processed_count + 1 } req.message.query =
      .error e) : r.process_dns env req = .error e := by
  rw [process_dns, if_neg (by simp [hdns])]
  dsimp only
  rw [h]
  rfl

theorem process_dns_question {env : Env} {r : responder} {req : incoming}
    (hdns : req.message.query.is_dns = true) :
    r.process_dns env req = r.question_way env req.message.query >>=
      follow_way env { r with processed_count := r.processed_count + 1 } req := by
  rw [question_way]
  cases hq : req.message.query.get_question with
  | error e => exact process_dns_of_pre_filter hdns (by rw [pre_filter, hq]; rfl)
  | ok a =>
      obtain ⟨owner, class_, type⟩ := a
      rw [Result.ok_bind]
      dsimp only
      -- the counter is not looked at
      have hcount : passes { r with processed_count := r.processed_count + 1 }
          (Query.drop_dot owner) type = r.passes (Query.drop_dot owner) type := rfl
      cases hpass : r.passes (Query.drop_dot owner) type with
      | error e =>
          refine process_dns_of_pre_filter hdns ?_
          rw [pre_filter, hq, Result.ok_bind]
          dsimp only
          rw [hcount, hpass]
          rfl
      | ok pass =>
          rw [Result.ok_bind]
          cases hlog : log_class env class_ with
          | error e =>
              refine process_dns_of_pre_filter hdns ?_
              rw [pre_filter, hq, Result.ok_bind]
              dsimp only
              rw [hcount, hpass, Result.ok_bind, hlog]
              rfl
          | ok u =>
              rw [Result.ok_bind, process_dns_eq hdns hq hpass hlog, route_of, hpass]
              cases pass with
              | false => rfl
              | true =>
                  simp only [if_true, Bool.true_eq_false, if_false]
                  cases r.cache.live env.tnow owner type with
                  | some e => rfl
                  | none =>
                      simp only [Option.isSome_none, Bool.false_eq_true, if_false]
                      by_cases hip : r.hosts_response (Query.drop_dot owner) = []
                      · rw [if_pos hip, if_neg (not_not_intro hip), zone_provider_eq r hq]
                        apply ask_of_zone
                        · exact zone_provider_eq _ hq
                        · split_ifs
                          · exact Or.inr rfl
                          · exact Or.inl rfl
                      · rw [if_neg hip, if_pos hip]
                        rfl

theorem question_way_ne_dropped {env : Env} {r : responder} {q : Query} {w : way}
    (h : r.question_way env q = .ok w) : w ≠ .dropped := by
  obtain ⟨⟨owner, class_, type⟩, -, h⟩ := Result.bind_eq_ok.mp h
  obtain ⟨pass, -, h⟩ := Result.bind_eq_ok.mp h
  obtain ⟨-, -, h⟩ := Result.bind_eq_ok.mp h
  split_ifs at h
  · rw [← Except.ok.inj h]
    simp
  · rw [← Except.ok.inj h]
    simp
  · rw [← Except.ok.inj h]
    simp
  · obtain ⟨zone, -, h⟩ := Result.bind_eq_ok.mp h
    rw [← Except.ok.inj h]
    split_ifs
    · simp
    · simp

/-- **`process` decides, and does what it decided.** Queries are counted. -/
theorem process_dns_way (env : Env) (r : responder) (req : incoming) :
    r.process_dns env req = r.way_of env req.message.query >>= fun w =>
      follow_way env
        (if w = .dropped then r else { r with processed_count := r.processed_count + 1 }) req w := by
  rw [way_of]
  cases hdns : req.message.query.is_dns with
  | false =>
      rw [process_dns, if_pos hdns]
      rfl
  | true =>
      rw [process_dns_question hdns, if_neg (by simp)]
      cases hw : r.question_way env req.message.query with
      | error e => rfl
      | ok w => rw [Result.ok_bind, Result.ok_bind, if_neg (question_way_ne_dropped hw)]

end responder

/-! ## Names in lower case -/

section Lower

variable {s s' : Str}

theorem length_eq_of_tolower (h : ascii_tolower s' = ascii_tolower s) : s'.length = s.length := by
  rw [← ascii_tolower_length s', h, ascii_tolower_length]

theorem getLast?_dot_of_tolower (h : ascii_tolower s' = ascii_tolower s) :
    s'.getLast? = some '.' ↔ s.getLast? = some '.' := by
  rw [← Filter.getLast?_tolower (by decide), h, Filter.getLast?_tolower (by decide)]

theorem dropLast_of_tolower (h : ascii_tolower s' = ascii_tolower s) :
    ascii_tolower s'.dropLast = ascii_tolower s.dropLast := by
  unfold ascii_tolower at h ⊢
  rw [List.map_dropLast, List.map_dropLast, h]

theorem nil_of_tolower (h : ascii_tolower s' = ascii_tolower s) : s' = [] ↔ s = [] := by
  rw [← List.length_eq_zero_iff, length_eq_of_tolower h, List.length_eq_zero_iff]

theorem Query.drop_dot_tolower (h : ascii_tolower s' = ascii_tolower s) :
    ascii_tolower (drop_dot s') = ascii_tolower (drop_dot s) := by
  have hdot : (s' ≠ [] ∧ s'.getLast? = some '.') ↔ (s ≠ [] ∧ s.getLast? = some '.') :=
    and_congr (not_congr (nil_of_tolower h)) (getLast?_dot_of_tolower h)
  unfold drop_dot
  by_cases hs : s ≠ [] ∧ s.getLast? = some '.'
  · rw [if_pos hs, if_pos (hdot.mpr hs)]
    exact dropLast_of_tolower h
  · rw [if_neg hs, if_neg fun h => hs (hdot.mp h)]
    exact h

/-- **The lists take a name in lower case.** -/
theorem Filter.match_tolower (f : Filter) (h : ascii_tolower s' = ascii_tolower s)
    (hlen : s.length ≤ MAX_QNAME_LENGTH) : f.match_ s' = f.match_ s := by
  have hlen' : s'.length ≤ MAX_QNAME_LENGTH := by
    rw [length_eq_of_tolower h]
    exact hlen
  have hdot : (s'.length > 1 ∧ s'.getLast? = some '.') ↔ (s.length > 1 ∧ s.getLast? = some '.') := by
    rw [length_eq_of_tolower h, getLast?_dot_of_tolower h]
  unfold match_
  dsimp only
  rw [if_neg (not_lt.mpr hlen), if_neg (not_lt.mpr hlen')]
  by_cases hs : s.length > 1 ∧ s.getLast? = some '.'
  · have hne : ∀ {t : Str}, t.length > 1 → t.dropLast ≠ [] := by
      intro t ht hnil
      have := congrArg List.length hnil
      rw [List.length_dropLast, List.length_nil] at this
      omega
    rw [if_pos hs, if_pos (hdot.mpr hs), dropLast_of_tolower h, if_neg (hne hs.1),
      if_neg (hne (hdot.mpr hs).1)]
  · rw [if_neg hs, if_neg fun h => hs (hdot.mp h), h]
    by_cases hnil : s = []
    · rw [hnil, (nil_of_tolower h).mpr hnil]
    · rw [if_neg hnil, if_neg fun h' => hnil ((nil_of_tolower h).mp h')]

theorem responder.passes_tolower (r : responder) (h : ascii_tolower s' = ascii_tolower s)
    (hlen : s.length ≤ Filter.MAX_QNAME_LENGTH) (type : ℕ) : r.passes s' type = r.passes s type := by
  rw [passes, passes, r.whitelist.match_tolower h hlen, r.blacklist.match_tolower h hlen]

/-- **So does the cache.** -/
theorem Cache.live_tolower (c : Cache) (h : ascii_tolower s' = ascii_tolower s) (tnow : ℤ)
    (type : ℕ) : c.live tnow s' type = c.live tnow s type := by
  rw [live, live, find, find, h]

end Lower

/-! ## Spellings -/

namespace Query

/-- Where the name of the question ends. -/
def name_end (q : Query) : ℕ :=
  match q.get_rr_name message_header.wire_size with
  | .ok (off, _) => off
  | .error _ => message_header.wire_size

/-- The bytes are the same up to the case of an ASCII letter. -/
def SameLetter (b b' : UInt8) : Prop := (char_of b').toLower = (char_of b).toLower

instance (b b' : UInt8) : Decidable (SameLetter b b') := inferInstanceAs (Decidable (_ = _))

/-- The queries differ in the case of letters of the name only. -/
structure CaseVariant (q q' : Query) : Prop where
  size : q'.size = q.size
  bytes : ∀ i, i < q.size → q'.bytes i = q.bytes i ∨
    message_header.wire_size ≤ i ∧ i < q.name_end ∧ SameLetter (q.bytes i) (q'.bytes i)

theorem SameLetter.cases {b b' : UInt8} (h : SameLetter b b') : b' = b ∨
    (65 ≤ b.toNat ∧ b.toNat ≤ 90 ∧ b'.toNat = b.toNat + 32) ∨
    (65 ≤ b'.toNat ∧ b'.toNat ≤ 90 ∧ b.toNat = b'.toNat + 32) := by
  have hn := congrArg Char.toNat h
  rcases toLower_cases (char_of b') with h' | ⟨h₁, h₂, h'⟩
  · rcases toLower_cases (char_of b) with h₀ | ⟨h₃, h₄, h₀⟩
    · rw [h', h₀, char_of_toNat, char_of_toNat] at hn
      exact Or.inl (UInt8.toNat_inj.mp hn)
    · rw [h', h₀, char_of_toNat, char_of_toNat] at hn
      rw [char_of_toNat] at h₃ h₄
      exact Or.inr (Or.inl ⟨h₃, h₄, hn⟩)
  · rw [char_of_toNat] at h₁ h₂
    rcases toLower_cases (char_of b) with h₀ | ⟨-, -, h₀⟩
    · rw [h', h₀, char_of_toNat, char_of_toNat] at hn
      exact Or.inr (Or.inr ⟨h₁, h₂, hn.symm⟩)
    · rw [h', h₀, char_of_toNat, char_of_toNat] at hn
      exact Or.inl (UInt8.toNat_inj.mp (by omega))

/-- What is no letter has one spelling. -/
theorem SameLetter.eq {b b' : UInt8} (h : SameLetter b b') (hb : b.toNat < 65 ∨ 122 < b.toNat) :
    b' = b := by
  rcases h.cases with heq | ⟨h₁, h₂, -⟩ | ⟨h₁, h₂, h₃⟩
  · exact heq
  · omega
  · omega

theorem SameLetter.is_dns_char {b b' : UInt8} (h : SameLetter b b') :
    is_dns_char b' = is_dns_char b := by
  rcases h.cases with rfl | ⟨h₁, h₂, h₃⟩ | ⟨h₁, h₂, h₃⟩
  · rfl
  all_goals
    rw [Bool.eq_iff_iff]
    simp only [Query.is_dns_char, Bool.or_eq_true, Bool.and_eq_true, decide_eq_true_eq, beq_iff_eq]
    omega

/-- A label in another spelling. -/
theorem slice_case {b b' : Buffer} {off len : ℕ}
    (h : ∀ i, off ≤ i → i < off + len → SameLetter (b i) (b' i)) :
    (slice b' off len).all Query.is_dns_char = (slice b off len).all Query.is_dns_char ∧
      ascii_tolower ((slice b' off len).map char_of) =
        ascii_tolower ((slice b off len).map char_of) := by
  constructor
  · have hmap : (slice b' off len).map Query.is_dns_char = (slice b off len).map Query.is_dns_char :=
      slice_map_congr fun i h₁ h₂ => (h i h₁ h₂).is_dns_char
    have hid := congrArg (fun l : List Bool => l.all id) hmap
    rw [List.all_map, List.all_map] at hid
    exact hid
  · rw [ascii_tolower, ascii_tolower, List.map_map, List.map_map]
    exact slice_map_congr h

/-- The labels of a name in another spelling. -/
theorem Named.spelled {pkt pkt' : Buffer} {pktlen off o : ℕ} {owner s : Str}
    (h : Named pkt pktlen off owner o s) :
    ∀ {owner' : Str}, (∀ i, off ≤ i → i < o → SameLetter (pkt i) (pkt' i)) →
      ascii_tolower owner' = ascii_tolower owner →
      ∃ s', Named pkt' pktlen off owner' o s' ∧ ascii_tolower s' = ascii_tolower s := by
  induction h with
  | @pointer off owner hptr hend =>
      intro owner' hcase howner
      rw [← (hcase off (le_refl _) (by omega)).eq (by omega)] at hptr
      exact ⟨owner', .pointer hptr hend, howner⟩
  | @root off owner hroot hend =>
      intro owner' hcase howner
      rw [← (hcase off (le_refl _) (by omega)).eq (by omega)] at hroot
      exact ⟨owner', .root hroot hend, howner⟩
  | @label off o owner s hlen hend hchars hshort hrest ih =>
      intro owner' hcase howner
      have hnext := hrest.bounds.1
      -- a length is no letter
      have heq : pkt' off = pkt off := (hcase off (le_refl _) (by omega)).eq (by omega)
      have hlabel : ∀ i, off + 1 ≤ i → i < off + 1 + (pkt off).toNat →
          SameLetter (pkt i) (pkt' i) := fun i h₁ h₂ => hcase i (by omega) (by omega)
      obtain ⟨hall, hlower⟩ := slice_case hlabel
      have howner' : ascii_tolower (owner' ++ (slice pkt' (off + 1) (pkt off).toNat).map char_of
            ++ ['.']) =
          ascii_tolower (owner ++ (slice pkt (off + 1) (pkt off).toNat).map char_of ++ ['.']) := by
        simp only [ascii_tolower_append, howner, hlower]
      obtain ⟨s', hs', hsame⟩ := ih (fun i h₁ h₂ => hcase i (by omega) h₂) howner'
      refine ⟨s', .label ?_ ?_ ?_ ?_ ?_, hsame⟩
      · rw [heq]
        exact hlen
      · rw [heq]
        exact hend
      · rw [heq]
        exact hall.trans hchars
      · rw [heq, length_eq_of_tolower howner']
        exact hshort
      · rw [heq]
        exact hs'

namespace CaseVariant

variable {q q' : Query}

/-- The header is the same. -/
theorem head (h : CaseVariant q q') {i : ℕ} (hi : i < 12) (hsize : i < q.size) :
    q'.bytes i = q.bytes i := by
  have e₁ : message_header.wire_size = 12 := rfl
  rcases h.bytes i hsize with heq | ⟨hlow, -⟩
  · exact heq
  · omega

theorem header (h : CaseVariant q q') (hsize : 12 ≤ q.size) : q'.header = q.header := by
  apply message_header.read_congr
  intro i hi
  exact h.head hi (by omega)

/-- A name that parses parses in every spelling, and ends at the same place. -/
theorem get_rr_name (h : CaseVariant q q') {off : ℕ} {owner : Str}
    (hn : q.get_rr_name message_header.wire_size = .ok (off, owner)) :
    ∃ owner', q'.get_rr_name message_header.wire_size = .ok (off, owner') ∧
      ascii_tolower owner' = ascii_tolower owner := by
  have hend : q.name_end = off := by rw [name_end, hn]
  have hbounds := get_rr_name_bounds hn
  have hcase : ∀ i, message_header.wire_size ≤ i → i < off →
      SameLetter (q.bytes i) (q'.bytes i) := by
    intro i h₁ h₂
    rcases h.bytes i (by omega) with heq | ⟨-, -, hsame⟩
    · rw [heq]
      rfl
    · exact hsame
  obtain ⟨h₁, h₂, hname⟩ := get_rr_name_eq_ok.mp hn
  obtain ⟨owner', hname', hlower⟩ := hname.spelled hcase rfl
  refine ⟨owner', get_rr_name_eq_ok.mpr ?_, hlower⟩
  rw [h.size]
  exact ⟨h₁, h₂, hname'⟩

/-- **A question in another spelling** has the same class and type, and the same name in
lower case. One that does not parse does not parse in any spelling. -/
theorem get_question (h : CaseVariant q q') (hsize : 12 ≤ q.size) :
    (∃ n n' class_ type, q.get_question = .ok (n, class_, type) ∧
        q'.get_question = .ok (n', class_, type) ∧ ascii_tolower n' = ascii_tolower n) ∨
      ∃ e, q.get_question = .error e ∧ q'.get_question = .error e := by
  cases hn : q.get_rr_name message_header.wire_size with
  | error e =>
      -- without a name there is nothing to spell
      have hend : q.name_end = message_header.wire_size := by rw [name_end, hn]
      have hagree : Agree q q' 0 := by
        refine ⟨h.size.symm, fun i _ hi => ?_⟩
        rcases h.bytes i hi with heq | ⟨h₁, h₂, -⟩
        · exact heq.symm
        · omega
      rw [← get_question_congr hagree hsize]
      cases hq : q.get_question with
      | error e' => exact Or.inr ⟨e', rfl, rfl⟩
      | ok a => exact Or.inl ⟨a.1, a.1, a.2.1, a.2.2, rfl, rfl, rfl⟩
  | ok a =>
      obtain ⟨off, owner⟩ := a
      obtain ⟨owner', hn', hlower⟩ := h.get_rr_name hn
      have hend : q.name_end = off := by rw [name_end, hn]
      have hbounds := get_rr_name_bounds hn
      have htail : ∀ i, off ≤ i → i < q.size → q'.bytes i = q.bytes i := by
        intro i h₁ h₂
        rcases h.bytes i h₂ with heq | ⟨-, h₃, -⟩
        · exact heq
        · omega
      rw [Query.get_question, Query.get_question, h.header hsize]
      by_cases hone : q.header.qdcount ≠ 1
      · rw [if_pos hone, if_pos hone]
        exact Or.inr ⟨_, rfl, rfl⟩
      · rw [if_neg hone, if_neg hone, get_rr_question, get_rr_question, hn, hn', Result.ok_bind,
          Result.ok_bind]
        dsimp only
        rw [h.size]
        by_cases hshort : off + 4 > q.size
        · rw [if_pos hshort, if_pos hshort]
          exact Or.inr ⟨_, rfl, rfl⟩
        · rw [if_neg hshort, if_neg hshort, Result.ok_bind, Result.ok_bind]
          refine Or.inl ⟨owner, owner', _, _, rfl, ?_, hlower⟩
          dsimp only
          rw [be16_congr (htail off (le_refl _) (by omega)) (htail (off + 1) (by omega) (by omega)),
            be16_congr (htail (off + 2) (by omega) (by omega))
              (htail (off + 2 + 1) (by omega) (by omega))]

theorem is_dns (h : CaseVariant q q') : q'.is_dns = q.is_dns := by
  unfold Query.is_dns
  rw [h.size]
  by_cases hshort : q.size < 15
  · rw [decide_eq_true hshort]
    rfl
  · rw [h.head (by omega) (by omega : 4 < q.size), h.head (by omega) (by omega : 5 < q.size),
      h.head (by omega) (by omega : 10 < q.size), h.head (by omega) (by omega : 11 < q.size)]

end CaseVariant

end Query

/-! ## Where the spelling matters -/

namespace responder

/-- The way of a name that the lists let pass and that is not in the cache. -/
def spelled_way (r : responder) (owner : Str) : way :=
  if r.hosts_response owner ≠ [] then .hosts (r.hosts_response owner)
  else if r.onion_provider.isSome && onion_zone owner then .onion else .ordinary

/-- The name is looked up in the hosts map: the lists let it pass, and it is not in the
cache. -/
def LooksUp (env : Env) (r : responder) (q : Query) (n : Str) : Prop :=
  q.is_dns = true ∧ ∃ class_ type, q.get_question = .ok (n, class_, type) ∧
    r.passes (Query.drop_dot n) type = .ok true ∧ log_class env class_ = .ok () ∧
    r.cache.live env.tnow n type = none

/-- The hosts map and the onion zone take the two spellings alike. -/
def SpelledAlike (r : responder) (n n' : Str) : Prop :=
  r.hosts_response n' = r.hosts_response n ∧
    (r.hosts_response n = [] → r.onion_provider = none ∨ onion_zone n' = onion_zone n)

theorem spelled_way_eq_iff (r : responder) (n n' : Str) :
    r.spelled_way n' = r.spelled_way n ↔ r.SpelledAlike n n' := by
  unfold spelled_way SpelledAlike
  by_cases hn : r.hosts_response n = []
  · by_cases hn' : r.hosts_response n' = []
    · -- only the zone is left
      rw [if_neg (not_not_intro hn), if_neg (not_not_intro hn'), hn, hn']
      cases r.onion_provider with
      | none => simp
      | some p =>
          cases onion_zone n with
          | false => cases onion_zone n' with
            | false => simp
            | true => simp
          | true => cases onion_zone n' with
            | false => simp
            | true => simp
    · rw [if_pos hn', if_neg (not_not_intro hn), hn]
      refine iff_of_false ?_ fun h => hn' h.1
      split_ifs
      · simp
      · simp
  · by_cases hn' : r.hosts_response n' = []
    · rw [if_neg (not_not_intro hn'), if_pos hn, hn']
      refine iff_of_false ?_ fun h => hn h.1.symm
      split_ifs
      · simp
      · simp
    · rw [if_pos hn, if_pos hn', way.hosts.injEq]
      exact ⟨fun h => ⟨h, fun h₀ => absurd h₀ hn⟩, fun h => h.1⟩

section Case

variable {env : Env} {r : responder} {q q' : Query} {n : Str} {class_ type : ℕ}

/-- The lists say the same of every spelling of the name of a question. -/
theorem passes_variant (r : responder) {n' : Str} (hq : q.get_question = .ok (n, class_, type))
    (hlower : ascii_tolower n' = ascii_tolower n) :
    r.passes (Query.drop_dot n') type = r.passes (Query.drop_dot n) type := by
  apply r.passes_tolower (Query.drop_dot_tolower hlower)
  exact Query.drop_dot_length_le hq

/-- A name that is looked up goes the way of its spelling. -/
theorem way_of_looksUp (h : r.LooksUp env q n) :
    r.way_of env q = .ok (r.spelled_way (Query.drop_dot n)) := by
  obtain ⟨hdns, class_, type, hq, hpass, hlog, hlive⟩ := h
  rw [way_of, if_neg (by simp [hdns]), question_way, hq, Result.ok_bind]
  dsimp only
  rw [hpass, Result.ok_bind, hlog, Result.ok_bind, if_neg (by simp), hlive, if_neg (by simp),
    zone_provider_eq r hq, Result.ok_bind, spelled_way]
  by_cases hip : r.hosts_response (Query.drop_dot n) ≠ []
  · rw [if_pos hip, if_pos hip]
  · rw [if_neg hip, if_neg hip]
    cases onion_zone (Query.drop_dot n) with
    | false => simp
    | true => simp

/-- A name is looked up in every spelling or in none. -/
theorem LooksUp.variant (hcase : q.CaseVariant q') (h : r.LooksUp env q n) :
    ∃ n', r.LooksUp env q' n' := by
  obtain ⟨hdns, class_, type, hq, hpass, hlog, hlive⟩ := h
  have hsize := Query.size_of_get_question hq
  rcases hcase.get_question (by omega) with ⟨m, n', class_', type', hm, hq', hlower⟩ | ⟨e, he, -⟩
  · obtain ⟨rfl, rfl, rfl⟩ := Query.get_question_unique hq hm
    refine ⟨n', hcase.is_dns.trans hdns, _, _, hq', ?_, hlog, ?_⟩
    · rw [passes_variant r hq hlower]
      exact hpass
    · rw [r.cache.live_tolower hlower]
      exact hlive
  · exact absurd (hq.symm.trans he) (by simp)

/-- What is decided before the hosts map is decided in every spelling. -/
theorem way_of_variant (hcase : q.CaseVariant q') (h : ∀ n, ¬ r.LooksUp env q n) :
    r.way_of env q' = r.way_of env q := by
  rw [way_of, way_of, hcase.is_dns]
  cases hdns : q.is_dns with
  | false => rw [if_pos rfl, if_pos rfl]
  | true =>
      rw [if_neg (by simp), if_neg (by simp), question_way, question_way]
      have hsize := Query.size_of_is_dns hdns
      rcases hcase.get_question (by omega) with ⟨n, n', class_, type, hq, hq', hlower⟩ | ⟨e, he, he'⟩
      · rw [hq, hq', Result.ok_bind, Result.ok_bind]
        dsimp only
        rw [passes_variant r hq hlower, r.cache.live_tolower hlower]
        cases hpass : r.passes (Query.drop_dot n) type with
        | error e => rfl
        | ok pass =>
            rw [Result.ok_bind, Result.ok_bind]
            cases hlog : log_class env class_ with
            | error e => rfl
            | ok u =>
                rw [Result.ok_bind, Result.ok_bind]
                cases pass with
                | false => rfl
                | true =>
                    cases hlive : r.cache.live env.tnow n type with
                    | some e => rfl
                    | none => exact absurd ⟨hdns, class_, type, hq, hpass, hlog, hlive⟩ (h n)
      · rw [he, he', Result.error_bind, Result.error_bind]

end Case

/-- **Whether the spelling of a name matters.** For every state and every two queries that
differ in the case of letters of the name, `process` takes the same way for both exactly
when, in case that the name gets as far as the hosts map, the map has the same address
for the two spellings, or none and both or neither are in the onion zone as the code
tests it, or there is no provider for it. -/
theorem way_of_case_iff (env : Env) (r : responder) {q q' : Query} (hcase : q.CaseVariant q') :
    r.way_of env q' = r.way_of env q ↔
      ∀ n n', r.LooksUp env q n → r.LooksUp env q' n' →
        r.SpelledAlike (Query.drop_dot n) (Query.drop_dot n') := by
  by_cases hlook : ∃ n, r.LooksUp env q n
  · obtain ⟨n, hn⟩ := hlook
    obtain ⟨n', hn'⟩ := hn.variant hcase
    rw [way_of_looksUp hn, way_of_looksUp hn', Except.ok.injEq, spelled_way_eq_iff]
    constructor
    · intro h m m' hm hm'
      -- a query has one name
      obtain ⟨-, _, _, hq, -⟩ := hn
      obtain ⟨-, _, _, hqm, -⟩ := hm
      obtain ⟨-, _, _, hq', -⟩ := hn'
      obtain ⟨-, _, _, hqm', -⟩ := hm'
      rw [← (Query.get_question_unique hq hqm).1, ← (Query.get_question_unique hq' hqm').1]
      exact h
    · intro h
      exact h n n' hn hn'
  · have hnone : ∀ n, ¬ r.LooksUp env q n := fun n hn => hlook ⟨n, hn⟩
    exact iff_of_true (way_of_variant hcase hnone) fun n _ hn _ => absurd hn (hnone n)

/-! ### A name that goes one way, and one that goes two -/

/-- Without a hosts map and an onion provider the spelling does not matter. -/
theorem way_of_case_iff_sample :
    (sampleQuestion [1, 97, 0] (by decide)).CaseVariant (sampleQuestion [1, 65, 0] (by decide)) ∧
    sampleResponder.way_of sampleEnv (sampleQuestion [1, 65, 0] (by decide)) =
      sampleResponder.way_of sampleEnv (sampleQuestion [1, 97, 0] (by decide)) := by
  have hcase : (sampleQuestion [1, 97, 0] (by decide)).CaseVariant
      (sampleQuestion [1, 65, 0] (by decide)) := ⟨rfl, by decide⟩
  refine ⟨hcase, (way_of_case_iff sampleEnv sampleResponder hcase).mpr ?_⟩
  intro n n' _ _
  exact ⟨rfl, fun _ => Or.inl rfl⟩

/-- A responder that sends the onion zone to a provider of its own. -/
def sampleOnion : responder :=
  { sampleResponder with onion_provider := some ⟨⟨.ipv4, [10, 0, 0, 1], 5353, rfl⟩, .udp, none⟩ }

/-- **A name in capitals leaves the onion zone**: `x.onion` goes to the onion provider, and
`X.ONION` to an ordinary one. -/
theorem way_of_onion_capitals :
    (sampleQuestion [1, 120, 5, 111, 110, 105, 111, 110, 0] (by decide)).CaseVariant
      (sampleQuestion [1, 88, 5, 79, 78, 73, 79, 78, 0] (by decide)) ∧
    sampleOnion.way_of sampleEnv
      (sampleQuestion [1, 120, 5, 111, 110, 105, 111, 110, 0] (by decide)) = .ok .onion ∧
    sampleOnion.way_of sampleEnv
      (sampleQuestion [1, 88, 5, 79, 78, 73, 79, 78, 0] (by decide)) = .ok .ordinary := by
  exact ⟨⟨rfl, by decide⟩, rfl, rfl⟩

end responder

end Cdns
