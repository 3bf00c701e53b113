/-
When a responder gets through with a request.

After `is_dns` the only way out of `process` that is no exception is one of four
routes: the question is refused, it is in the cache, it is in the hosts file, or it
is asked upstream. `route` says which one a question takes. `Handles` puts together
what has to be true of the request, of the state and of the system for the steps of
that route to return, and `process_returns_iff` says that it is exactly that.
-/
import Cdns.CacheSpec
import Cdns.Responder

set_option autoImplicit false

namespace Cdns

open Lib.Storage Lib.Keyed

/-! ## Names -/

namespace Query

/-- Dropping the final dot leaves a name, if there was one. -/
theorem drop_dot_eq_nil {owner : Str} (h : owner = [] ∨ 2 ≤ owner.length) :
    drop_dot owner = [] ↔ owner = [] := by
  unfold drop_dot
  split_ifs with hdot
  · refine iff_of_false ?_ hdot.1
    intro hnil
    have := congrArg List.length hnil
    rw [List.length_dropLast, List.length_nil] at this
    have hpos := List.length_pos_iff.mpr hdot.1
    rcases h with h | h
    · exact hdot.1 h
    · omega
  · rfl

theorem drop_dot_length (owner : Str) : (drop_dot owner).length ≤ owner.length := by
  unfold drop_dot
  split_ifs
  · rw [List.length_dropLast]
    omega
  · exact le_refl _

/-- A name that was read is short enough for the lists. -/
theorem drop_dot_length_le {q : Query} {owner : Str} {class_ type : ℕ}
    (hq : q.get_question = .ok (owner, class_, type)) : (drop_dot owner).length ≤ 1024 := by
  have hlen := (get_question_name hq).1
  have hdrop := drop_dot_length owner
  have e₁ : max_host_name_length = 256 := rfl
  omega

end Query

/-! ## Filters -/

/-- `filter::match` takes every name that is neither empty nor too long. -/
theorem Filter.match_returns (f : Filter) {hostname : Str} (hlen : hostname.length ≤ 1024) :
    (f.match_ hostname).returns ↔ hostname ≠ [] := by
  have e₁ : MAX_QNAME_LENGTH = 1024 := rfl
  -- dropping the final dot leaves no name only if there was none
  have hname : (if hostname.length > 1 ∧ hostname.getLast? = some '.' then hostname.dropLast
      else hostname) = [] ↔ hostname = [] := by
    split_ifs with h
    · constructor
      · intro hnil
        have := congrArg List.length hnil
        rw [List.length_dropLast, List.length_nil] at this
        omega
      · rintro rfl
        rfl
    · rfl
  unfold match_
  dsimp only
  rw [if_neg (by omega)]
  by_cases hnil : hostname = []
  · rw [if_pos (hname.mpr hnil)]
    exact iff_of_false (Result.not_returns_error _) (not_not_intro hnil)
  · rw [if_neg fun h => hnil (hname.mp h)]
    refine iff_of_true ?_ hnil
    split_ifs
    all_goals exact Result.returns_ok _

theorem responder.passes_returns (r : responder) {owner : Str} (hlen : owner.length ≤ 1024)
    (type : ℕ) : (r.passes owner type).returns ↔ owner ≠ [] := by
  have hblack := r.blacklist.match_returns hlen
  have hwhite := r.whitelist.match_returns hlen
  -- both lists take the same names, so it does not matter which is asked first
  have hrest : (r.blacklist.match_ owner >>= fun black =>
      (.ok (!black && !(r.noipv6 && type == rr_type.aaaa.code)) : Result Bool)).returns ↔
        owner ≠ [] :=
    (Result.returns_bind_iff fun black => Result.returns_ok _).trans hblack
  unfold passes
  by_cases hempty : r.whitelist.is_empty = true
  · rw [if_pos hempty, Result.ok_bind]
    dsimp only
    rw [if_neg (by simp)]
    exact hrest
  · rw [if_neg hempty, Result.returns_bind]
    constructor
    · rintro ⟨white, h, -⟩
      exact hwhite.mp ⟨white, h⟩
    · intro hne
      obtain ⟨white, h⟩ := hwhite.mpr hne
      refine ⟨white, h, ?_⟩
      dsimp only
      split_ifs
      · exact Result.returns_ok _
      · exact hrest.mpr hne

/-- The lists can be asked for every name but that of the root. -/
theorem responder.passes_question_returns (r : responder) {q : Query} {owner : Str}
    {class_ type : ℕ} (hq : q.get_question = .ok (owner, class_, type)) :
    (r.passes (Query.drop_dot owner) type).returns ↔ owner ≠ [] := by
  rw [r.passes_returns (Query.drop_dot_length_le hq)]
  exact not_congr (Query.drop_dot_eq_nil (Query.get_question_name hq).2)

theorem log_class_returns (env : Env) (class_ : ℕ) :
    (log_class env class_).returns ↔ env.severity < severity_info ∨ known_class class_ := by
  unfold log_class
  split_ifs with h
  · rw [Result.returns_bind_iff fun _ => Result.returns_ok _, rr_class_cstr_returns]
    constructor
    · exact Or.inr
    · intro h'
      exact h'.resolve_left (by omega)
  · exact iff_of_true (Result.returns_ok _) (Or.inl (by omega))

/-! ## The cache -/

namespace Cache

/-- The entry a lookup finds before its time is over. -/
def live (c : Cache) (tnow : ℤ) (qname : Str) (qtype : ℕ) : Option cache_entry :=
  (c.find qname qtype).filter fun e => e.response.length ≤ max_size && tnow < e.deadline

/-- An entry that can be served: its records parse. -/
def Servable (e : cache_entry) : Prop :=
  ∀ h : e.response.length ≤ max_size, (Query.of_bytes e.response h).records.returns

/-- A lookup that misses. -/
theorem retrieve_miss {c : Cache} {tnow : ℤ} {q : Query} {owner : Str} {class_ type : ℕ}
    (hq : q.get_question = .ok (owner, class_, type)) (h : c.live tnow owner type = none) :
    c.retrieve tnow q = .ok (false, q) := by
  rw [retrieve, hq, Result.ok_bind]
  dsimp only
  unfold live at h
  cases hf : c.find owner type with
  | none => rfl
  | some e =>
      rw [hf, Option.filter_some] at h
      dsimp only
      rw [dif_neg]
      rintro ⟨h₁, h₂⟩
      rw [if_pos (by simp [h₁, h₂])] at h
      exact absurd h (by simp)

/-- A lookup that hits. -/
theorem retrieve_hit {c : Cache} {tnow : ℤ} {q : Query} {owner : Str} {class_ type : ℕ}
    {e : cache_entry} (hq : q.get_question = .ok (owner, class_, type))
    (h : c.live tnow owner type = some e) :
    ∃ hlen : e.response.length ≤ max_size, c.retrieve tnow q =
      ((Query.of_bytes e.response hlen).adjust_id_and_ttl q.header.id
        (Query.int32 (Query.uint32 (e.deadline - tnow))) >>= fun q' => .ok (true, q')) := by
  unfold live at h
  obtain ⟨hf, hlive⟩ := Option.filter_eq_some_iff.mp h
  rw [Bool.and_eq_true, decide_eq_true_eq, decide_eq_true_eq] at hlive
  refine ⟨hlive.1, ?_⟩
  rw [retrieve, hq, Result.ok_bind]
  dsimp only
  rw [hf]
  dsimp only
  rw [dif_pos hlive]

theorem retrieve_hit_returns {c : Cache} {tnow : ℤ} {q : Query} {owner : Str} {class_ type : ℕ}
    {e : cache_entry} (hq : q.get_question = .ok (owner, class_, type))
    (h : c.live tnow owner type = some e) :
    (c.retrieve tnow q).returns ↔ Servable e := by
  obtain ⟨hlen, heq⟩ := retrieve_hit hq h
  rw [heq, Query.adjust_id_and_ttl_eq, Result.returns_bind_iff fun _ => Result.returns_ok _,
    Result.returns_bind_iff fun _ => Result.returns_ok _]
  exact ⟨fun h _ => h, fun h => h hlen⟩

/-- The lifetime of a message that may be stored. -/
theorem answer_min_ttl_returns_iff {msg : Query} {owner : Str} {type : ℕ}
    (hst : storable msg = true)
    (hq : msg.get_question = .ok (owner, rr_class.internet.code, type)) :
    msg.answer_min_ttl.returns ↔ msg.header.qr = false ∨ msg.records.returns := by
  obtain ⟨htc, hrcode⟩ := (storable_iff msg).mp hst
  obtain ⟨-, r, off, -, -, hclass, -, -, hskip⟩ := Query.get_question_walk hq
  constructor
  · intro h
    by_cases hqr : msg.header.qr = false
    · exact Or.inl hqr
    right
    unfold Query.answer_min_ttl at h
    dsimp only at h
    rw [htc, if_neg (by simp), if_neg (by tauto), if_neg hqr] at h
    rw [Query.records, hskip, Result.ok_bind]
    dsimp only
    -- without records nothing is walked over
    by_cases hcount : Query.rr_count msg.header = 0
    · rw [hcount]
      exact Result.returns_ok _
    · rw [if_neg hcount, hskip, Result.ok_bind] at h
      dsimp only at h
      rw [if_neg (by simp [hclass])] at h
      obtain ⟨⟨e, m⟩, hwalk, -⟩ := Result.returns_bind.mp h
      obtain ⟨rs, hrs⟩ := (Query.for_each_returns_pure _ (fun s r => Result.returns_ok _) _ _ _ _).mp
        ⟨m, hwalk⟩
      exact ⟨rs, Query.get_rrs_eq_ok.mpr ⟨e, hrs⟩⟩
  · rintro (hqr | hrec)
    · unfold Query.answer_min_ttl
      dsimp only
      rw [htc, if_neg (by simp), if_neg (by tauto), if_pos hqr]
      exact Result.returns_ok _
    · exact answer_min_ttl_returns hrec

/-- **When a message can be stored.** A response of class IN needs records that
parse; every other message is taken as it is. -/
theorem store_returns (c : Cache) (tnow : ℤ) (msg : Query) :
    (c.store tnow msg).returns ↔ (storable msg = true → ∃ owner class_ type,
      msg.get_question = .ok (owner, class_, type) ∧
        (class_ = rr_class.internet.code → msg.header.qr = false ∨ msg.records.returns)) := by
  unfold store
  -- a message that is not storable is not looked at any further
  by_cases hst : storable msg = true
  · rw [if_pos hst, Result.returns_bind]
    constructor
    · rintro ⟨⟨owner, class_, type⟩, hq, h⟩ -
      refine ⟨owner, class_, type, hq, fun hclass => ?_⟩
      dsimp only at h
      rw [if_pos hclass] at h
      obtain ⟨v, hv, -⟩ := Result.returns_bind.mp h
      rw [hclass] at hq
      exact (answer_min_ttl_returns_iff hst hq).mp ⟨v, hv⟩
    · intro h
      obtain ⟨owner, class_, type, hq, h⟩ := h hst
      refine ⟨(owner, class_, type), hq, ?_⟩
      dsimp only
      split_ifs with hclass
      · rw [hclass] at hq
        rw [Result.returns_bind_iff fun _ => Result.returns_ok _]
        exact (answer_min_ttl_returns_iff hst hq).mpr (h hclass)
      · exact Result.returns_ok _
  · rw [if_neg hst]
    exact iff_of_true (Result.returns_ok _) fun h => absurd h hst

/-- The number of entries after a message was stored. -/
def count_after (c : Cache) (msg : Query) (owner : Str) (class_ type : ℕ) : ℕ :=
  c.entries.elems.length +
    if storable msg = true ∧ class_ = rr_class.internet.code ∧ c.find owner type = none then 1 else 0

theorem store_length {c c' : Cache} {tnow : ℤ} {msg : Query} {owner : Str} {class_ type : ℕ}
    (hq : msg.get_question = .ok (owner, class_, type)) (h : c.store tnow msg = .ok c') :
    c'.entries.elems.length = c.count_after msg owner class_ type := by
  unfold count_after
  unfold store at h
  by_cases hst : storable msg = true
  · rw [if_pos hst, hq, Result.ok_bind] at h
    dsimp only at h
    by_cases hclass : class_ = rr_class.internet.code
    · rw [if_pos hclass] at h
      obtain ⟨v, -, h⟩ := Result.bind_eq_ok.mp h
      -- the key is in lower case, which the lookup makes of every name anyway
      have hfind : c.find (ascii_tolower owner) type = c.find owner type := by
        unfold find
        rw [ascii_tolower_idem]
      rw [← Except.ok.inj h, replace_entry, hfind]
      cases hf : c.find owner type with
      | none =>
          rw [if_pos ⟨hst, hclass, rfl⟩]
          exact KeyedSet.length_insert _ hf
      | some e =>
          rw [if_neg (by simp)]
          exact KeyedSet.length_modify _ _ _ (update_key _ _)
    · rw [if_neg hclass] at h
      rw [← Except.ok.inj h, if_neg (by tauto)]
      rfl
  · rw [if_neg hst] at h
    rw [← Except.ok.inj h, if_neg (by tauto)]
    rfl

end Cache

/-! ## Replies -/

/-- A reply gets out: over TCP the system must not take a part of it. -/
def Sends (env : Env) (p : proto) : Prop := p = .udp ∨ env.reply ≠ .part

theorem respond_returns (env : Env) (p : proto) (m : Message) (q : Query) :
    (incoming.respond env ⟨p, m⟩ q).returns ↔ Sends env p := by
  have hsize : (packet.of_bytes q.wire).size = q.size := Query.wire_length q
  have hle := q.size_le
  have e₁ : max_size = 55535 := rfl
  -- the frame is two bytes longer than the message, so a part of it is never nothing
  have hframe : (tcp_frame (packet.of_bytes q.wire)).wire.length = q.size + 2 := by
    rw [tcp_frame_wire (by omega), List.length_append, bytes16_length, packet.wire_length, hsize]
    omega
  have hfsize : (tcp_frame (packet.of_bytes q.wire)).size = q.size + 2 := by
    rw [← packet.wire_length, hframe]
  unfold incoming.respond Sends
  cases p with
  | udp => exact iff_of_true (Result.returns_ok _) (Or.inl rfl)
  | tcp =>
      dsimp only
      rw [tcp_send]
      cases hr : env.reply with
      | failed => exact iff_of_true (Result.returns_ok _) (Or.inr (by simp))
      | closed => exact iff_of_true (Result.returns_ok _) (Or.inr (by simp))
      | part =>
          rw [send_answer.count, hframe, hfsize]
          dsimp only
          rw [if_neg (by omega), if_pos (by omega)]
          exact iff_of_false (Result.not_returns_error _) (by simp)
      | whole =>
          rw [send_answer.count, hframe, hfsize]
          dsimp only
          rw [if_neg (by omega), if_neg (by simp)]
          exact iff_of_true (Result.returns_ok _) (Or.inr (by simp))

namespace responder

theorem finish_returns (env : Env) (r : responder) (p : proto) (m : Message) :
    (r.finish env ⟨p, m⟩).returns ↔ (r.encrypt env m).returns ∧ Sends env p := by
  rw [finish, Result.returns_bind_iff fun _ => Result.returns_ok _, respond, Result.returns_bind]
  constructor
  · rintro ⟨msg, henc, h⟩
    rw [Result.returns_bind_iff fun _ => Result.returns_ok _, respond_returns] at h
    exact ⟨⟨msg, henc⟩, h⟩
  · rintro ⟨⟨msg, henc⟩, h⟩
    refine ⟨msg, henc, ?_⟩
    rw [Result.returns_bind_iff fun _ => Result.returns_ok _, respond_returns]
    exact h

/-- A plain message is not encrypted. -/
theorem encrypt_of_query (env : Env) (r : responder) (q : Query) :
    r.encrypt env (.of_query q) = .ok q := by
  unfold encrypt Message.of_query
  split
  · next h => exact absurd h (by simp)
  · rfl

/-! ## Routes -/

/-- The ways a question can go. -/
inductive route where
  /-- refused by a list or by `noipv6` -/
  | refused
  /-- found in the cache -/
  | cached (e : cache_entry)
  /-- found in the hosts file -/
  | hosts (ip : Str)
  | upstream

/-- The way of a question. -/
def route_of (env : Env) (r : responder) (owner : Str) (type : ℕ) : route :=
  if r.passes (Query.drop_dot owner) type = .ok true then
    match r.cache.live env.tnow owner type with
    | some e => .cached e
    | none =>
        if r.hosts_response (Query.drop_dot owner) = [] then .upstream
        else .hosts (r.hosts_response (Query.drop_dot owner))
  else .refused

/-- What is done on a way. -/
def follow (env : Env) (r : responder) (req : incoming) : route → Result (responder × outcome)
  | .refused =>
      finish env { r with blacklisted_count := r.blacklisted_count + 1 }
        { req with message := .of_query req.message.query.mark_refused }
  | .cached _ => do
      let (_, m) ← r.cache.retrieve env.tnow req.message.query
      finish env { r with cached_count := r.cached_count + 1 } { req with message := .of_query m }
  | .hosts ip => do
      let m ← req.message.query.set_answer env.net ip
      let r ← r.store env m
      r.finish env { req with message := .of_query m }
  | .upstream => r.ask env req

section Process

variable {env : Env} {r : responder} {req : incoming} {owner : Str} {class_ type : ℕ}

/-- **`process` follows the way of the question**, when the lists take its name and
the log takes its class. -/
theorem process_dns_eq (hdns : req.message.query.is_dns = true)
    (hq : req.message.query.get_question = .ok (owner, class_, type)) {pass : Bool}
    (hpass : r.passes (Query.drop_dot owner) type = .ok pass)
    (hlog : log_class env class_ = .ok ()) :
    r.process_dns env req =
      follow env { r with processed_count := r.processed_count + 1 } req
        (r.route_of env owner type) := by
  have hpass' : passes { r with processed_count := r.processed_count + 1 }
      (Query.drop_dot owner) type = .ok pass := hpass
  rw [process_dns, if_neg (by simp [hdns])]
  dsimp only
  rw [pre_filter, hq, Result.ok_bind]
  dsimp only
  rw [hpass', Result.ok_bind, hlog, Result.ok_bind]
  -- the branches of `pre_filter`, each against the way of the question
  cases pass with
  | false =>
      have hroute : r.route_of env owner type = .refused := by
        rw [route_of, hpass, if_neg (by simp)]
      rw [hroute]
      rfl
  | true =>
      have hroute : r.route_of env owner type = match r.cache.live env.tnow owner type with
          | some e => .cached e
          | none =>
              if r.hosts_response (Query.drop_dot owner) = [] then .upstream
              else .hosts (r.hosts_response (Query.drop_dot owner)) := by
        rw [route_of, hpass, if_pos rfl]
      rw [hroute, if_pos rfl, pre_filter_passed]
      cases hlive : r.cache.live env.tnow owner type with
      | some e =>
          obtain ⟨hlen, hret⟩ := Cache.retrieve_hit hq hlive
          dsimp only [follow]
          rw [hret]
          cases (Query.of_bytes e.response hlen).adjust_id_and_ttl req.message.query.header.id
            (Query.int32 (Query.uint32 (e.deadline - env.tnow))) with
          | error x => rfl
          | ok m => rfl
      | none =>
          rw [Cache.retrieve_miss hq hlive, Result.ok_bind]
          dsimp only
          by_cases hip : r.hosts_response (Query.drop_dot owner) = []
          · have hip' : hosts_response { r with processed_count := r.processed_count + 1 }
                (Query.drop_dot owner) = [] := hip
            rw [if_pos hip, if_neg (by simp), if_neg (not_not_intro hip')]
            rfl
          · have hip' : hosts_response { r with processed_count := r.processed_count + 1 }
                (Query.drop_dot owner) ≠ [] := hip
            rw [if_neg hip, if_neg (by simp), if_pos hip']
            dsimp only [follow]
            show (req.message.query.set_answer env.net (r.hosts_response (Query.drop_dot owner)) >>=
              _) >>= _ = _
            cases req.message.query.set_answer env.net
              (r.hosts_response (Query.drop_dot owner)) with
            | error x => rfl
            | ok m => rfl

/-- When `process` returns, the question was parsed, asked for in the lists and
logged. -/
theorem process_dns_walk (hdns : req.message.query.is_dns = true)
    (h : (r.process_dns env req).returns) :
    ∃ owner class_ type pass, req.message.query.get_question = .ok (owner, class_, type) ∧
      r.passes (Query.drop_dot owner) type = .ok pass ∧ log_class env class_ = .ok () := by
  rw [process_dns, if_neg (by simp [hdns])] at h
  dsimp only at h
  obtain ⟨res, hres, -⟩ := Result.returns_bind.mp h
  rw [pre_filter, Result.bind_eq_ok] at hres
  obtain ⟨⟨owner, class_, type⟩, hq, hres⟩ := hres
  dsimp only at hres
  obtain ⟨pass, hpass, hres⟩ := Result.bind_eq_ok.mp hres
  obtain ⟨u, hlog, -⟩ := Result.bind_eq_ok.mp hres
  exact ⟨owner, class_, type, pass, hq, hpass, hlog⟩

end Process

/-! ## Providers -/

/-- The index that is drawn is in the list. -/
theorem random_index_lt (env : Env) {size : ℕ} (h : 0 < size) : random_index env size < size := by
  have hpos : 0 < max 1 (min (size % 2 ^ 32) RAND_MAX) := lt_of_lt_of_le zero_lt_one (le_max_left _ _)
  have hle : max 1 (min (size % 2 ^ 32) RAND_MAX) ≤ size := by
    apply max_le h
    exact le_trans (min_le_left _ _) (Nat.mod_le _ _)
  exact lt_of_lt_of_le (Nat.mod_lt _ hpos) hle

/-- Choosing a provider fails only on a question that does not parse. -/
theorem random_provider_returns (env : Env) (r : responder) {q : Query} {p : Str × ℕ × ℕ}
    (hq : q.get_question = .ok p) : ∃ prov, r.random_provider env q = .ok prov := by
  -- the zones need the name, the rest does not look at the question
  have hzone : ∃ z, r.zone_provider q = .ok z := by
    unfold zone_provider
    split
    · exact ⟨none, rfl⟩
    · rw [Query.hostname, hq]
      exact ⟨_, rfl⟩
  have hdns : ∃ prov, r.random_dns_provider env = .ok prov := by
    unfold random_dns_provider
    by_cases hnil : r.dns_providers = []
    · rw [if_pos hnil]
      exact ⟨none, rfl⟩
    · have hlt := random_index_lt env (List.length_pos_iff.mpr hnil)
      rw [if_neg hnil, List.getElem?_eq_getElem hlt]
      exact ⟨_, rfl⟩
  obtain ⟨z, hz⟩ := hzone
  rw [random_provider, hz, Result.ok_bind]
  cases z with
  | some p => exact ⟨some p, rfl⟩
  | none =>
      dsimp only
      split
      · split_ifs
        · exact hdns
        · exact ⟨_, rfl⟩
      · exact hdns

/-! ## What each way needs -/

/-- The hosts answer to the question can be made, stored and saved. -/
structure HostsReturns (env : Env) (cache : Cache) (cache_dir : Str) (q : Query) (owner : Str)
    (class_ type : ℕ) (ip : Str) : Prop where
  /-- the text in the hosts file is an address -/
  addressed : (address.of_text env.net ip 0).returns
  /-- there is room for the answer -/
  room : q.size + 16 ≤ max_size
  /-- the answers that the query counts can be skipped -/
  skipped : q.answers.returns
  /-- the query counts no other records, or is not stored -/
  alone : Cache.storable q = true → class_ = rr_class.internet.code →
    q.header.nscount + q.header.arcount = 0
  /-- the file is not written now, or can be -/
  saved : cache_dir = [] ∨ env.saved = true ∨ cache.count_after q owner class_ type % 16 ≠ 0

/-- A request to a provider can be made, or its failure be sent. -/
def AskReturns (env : Env) (r : responder) (p : proto) (q : Query) : Prop :=
  match r.random_provider env q with
  | .ok (some _) =>
      match env.created with
      | none => True
      | some (.net_error _) => Sends env p
      | some _ => False
  | .ok none => Sends env p
  | .error _ => False

/-- What a way needs. -/
def RouteReturns (env : Env) (r : responder) (p : proto) (q : Query) (owner : Str)
    (class_ type : ℕ) : route → Prop
  | .refused => Sends env p
  | .cached e => Cache.Servable e ∧ Sends env p
  | .hosts ip => HostsReturns env r.cache r.cache_dir q owner class_ type ip ∧ Sends env p
  | .upstream => r.AskReturns env p q

/-- What a message needs that `responder::process` is given. -/
def HandlesDns (env : Env) (r : responder) (p : proto) (q : Query) : Prop :=
  q.is_dns = true → ∃ owner class_ type, q.get_question = .ok (owner, class_, type) ∧ owner ≠ [] ∧
    (env.severity < severity_info ∨ known_class class_) ∧
    r.RouteReturns env p q owner class_ type (r.route_of env owner type)

section Returns

variable {env : Env} {r : responder} {p : proto} {q : Query} {owner : Str} {class_ type : ℕ}

theorem set_answer_returns {net : Inet} {ip : Str} (hdns : q.header.qdcount = 1) :
    (q.set_answer net ip).returns ↔
      (address.of_text net ip 0).returns ∧ q.size + 16 ≤ max_size ∧ q.answers.returns := by
  rw [Query.set_answer, Result.returns_bind]
  constructor
  · rintro ⟨a, ha, h⟩
    rw [Query.add_address_answer, Query.add_answer_returns, address.sin_addr_length] at h
    exact ⟨⟨a, ha⟩, h.1, h.2.2⟩
  · rintro ⟨⟨a, ha⟩, hroom, hans⟩
    refine ⟨a, ha, ?_⟩
    rw [Query.add_address_answer, Query.add_answer_returns, address.sin_addr_length]
    exact ⟨hroom, hdns, hans⟩

/-- Storing a message fails in the cache or on the file. -/
theorem store_returns_iff {m : Query} {n : ℕ}
    (hn : ∀ c, r.cache.store env.tnow m = .ok c → c.entries.elems.length = n) :
    (r.store env m).returns ↔ (r.cache.store env.tnow m).returns ∧
      (r.cache_dir = [] ∨ env.saved = true ∨ n % 16 ≠ 0) := by
  rw [store, Result.returns_bind]
  constructor
  · rintro ⟨c, hc, h⟩
    refine ⟨⟨c, hc⟩, ?_⟩
    by_contra hcon
    rw [not_or, not_or] at hcon
    rw [hn c hc, if_pos ⟨hcon.1, not_not.mp hcon.2.2, by simpa using hcon.2.1⟩] at h
    exact Result.not_returns_error _ h
  · rintro ⟨⟨c, hc⟩, h⟩
    refine ⟨c, hc, ?_⟩
    rw [hn c hc, if_neg]
    · exact Result.returns_ok _
    · rintro ⟨h₁, h₂, h₃⟩
      rcases h with h | h | h
      · exact h₁ h
      · rw [h] at h₃
        exact absurd h₃ (by simp)
      · exact h h₂

/-- What `set_answer` returned can be stored. -/
theorem store_set_answer_returns {net : Inet} {ip : Str} {m : Query}
    (hq : q.get_question = .ok (owner, class_, type)) (h : q.set_answer net ip = .ok m) :
    (r.store env m).returns ↔ (Cache.storable q = true → class_ = rr_class.internet.code →
        q.header.nscount + q.header.arcount = 0) ∧
      (r.cache_dir = [] ∨ env.saved = true ∨ r.cache.count_after q owner class_ type % 16 ≠ 0) := by
  rw [Query.set_answer, Result.bind_eq_ok] at h
  obtain ⟨a, -, h⟩ := h
  rw [Query.add_address_answer] at h
  have hdata := a.sin_addr_length_lt
  have hhead := Query.add_answer_header h
  have hrec := Query.records_add_answer_iff hdata h
  have hqm := Query.get_question_add_answer h hq
  have hqr : m.header.qr = true := by rw [hhead]; rfl
  -- the answer changes no bit that `storable` looks at
  have hst : Cache.storable m = Cache.storable q := by
    apply Bool.eq_iff_iff.mpr
    rw [Cache.storable_iff, Cache.storable_iff, Query.rcode, Query.rcode, hhead]
    rfl
  have hcount : r.cache.count_after m owner class_ type = r.cache.count_after q owner class_ type := by
    unfold Cache.count_after
    rw [hst]
  have hstore : (r.cache.store env.tnow m).returns ↔ (Cache.storable q = true →
      class_ = rr_class.internet.code → q.header.nscount + q.header.arcount = 0) := by
    rw [Cache.store_returns, hst, hqr, hrec]
    constructor
    · intro h₁ h₂ h₃
      obtain ⟨o, c, t, hqm', h₄⟩ := h₁ h₂
      obtain ⟨-, rfl, -⟩ := Query.get_question_unique hqm hqm'
      exact (h₄ h₃).resolve_left (by simp)
    · intro h₁ h₂
      exact ⟨owner, class_, type, hqm, fun h₃ => Or.inr (h₁ h₂ h₃)⟩
  rw [← hstore]
  exact store_returns_iff fun c hc => (Cache.store_length hqm hc).trans hcount

theorem ask_returns {m : Message} (hq : m.query.get_question = .ok (owner, class_, type))
    (henc : (r.encrypt env m.mark_servfail).returns) :
    (r.ask env ⟨p, m⟩).returns ↔ r.AskReturns env p m.query := by
  have hfail : (r.finish env ⟨p, m.mark_servfail⟩).returns ↔ Sends env p := by
    rw [finish_returns]
    exact and_iff_right henc
  obtain ⟨prov, hprov⟩ := r.random_provider_returns env hq
  unfold ask AskReturns
  dsimp only
  rw [hprov, Result.ok_bind]
  cases prov with
  | none => exact hfail
  | some pr =>
      cases env.created with
      | none => exact iff_of_true (Result.returns_ok _) trivial
      | some e =>
          cases e with
          | net_error what => exact hfail
          | _ => exact iff_of_false (Result.not_returns_error _) fun h => h

/-- The way into the cache. -/
theorem live_of_route {e : cache_entry} (h : r.route_of env owner type = .cached e) :
    r.cache.live env.tnow owner type = some e := by
  unfold route_of at h
  by_cases hpass : r.passes (Query.drop_dot owner) type = .ok true
  · rw [if_pos hpass] at h
    cases hlive : r.cache.live env.tnow owner type with
    | some e' =>
        rw [hlive] at h
        rw [route.cached.inj h]
    | none =>
        rw [hlive] at h
        dsimp only at h
        split_ifs at h
  · rw [if_neg hpass] at h
    exact absurd h (by simp)

/-- What `follow` needs. -/
theorem follow_returns {m : Message} (hq : m.query.get_question = .ok (owner, class_, type))
    (henc : (r.encrypt env m.mark_servfail).returns) :
    (r.follow env ⟨p, m⟩ (r.route_of env owner type)).returns ↔
      r.RouteReturns env p m.query owner class_ type (r.route_of env owner type) := by
  -- a direct answer is never encrypted, so it only has to be sent
  have hplain : ∀ (r' : responder) (f : Query), (r'.finish env ⟨p, .of_query f⟩).returns ↔
      Sends env p := by
    intro r' f
    rw [finish_returns, encrypt_of_query]
    exact and_iff_right (Result.returns_ok _)
  cases hroute : r.route_of env owner type with
  | refused => exact hplain _ _
  | cached e =>
      have hhit := Cache.retrieve_hit_returns hq (live_of_route hroute)
      rw [follow, Result.returns_bind]
      constructor
      · rintro ⟨⟨b, f⟩, hf, hfin⟩
        exact ⟨hhit.mp ⟨(b, f), hf⟩, (hplain _ f).mp hfin⟩
      · rintro ⟨hs, hsend⟩
        obtain ⟨⟨b, f⟩, hf⟩ := hhit.mpr hs
        exact ⟨(b, f), hf, (hplain _ f).mpr hsend⟩
  | hosts ip =>
      have hset := @set_answer_returns m.query env.net ip (Query.get_question_walk hq).1
      rw [follow, Result.returns_bind]
      constructor
      · rintro ⟨f, hf, h⟩
        obtain ⟨r', hstore, hfin⟩ := Result.returns_bind.mp h
        obtain ⟨h₁, h₂, h₃⟩ := hset.mp ⟨f, hf⟩
        obtain ⟨h₄, h₅⟩ := (store_set_answer_returns hq hf).mp ⟨r', hstore⟩
        exact ⟨⟨h₁, h₂, h₃, h₄, h₅⟩, (hplain r' f).mp hfin⟩
      · rintro ⟨⟨h₁, h₂, h₃, h₄, h₅⟩, hsend⟩
        obtain ⟨f, hf⟩ := hset.mpr ⟨h₁, h₂, h₃⟩
        obtain ⟨r', hstore⟩ := (@store_set_answer_returns env r _ _ _ _ _ _ _ hq hf).mpr ⟨h₄, h₅⟩
        exact ⟨f, hf, Result.returns_bind.mpr ⟨r', hstore, (hplain r' f).mpr hsend⟩⟩
  | upstream => exact ask_returns hq henc

/-- **`responder::process`** returns exactly on the messages it can handle. -/
theorem process_dns_returns {m : Message} (henc : (r.encrypt env m.mark_servfail).returns) :
    (r.process_dns env ⟨p, m⟩).returns ↔ r.HandlesDns env p m.query := by
  unfold HandlesDns
  by_cases hdns : m.query.is_dns = true
  swap
  · rw [process_dns, if_pos (by simpa using hdns)]
    exact iff_of_true (Result.returns_ok _) fun h => absurd h hdns
  constructor
  · intro h _
    obtain ⟨owner, class_, type, pass, hq, hpass, hlog⟩ := @process_dns_walk env r ⟨p, m⟩ hdns h
    have hne := (r.passes_question_returns hq).mp ⟨pass, hpass⟩
    refine ⟨owner, class_, type, hq, hne, (log_class_returns env class_).mp ⟨(), hlog⟩, ?_⟩
    rw [@process_dns_eq env r ⟨p, m⟩ owner class_ type hdns hq pass hpass hlog] at h
    exact (@follow_returns env { r with processed_count := r.processed_count + 1 } p owner class_
      type m hq henc).mp h
  · intro h
    obtain ⟨owner, class_, type, hq, hne, hknown, hroute⟩ := h hdns
    obtain ⟨pass, hpass⟩ := (r.passes_question_returns hq).mpr hne
    obtain ⟨u, hlog⟩ := (log_class_returns env class_).mpr hknown
    rw [@process_dns_eq env r ⟨p, m⟩ owner class_ type hdns hq pass hpass hlog]
    exact (@follow_returns env { r with processed_count := r.processed_count + 1 } p owner class_
      type m hq henc).mpr hroute

end Returns

/-! ## The server -/

/-- A decrypted query is shorter than what was received. -/
theorem uncurve_size {S : Sodium} {keys : server_encryptor_data} {q q' : Query} {key : pubkey}
    {n : nonce} (h : keys.uncurve S q = .ok (q', key, n)) : q'.size + 68 < q.size := by
  have e₁ : detail.query_head_size = 68 := rfl
  unfold server_encryptor_data.uncurve at h
  dsimp only at h
  split_ifs at h with hsize
  split at h
  · exact absurd h (by simp)
  split at h
  · exact absurd h (by simp)
  obtain ⟨b, -, h⟩ := Result.bind_eq_ok.mp h
  obtain ⟨e, hend, h⟩ := Result.bind_eq_ok.mp h
  split_ifs at h with h₁
  obtain ⟨q₁, hset, h⟩ := Result.bind_eq_ok.mp h
  obtain rfl : q₁ = q' := (Prod.mk.inj (Except.ok.inj h)).1
  rw [(eq_of_set_size hset).2]
  have := detail.find_end_lt (by omega) hend
  omega

/-- A message that leaves room for a header is encrypted. -/
theorem encrypt_returns {env : Env} (hS : env.S.Lawful) (hseals : ∀ c, (env.S.box c).Seals)
    (r : responder) {m : Message} (hm : m.query.size ≤ 55487) : (r.encrypt env m).returns := by
  unfold encrypt
  split
  · obtain ⟨p, r', h, -⟩ := server_curve_spec hS (hseals _) _ _ _ hm
    exact ⟨r', h⟩
  · exact Result.returns_ok _

/-- The certificate can be sent in answer to a query. -/
def CertifyReturns (env : Env) (s : server_responder) (p : proto) (q : Query) : Prop :=
  s.certificate.raw_signed.length ≤ 255 ∧
    q.size + (s.certificate.raw_signed.length + 13) ≤ max_size ∧ q.answers.returns ∧ Sends env p

/-- **What a packet needs** that `process` is given. -/
def Handles (env : Env) (r : responder) (p : proto) (q : Query) : Prop :=
  match r.crypt.bind crypt_part.server with
  | none => r.HandlesDns env p q
  | some s =>
      if s.certificate.is_dnscrypt_message q = true then
        ∃ q' key n, s.decryptor.uncurve env.S q = .ok (q', key, n) ∧ r.HandlesDns env p q'
      else
        q.is_dns = true → ∃ b, q.is_dnscrypt_certificate_request s.hostname = .ok b ∧
          if b = true then CertifyReturns env s p q else r.HandlesDns env p q

theorem certify_returns {env : Env} {r : responder} {s : server_responder} {p : proto} {q : Query}
    (hq : q.is_dnscrypt_certificate_request s.hostname = .ok true) :
    (r.certify env s ⟨p, .of_query q⟩).returns ↔ CertifyReturns env s p q := by
  -- the request was recognised by its one question
  have hone : q.header.qdcount = 1 ∧ ∃ t, q.get_question = .ok t := by
    unfold Query.is_dnscrypt_certificate_request at hq
    by_cases hname : s.hostname = []
    · rw [if_pos hname] at hq
      exact absurd hq (by simp)
    by_cases hqd : q.header.qdcount ≠ 1
    · rw [if_neg hname, if_pos hqd] at hq
      exact absurd hq (by simp)
    rw [if_neg hname, if_neg hqd] at hq
    obtain ⟨⟨rr, off⟩, hrr, -⟩ := Result.bind_eq_ok.mp hq
    refine ⟨not_not.mp hqd, (rr.owner, rr.class_, rr.type), ?_⟩
    rw [Query.get_question, if_neg hqd, hrr]
    rfl
  obtain ⟨hqd, t, ht⟩ := hone
  have hget : (Message.of_query q).query.get_question = .ok t := ht
  unfold certify CertifyReturns
  dsimp only
  rw [hget, Result.ok_bind, Query.set_txt_answer]
  by_cases hlen : s.certificate.raw_signed.length > 255
  · rw [if_pos hlen, Result.error_bind]
    exact iff_of_false (Result.not_returns_error _) fun h => absurd h.1 (by omega)
  rw [if_neg hlen, Result.returns_bind]
  -- the text is one byte longer than the certificate
  have hadd : ∀ d ty ttl, ((Message.of_query q).query.add_answer d ty ttl).returns ↔
      q.size + (12 + d.length) ≤ max_size ∧ q.header.qdcount = 1 ∧ q.answers.returns :=
    fun d ty ttl => Query.add_answer_returns
  constructor
  · rintro ⟨c, hc, h⟩
    rw [Result.returns_bind_iff fun _ => Result.returns_ok _, respond_returns] at h
    obtain ⟨h₁, -, h₂⟩ := (hadd _ _ _).mp ⟨c, hc⟩
    rw [List.length_cons] at h₁
    exact ⟨by omega, by omega, h₂, h⟩
  · rintro ⟨-, h₁, h₂, h⟩
    obtain ⟨c, hc⟩ := (hadd (UInt8.ofNat s.certificate.raw_signed.length ::
      s.certificate.raw_signed) rr_type.txt.code 10).mpr
        ⟨by rw [List.length_cons]; omega, hqd, h₂⟩
    refine ⟨c, hc, ?_⟩
    rw [Result.returns_bind_iff fun _ => Result.returns_ok _, respond_returns]
    exact h

end responder

/-- **A packet and the daemon.** For every packet of at most `max_size` bytes and
every state, `process` drops it, responds or creates a request, that is it returns,
exactly when `Handles` holds: the packet decrypts if it is marked as encrypted, its
question parses and has a name and a class that can be logged, and the way the
question takes goes through. -/
theorem process_returns_iff {env : Env} (hS : env.S.Lawful) (hseals : ∀ c, (env.S.box c).Seals)
    (r : responder) (p : proto) (q : Query) :
    (r.process env ⟨p, .of_query q⟩).returns ↔ r.Handles env p q := by
  have hplain : (r.process_dns env ⟨p, .of_query q⟩).returns ↔ r.HandlesDns env p q := by
    apply responder.process_dns_returns
    have hcls : (Message.of_query q).mark_servfail = .of_query q.mark_servfail := rfl
    rw [hcls, responder.encrypt_of_query]
    exact Result.returns_ok _
  unfold responder.process responder.Handles
  cases r.crypt.bind crypt_part.server with
  | none => exact hplain
  | some s =>
      dsimp only
      have hq : (Message.of_query q).query = q := rfl
      rw [hq]
      by_cases hcrypt : s.certificate.is_dnscrypt_message q = true
      · rw [if_pos hcrypt, if_pos hcrypt, Result.returns_bind]
        -- decryption makes room for the header of the reply
        have hdec : ∀ {q' key n}, s.decryptor.uncurve env.S q = .ok (q', key, n) →
            ((r.process_dns env ⟨p, ⟨.emessage key n, q'⟩⟩).returns ↔ r.HandlesDns env p q') := by
          intro q' key n h
          apply responder.process_dns_returns
          have hsize := responder.uncurve_size h
          have hle := q.size_le
          have e₁ : max_size = 55535 := rfl
          apply responder.encrypt_returns hS hseals
          show q'.size ≤ 55487
          omega
        constructor
        · rintro ⟨⟨q', key, n⟩, hun, h⟩
          exact ⟨q', key, n, hun, (hdec hun).mp h⟩
        · rintro ⟨q', key, n, hun, h⟩
          exact ⟨(q', key, n), hun, (hdec hun).mpr h⟩
      · rw [if_neg hcrypt, if_neg hcrypt]
        -- what is not DNS is dropped with or without a server
        by_cases hdns : q.is_dns = true
        · rw [if_pos hdns, Result.returns_bind]
          constructor
          · rintro ⟨b, hb, h⟩ -
            refine ⟨b, hb, ?_⟩
            cases b with
            | true => exact (responder.certify_returns hb).mp h
            | false => exact hplain.mp h
          · intro h
            obtain ⟨b, hb, h⟩ := h hdns
            refine ⟨b, hb, ?_⟩
            cases b with
            | true => exact (responder.certify_returns hb).mpr h
            | false => exact hplain.mpr h
        · rw [if_neg hdns, hplain]
          exact iff_of_true (fun h => absurd h hdns) fun h => absurd h hdns

/-! ### A request that goes through, and one that does not -/

/-- A C library that knows no address. -/
def sampleInet : Inet where
  pton := fun _ _ => none
  pton_length := fun _ _ _ h => absurd h (by simp)
  ntop := fun _ _ => []

/-- A system in which everything works, with the default level of the log. -/
def sampleEnv : Env where
  S := Sodium.tagged
  net := sampleInet
  stack := fun _ => 0
  severity := 6
  tnow := 0
  rand := 0
  server_nonce := Block.zero 12
  reply := .whole
  saved := true
  created := none

/-- A responder with nothing configured. -/
def sampleResponder : responder where
  whitelist := Filter.empty
  blacklist := Filter.empty
  cache := Cache.empty 0
  hosts := []
  dns_providers := []
  onion_provider := none
  cache_dir := []
  noipv6 := false
  processed_count := 0
  blacklisted_count := 0
  cached_count := 0
  crypt := none

/-- A query with one question, of type A and class IN. -/
def sampleQuestion (name : List UInt8) (h : name.length ≤ 255) : Query :=
  Query.of_bytes ([0, 1, 1, 0, 0, 1, 0, 0, 0, 0, 0, 0] ++ name ++ [0, 1, 0, 1]) (by
    have e₁ : max_size = 55535 := rfl
    simp only [List.length_append, List.length_cons, List.length_nil]
    omega)

theorem sample_question_a : (sampleQuestion [1, 97, 0] (by decide)).get_question =
    .ok ("a.".toList, 1, 1) := by rfl

/-- The question `a.` is answered. -/
theorem process_returns_iff_sample :
    (sampleResponder.process sampleEnv
      ⟨.udp, .of_query (sampleQuestion [1, 97, 0] (by decide))⟩).returns := by
  refine (process_returns_iff Sodium.tagged_lawful Sodium.tagged_seals sampleResponder .udp
    (sampleQuestion [1, 97, 0] (by decide))).mpr ?_
  show sampleResponder.HandlesDns sampleEnv .udp (sampleQuestion [1, 97, 0] (by decide))
  intro _
  refine ⟨"a.".toList, 1, 1, sample_question_a, by decide, Or.inr (Or.inl rfl), ?_⟩
  have hroute : sampleResponder.route_of sampleEnv "a.".toList 1 = .upstream := by rfl
  rw [hroute]
  exact Or.inl rfl

/-- A question for the root stops the daemon: it has no name that the black list
could be asked for. -/
theorem process_root_question :
    sampleResponder.process sampleEnv ⟨.udp, .of_query (sampleQuestion [0] (by decide))⟩ =
      .error (.runtime_error "too short host name: ") := by
  rfl

end Cdns
