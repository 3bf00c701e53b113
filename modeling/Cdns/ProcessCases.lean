/-
What `process` can do with a message, in one place.

`Deals` lists the ways in which `responder::process` comes to its end, each with the responder
that it leaves, and `process_cases` says that there are no others. A server first opens an
encrypted message, or answers a request for its certificate. What leaves `process` otherwise is
a failure, and never one that the handlers of `net_error` around it take (`process_uncaught`).
-/
import Cdns.Confidential

set_option autoImplicit false

namespace Cdns

namespace responder

/-- The responder after a message that is DNS was counted. -/
def counted (r : responder) : responder := { r with processed_count := r.processed_count + 1 }

/-- **The ways in which `responder::process` ends**, with the message `m` of a request over `p`. -/
inductive Deals (env : Env) (r : responder) (p : proto) (m : Message) :
    responder → outcome → Prop where
  /-- it is not DNS -/
  | dropped (dns : m.query.is_dns = false) : Deals env r p m r .dropped
  /-- a list or `noipv6` refuses it -/
  | refused : Deals env r p m { r.counted with blacklisted_count := r.blacklisted_count + 1 }
      (.responded m.query.mark_refused.wire)
  /-- a live entry of the cache answers it -/
  | cached {owner : Str} {class_ type : ℕ} {e : cache_entry} {b : Bool} {answer : Query}
      (question : m.query.get_question = .ok (owner, class_, type))
      (live : r.cache.live env.tnow owner type = some e)
      (retrieved : r.cache.retrieve env.tnow m.query = .ok (b, answer)) :
      Deals env r p m { r.counted with cached_count := r.cached_count + 1 }
        (.responded answer.wire)
  /-- the hosts file answers it -/
  | hosts {owner : Str} {class_ type : ℕ} {answer : Query} {r' : responder}
      (question : m.query.get_question = .ok (owner, class_, type))
      (address : r.hosts_response (Query.drop_dot owner) ≠ [])
      (answered : m.query.set_answer env.net (r.hosts_response (Query.drop_dot owner)) = .ok answer)
      (stored : r.counted.store env answer = .ok r') :
      Deals env r p m r' (.responded answer.wire)
  /-- there is no provider, or no connection to it -/
  | failed {sent : Query} (encrypted : r.counted.encrypt env m.mark_servfail = .ok sent) :
      Deals env r p m r.counted (.responded sent.wire)
  | forwarded {prov : provider} (created : env.created = none)
      (chosen : r.counted.random_provider env m.query = .ok (some prov)) :
      Deals env r p m r.counted (.forwarded (upstream.create prov ⟨p, m⟩))

section Cases

variable {env : Env} {r r' : responder} {p : proto} {m : Message} {out : outcome}

theorem finish_cases {req : incoming} (h : r.finish env req = .ok (r', out)) :
    ∃ sent, r.encrypt env req.message = .ok sent ∧ r' = r ∧ out = .responded sent.wire := by
  obtain ⟨bytes, hbytes, h⟩ := Result.bind_eq_ok.mp h
  obtain ⟨rfl, rfl⟩ := Prod.mk.inj (Except.ok.inj h)
  obtain ⟨sent, hsent, hbytes⟩ := Result.bind_eq_ok.mp hbytes
  obtain ⟨_, -, hbytes⟩ := Result.bind_eq_ok.mp hbytes
  exact ⟨sent, hsent, rfl, by rw [Except.ok.inj hbytes]⟩

/-- A message without a session is sent as it is. -/
theorem finish_query_cases {q : Query} (h : r.finish env ⟨p, .of_query q⟩ = .ok (r', out)) :
    r' = r ∧ out = .responded q.wire := by
  obtain ⟨sent, hsent, hr, hout⟩ := finish_cases h
  rw [encrypt_of_query] at hsent
  rw [← Except.ok.inj hsent] at hout
  exact ⟨hr, hout⟩

/-- The way to the hosts file. -/
theorem hosts_of_route {owner ip : Str} {type : ℕ} (h : r.route_of env owner type = .hosts ip) :
    ip = r.hosts_response (Query.drop_dot owner) ∧
      r.hosts_response (Query.drop_dot owner) ≠ [] := by
  unfold route_of at h
  by_cases hpass : r.passes (Query.drop_dot owner) type = .ok true
  · rw [if_pos hpass] at h
    cases hlive : r.cache.live env.tnow owner type with
    | some e =>
        rw [hlive] at h
        exact absurd h (by simp)
    | none =>
        rw [hlive] at h
        dsimp only at h
        split_ifs at h with hip
        exact ⟨(route.hosts.inj h).symm, hip⟩
  · rw [if_neg hpass] at h
    exact absurd h (by simp)

theorem ask_cases (h : r.counted.ask env ⟨p, m⟩ = .ok (r', out)) : Deals env r p m r' out := by
  obtain ⟨prov, hprov, h⟩ := Result.bind_eq_ok.mp h
  have hfail : r.counted.finish env ⟨p, m.mark_servfail⟩ = .ok (r', out) →
      Deals env r p m r' out := by
    intro hfinish
    obtain ⟨sent, hsent, rfl, rfl⟩ := finish_cases hfinish
    exact .failed hsent
  cases prov with
  | none => exact hfail h
  | some prov =>
      dsimp only at h
      split at h
      · next hcreated =>
        obtain ⟨rfl, rfl⟩ := Prod.mk.inj (Except.ok.inj h)
        exact .forwarded hcreated hprov
      · exact hfail h
      · exact absurd h (by simp)

/-- **What `responder::process` can do.** -/
theorem process_dns_cases (h : r.process_dns env ⟨p, m⟩ = .ok (r', out)) :
    Deals env r p m r' out := by
  by_cases hdns : m.query.is_dns = true
  · obtain ⟨owner, class_, type, pass, hq, hpass, hlog⟩ := process_dns_walk hdns ⟨_, h⟩
    rw [process_dns_eq hdns hq hpass hlog] at h
    cases hroute : r.route_of env owner type with
    | refused =>
        rw [hroute] at h
        obtain ⟨rfl, rfl⟩ := finish_query_cases h
        exact .refused
    | cached e =>
        rw [hroute] at h
        obtain ⟨⟨b, answer⟩, hret, h⟩ := Result.bind_eq_ok.mp h
        obtain ⟨rfl, rfl⟩ := finish_query_cases h
        exact .cached hq (live_of_route hroute) hret
    | hosts ip =>
        rw [hroute] at h
        obtain ⟨answer, hanswer, h⟩ := Result.bind_eq_ok.mp h
        obtain ⟨r₁, hstore, h⟩ := Result.bind_eq_ok.mp h
        obtain ⟨rfl, rfl⟩ := finish_query_cases h
        obtain ⟨rfl, hne⟩ := hosts_of_route hroute
        exact .hosts hq hne hanswer hstore
    | upstream =>
        rw [hroute] at h
        exact ask_cases h
  · rw [process_dns, if_pos (by simpa using hdns)] at h
    obtain ⟨rfl, rfl⟩ := Prod.mk.inj (Except.ok.inj h)
    exact .dropped (by simpa using hdns)

/-- The message that `responder::process` gets of the message `q` of a client: `q` itself, or
what a server finds in it. -/
inductive Opens (env : Env) (r : responder) (q : Query) : Message → Prop where
  | plain : Opens env r q (.of_query q)
  | encrypted {s : server_responder} {q' : Query} {key : pubkey} {client_nonce : nonce}
      (server : r.crypt.bind crypt_part.server = some s)
      (decrypted : s.decryptor.uncurve env.S q = .ok (q', key, client_nonce)) :
      Opens env r q ⟨.emessage key client_nonce, q'⟩

/-- **What `process` can do**: it deals with the message that it opens, or a server answers with
its certificate. -/
theorem process_cases {q : Query} (h : r.process env ⟨p, .of_query q⟩ = .ok (r', out)) :
    (∃ m, Opens env r q m ∧ Deals env r p m r' out) ∨
      ∃ s answer, r.crypt.bind crypt_part.server = some s ∧
        q.set_txt_answer s.certificate.raw_signed 10 = .ok answer ∧ r' = r ∧
        out = .responded answer.wire := by
  unfold process at h
  split at h
  · exact Or.inl ⟨_, .plain, process_dns_cases h⟩
  · next s hserver =>
    dsimp only at h
    split_ifs at h with hmagic hdns
    · obtain ⟨⟨q', key, client_nonce⟩, hdecrypt, h⟩ := Result.bind_eq_ok.mp h
      exact Or.inl ⟨_, .encrypted hserver hdecrypt, process_dns_cases h⟩
    · obtain ⟨cert_request, -, h⟩ := Result.bind_eq_ok.mp h
      split_ifs at h
      · obtain ⟨_, -, h⟩ := Result.bind_eq_ok.mp h
        obtain ⟨answer, hanswer, h⟩ := Result.bind_eq_ok.mp h
        obtain ⟨_, -, h⟩ := Result.bind_eq_ok.mp h
        obtain ⟨rfl, rfl⟩ := Prod.mk.inj (Except.ok.inj h)
        exact Or.inr ⟨s, answer, hserver, hanswer, rfl, rfl⟩
      · exact Or.inl ⟨_, .plain, process_dns_cases h⟩
    · exact Or.inl ⟨_, .plain, process_dns_cases h⟩

/-- A message that is forwarded: the connection is created, to a provider that was chosen for the
question. -/
theorem forwarded_cases {q : Query} {u : upstream}
    (h : r.process env ⟨p, .of_query q⟩ = .ok (r', .forwarded u)) :
    env.created = none ∧ ∃ m prov, Opens env r q m ∧
      r.counted.random_provider env m.query = .ok (some prov) ∧ r' = r.counted ∧
      u = upstream.create prov ⟨p, m⟩ := by
  rcases process_cases h with ⟨m, hopens, hdeals⟩ | ⟨s, answer, -, -, -, hout⟩
  · cases hdeals with
    | forwarded hcreated hchosen => exact ⟨hcreated, m, _, hopens, hchosen, rfl, rfl⟩
  · exact absurd hout (by simp)

end Cases

end responder

/-! ## Failures

No `net_error` leaves `process`, so the handler in `tcp::in::on_receive` takes none of its
failures. -/

open Result (uncaught uncaught_ok uncaught_error uncaught_bind)

theorem address.of_text_uncaught (net : Inet) (ip_port : Str) (port : ℕ) :
    uncaught (address.of_text net ip_port port) := by
  have hmake : ∀ af ip port, uncaught (detail.make_address net af ip port) := by
    intro af ip port
    unfold detail.make_address
    split
    · exact uncaught_ok _
    · exact uncaught_error rfl
  unfold address.of_text
  refine uncaught_bind ?_ fun a => ?_
  · unfold detail.split
    dsimp only
    repeat' split
    all_goals first | exact uncaught_ok _ | exact uncaught_error rfl
  · dsimp only
    split_ifs
    · exact hmake _ _ _
    · exact hmake _ _ _
    all_goals
      refine uncaught_bind ?_ fun port => hmake _ _ _
      unfold detail.str2u16
      dsimp only
      split_ifs
      all_goals first | exact uncaught_ok _ | exact uncaught_error rfl

theorem Filter.match_uncaught (f : Filter) (hostname : Str) : uncaught (f.match_ hostname) := by
  unfold Filter.match_
  dsimp only
  split_ifs
  all_goals first | exact uncaught_ok _ | exact uncaught_error rfl

namespace Query

theorem skip_questions_uncaught (q : Query) (n : ℕ) : uncaught (q.skip_questions n) :=
  for_each_uncaught q.get_rr_question_uncaught (fun _ _ => uncaught_ok _) n _ none

theorem adjust_loop_uncaught (ttl : ℤ) (n : ℕ) :
    ∀ off q, uncaught (adjust_loop ttl n off q) := by
  induction n with
  | zero => exact fun off q => uncaught_ok _
  | succ n ih =>
      intro off q
      unfold adjust_loop
      refine uncaught_bind (q.get_rr_uncaught off) fun p => ?_
      dsimp only
      split_ifs
      · exact ih _ _
      · exact ih _ _

theorem adjust_id_and_ttl_uncaught (q : Query) (tid : ℕ) (ttl : ℤ) :
    uncaught (q.adjust_id_and_ttl tid ttl) :=
  uncaught_bind (skip_questions_uncaught _ _) fun _ => adjust_loop_uncaught _ _ _ _

theorem add_answer_uncaught (q : Query) (data : List UInt8) (typ : ℕ) (ttl : ℤ) :
    uncaught (q.add_answer data typ ttl) := by
  unfold add_answer
  dsimp only
  split_ifs
  · exact uncaught_error rfl
  · refine uncaught_bind (skip_questions_uncaught _ _) fun p => ?_
    refine uncaught_bind (for_each_uncaught (get_rr_uncaught _) (fun _ _ => uncaught_ok _) _ _ _)
      fun p => ?_
    exact uncaught_bind (put_uncaught _ _ _) fun b => set_size_uncaught _ _
  · refine uncaught_bind (skip_questions_uncaught _ _) fun p => ?_
    exact uncaught_bind (for_each_uncaught (get_rr_uncaught _) (fun _ _ => uncaught_ok _) _ _ _)
      fun p => uncaught_error rfl

theorem set_txt_answer_uncaught (q : Query) (txt : List UInt8) (ttl : ℤ) :
    uncaught (q.set_txt_answer txt ttl) := by
  unfold set_txt_answer
  split_ifs
  · exact uncaught_error rfl
  · exact q.add_answer_uncaught _ _ _

theorem is_dnscrypt_certificate_request_uncaught (q : Query) (hostname : Str) :
    uncaught (q.is_dnscrypt_certificate_request hostname) := by
  unfold is_dnscrypt_certificate_request
  dsimp only
  split_ifs
  · exact uncaught_error rfl
  · exact uncaught_ok _
  · exact uncaught_bind (q.get_rr_question_uncaught _) fun _ => uncaught_ok _
  · exact uncaught_bind (q.get_rr_question_uncaught _) fun _ => uncaught_ok _

end Query

theorem Cache.retrieve_uncaught (c : Cache) (tnow : ℤ) (msg : Query) :
    uncaught (c.retrieve tnow msg) := by
  refine uncaught_bind msg.get_question_uncaught fun p => ?_
  dsimp only
  split
  · exact uncaught_ok _
  · split_ifs
    · exact uncaught_bind (Query.adjust_id_and_ttl_uncaught _ _ _) fun _ => uncaught_ok _
    · exact uncaught_ok _

theorem server_uncurve_uncaught (S : Sodium) (keys : server_encryptor_data) (q : Query) :
    uncaught (keys.uncurve S q) := by
  unfold server_encryptor_data.uncurve
  dsimp only
  split_ifs
  · exact uncaught_error rfl
  · split
    · exact uncaught_error rfl
    · split
      · exact uncaught_error rfl
      · refine uncaught_bind (put_uncaught _ _ _) fun b => ?_
        refine uncaught_bind (find_end_uncaught _ _) fun n => ?_
        split_ifs
        · exact uncaught_error rfl
        · exact uncaught_bind (set_size_uncaught _ _) fun _ => uncaught_ok _

namespace responder

theorem passes_uncaught (r : responder) (owner : Str) (type : ℕ) :
    uncaught (r.passes owner type) := by
  have hblack : ∀ white, uncaught (if white = false then .ok false else do
      let black ← r.blacklist.match_ owner
      .ok (!black && !(r.noipv6 && type == rr_type.aaaa.code))) := by
    intro white
    split_ifs
    · exact uncaught_ok _
    · exact uncaught_bind (Filter.match_uncaught _ _) fun _ => uncaught_ok _
  unfold passes
  dsimp only
  split_ifs
  · exact hblack true
  · exact uncaught_bind (Filter.match_uncaught _ _) hblack

theorem pre_filter_uncaught (env : Env) (r : responder) (q : Query) :
    uncaught (r.pre_filter env q) := by
  refine uncaught_bind q.get_question_uncaught fun p => ?_
  refine uncaught_bind (passes_uncaught _ _ _) fun pass => uncaught_bind ?_ fun _ => ?_
  · unfold log_class
    split_ifs
    · exact uncaught_bind (rr_class_cstr_uncaught _) fun _ => uncaught_ok _
    · exact uncaught_ok _
  · split_ifs
    · refine uncaught_bind (Cache.retrieve_uncaught _ _ _) fun p => ?_
      dsimp only
      split_ifs
      · exact uncaught_ok _
      · exact uncaught_bind (uncaught_bind (address.of_text_uncaught _ _ _)
          fun _ => Query.add_answer_uncaught _ _ _ _) fun _ => uncaught_ok _
      · exact uncaught_ok _
    · exact uncaught_ok _

theorem finish_uncaught (env : Env) (r : responder) (req : incoming) :
    uncaught (r.finish env req) :=
  uncaught_bind (uncaught_bind (encrypt_uncaught _ _ _) fun _ =>
    uncaught_bind (incoming.respond_uncaught _ _ _) fun _ => uncaught_ok _) fun _ => uncaught_ok _

theorem random_dns_provider_uncaught (env : Env) (r : responder) :
    uncaught (r.random_dns_provider env) := by
  unfold random_dns_provider
  split_ifs
  · exact uncaught_ok _
  · split
    · exact uncaught_error rfl
    · exact uncaught_ok _

theorem random_provider_uncaught (env : Env) (r : responder) (q : Query) :
    uncaught (r.random_provider env q) := by
  refine uncaught_bind ?_ fun zone => ?_
  · unfold zone_provider
    split
    · exact uncaught_ok _
    · exact uncaught_bind (uncaught_bind q.get_question_uncaught fun _ => uncaught_ok _)
        fun _ => uncaught_ok _
  · split
    · exact uncaught_ok _
    · split
      · split_ifs
        · exact random_dns_provider_uncaught _ _
        · exact uncaught_ok _
      · exact random_dns_provider_uncaught _ _

theorem ask_uncaught (env : Env) (r : responder) (req : incoming) : uncaught (r.ask env req) := by
  refine uncaught_bind (random_provider_uncaught _ _ _) fun prov => ?_
  dsimp only
  split
  · exact finish_uncaught _ _ _
  · split
    · exact uncaught_ok _
    · exact finish_uncaught _ _ _
    · next e hnot _ =>
      refine uncaught_error ?_
      cases e with
      | net_error what => exact absurd rfl (hnot what)
      | _ => rfl

theorem process_dns_uncaught (env : Env) (r : responder) (req : incoming) :
    uncaught (r.process_dns env req) := by
  unfold process_dns
  dsimp only
  split_ifs
  · exact uncaught_ok _
  · refine uncaught_bind (pre_filter_uncaught _ _ _) fun p => ?_
    split
    · exact finish_uncaught _ _ _
    · refine uncaught_bind (uncaught_bind (Cache.store_uncaught _ _ _) fun c => ?_)
        fun _ => finish_uncaught _ _ _
      split_ifs
      · exact uncaught_error rfl
      · exact uncaught_ok _
    · exact ask_uncaught _ _ _

/-- **Nothing in `process` throws a `net_error`.** -/
theorem process_uncaught (env : Env) (r : responder) (req : incoming) :
    uncaught (r.process env req) := by
  unfold process
  split
  · exact process_dns_uncaught _ _ _
  · dsimp only
    split_ifs
    · exact uncaught_bind (server_uncurve_uncaught _ _ _) fun _ => process_dns_uncaught _ _ _
    · refine uncaught_bind (Query.is_dnscrypt_certificate_request_uncaught _ _) fun b => ?_
      split_ifs
      · refine uncaught_bind (Query.get_question_uncaught _) fun _ => ?_
        refine uncaught_bind (Query.set_txt_answer_uncaught _ _ _) fun _ => ?_
        exact uncaught_bind (incoming.respond_uncaught _ _ _) fun _ => uncaught_ok _
      · exact process_dns_uncaught _ _ _
    · exact process_dns_uncaught _ _ _

end responder

end Cdns
