/-
Where the replies of the daemon come from, over whole runs.

The daemon learns an answer in two ways (`Learns`): the hosts file has an address for what a client
asks, or a packet comes from a provider while a request waits for it. What it has learnt is all
that goes into the cache. The cache of a daemon that began with an empty one is the cache after a
history of `store` operations, each of an answer that was learnt at an event of the run, at the
time of that event (`cache_learnt`). So everything that holds of the histories of a cache holds of
the cache of a daemon.

A reply is then a refusal or a failure of the client's own message, the certificate of the server,
an answer that the event itself has brought, or an answer that was learnt earlier in the run and
whose time is not over, with the id of the client and the time that is left (`reply_origin`).
Nothing is made up on the way. When the network fails while a message is sent, the failure is one
of what the request holds of the message then (`Unsent`), which may be encrypted already.
-/
import Cdns.CacheServe
import Cdns.DaemonLoss
import Cdns.Failure

set_option autoImplicit false

namespace Cdns

open Lib.Machine

/-! ## What goes into the cache -/

/-- `store` of a responder is `store` of its cache. -/
theorem responder.store_cache {env : Env} {r r' : responder} {m : Query}
    (h : r.store env m = .ok r') : r'.cache = r.cache.step (.store env.tnow m) := by
  obtain ⟨c, hc, h⟩ := Result.bind_eq_ok.mp h
  split_ifs at h
  rw [← Except.ok.inj h, Cache.step, hc]

/-- A message that is marked with SERVFAIL is no answer to store. -/
theorem responder.store_answer_servfail {env : Env} {r r' : responder} {m : Message}
    (h : r.store_answer env m.mark_servfail.query = .ok r') : r' = r := by
  have hcode : m.mark_servfail.query.rcode = pkt_rcode.servfail.code := by
    have hheader := Query.mark_header m.query .servfail
    exact congrArg message_header.rcode hheader
  unfold store_answer at h
  rw [hcode, if_neg (by decide)] at h
  exact (Except.ok.inj h).symm

/-- What an answer that is passed on does: it is stored unless it reports a failure, and sent. -/
theorem responder.pass_answer_downstream_cases {env : Env} {r r' : responder} {inptr : incoming}
    {m : Message} {bytes : List UInt8}
    (h : r.pass_answer_downstream env inptr m = .ok (r', bytes)) :
    (r'.cache = r.cache ∨ r'.cache = r.cache.step (.store env.tnow m.query)) ∧
      ((∃ x : Message, m = x.mark_servfail) → r'.cache = r.cache) ∧
      ∃ sent, r.encrypt env m = .ok sent ∧ bytes = sent.wire := by
  obtain ⟨-, -, h⟩ := Result.bind_eq_ok.mp h
  obtain ⟨r₁, hr₁, h⟩ := Result.bind_eq_ok.mp h
  obtain ⟨b, hb, h⟩ := Result.bind_eq_ok.mp h
  obtain ⟨rfl, rfl⟩ := Prod.mk.inj (Except.ok.inj h)
  refine ⟨?_, ?_, ?_⟩
  · unfold store_answer at hr₁
    split_ifs at hr₁
    · exact Or.inr (store_cache hr₁)
    · rw [Except.ok.inj hr₁]
      exact Or.inl rfl
  · rintro ⟨x, rfl⟩
    rw [store_answer_servfail hr₁]
  · obtain ⟨sent, hsent, hb⟩ := Result.bind_eq_ok.mp hb
    obtain ⟨_, -, hb⟩ := Result.bind_eq_ok.mp hb
    refine ⟨sent, ?_, (Except.ok.inj hb).symm⟩
    unfold encrypt at hsent ⊢
    rw [store_answer_crypt hr₁] at hsent
    exact hsent

/-! ## What a request to a provider passes on -/

/-- Adopting another certificate does not change how a provider adapts a message. -/
theorem provider.adapt_message_congr {p p' : provider}
    (h : p.resolver = none ↔ p'.resolver = none) (m : Message) :
    p.adapt_message m = p'.adapt_message m := by
  unfold adapt_message
  cases hp : p.resolver with
  | none => rw [h.mp hp]
  | some r =>
      cases hp' : p'.resolver with
      | none => exact absurd (h.mpr hp') (by simp [hp])
      | some r' => rfl

namespace upstream

/-- The network fails while the request is sent: it holds `x` then, which is its question, or what
`fold` has made of that. -/
def Unsent (S : Sodium) (u : upstream) (io : Io) (x : Message) : Prop :=
  (io.link_over u.provider.net_proto = .failed ∧ x = u.question) ∨
    (io.link_over u.provider.net_proto = .connected ∧
      u.provider.fold S io u.question = .ok x ∧
      ∃ what, io.send u.provider.net_proto x.query = .error (.net_error what))

variable {p : Cdns.provider} {req : incoming} {u u' : upstream}

/-- A life keeps the invariant of a request. -/
theorem Lived.life (h : (create p req).Lived u) : u.Life p req := by
  obtain ⟨ts, u₁, x, hafter, rfl⟩ := h
  exact (after_life (Life.create p req) hafter).1.renew x

/-- A message that `on_send` passes on is what was not sent, marked with SERVFAIL. -/
theorem on_send_passes {α : Type} {pass : Message → Result α} {S : Sodium} {io : Io} {m : Message}
    {a : α} (h : network_upstream.on_send (network_upstream.observed pass) S u.provider
      u.provider.net_proto io u.question = .ok (.over (some (m, a)))) :
    ∃ x : Message, m = x.mark_servfail ∧ u.Unsent S io x := by
  have hfail : ∀ {x : Message}, network_upstream.pass_failure_downstream
      (network_upstream.observed pass) x = .ok (.over (some (m, a))) → m = x.mark_servfail := by
    intro x hx
    unfold network_upstream.pass_failure_downstream at hx
    split_ifs at hx
    · obtain ⟨⟨m', a'⟩, hobs, hx⟩ := Result.bind_eq_ok.mp hx
      have hpair := Option.some.inj (progress.over.inj (Except.ok.inj hx))
      rw [← (Prod.mk.inj hpair).1]
      exact (network_upstream.observed_eq_ok hobs).1
    · exact absurd (progress.over.inj (Except.ok.inj hx)) (by simp)
  unfold network_upstream.on_send at h
  split at h
  · exact absurd (Except.ok.inj h) (by simp)
  · next hlink => exact ⟨u.question, hfail h, Or.inl ⟨hlink, rfl⟩⟩
  · next hlink =>
    split_ifs at h
    · obtain ⟨x, hx, h⟩ := Result.bind_eq_ok.mp h
      split at h
      · next what hsend => exact ⟨x, hfail h, Or.inr ⟨hlink, hx, what, hsend⟩⟩
      · exact absurd h (by simp)
      · exact absurd (Except.ok.inj h) (by simp)
    · exact absurd (Except.ok.inj h) (by simp)

/-- What is passed on is passed on by the callback of a watcher. -/
theorem watch_passes {t : moment} {x : passing} (h : u.watch t = .ok (u', some x)) :
    ∃ io, t.event = .ready io ∧
      ({ u with provider := u.provider.renew t.renewed } : upstream).callback_observed t.env
        t.responder io = .ok (.over (some (x.message, x.after, x.bytes))) := by
  unfold watch at h
  dsimp only at h
  split at h
  · exact absurd (Prod.mk.inj (Except.ok.inj h)).2 (by simp)
  · next io hio =>
    obtain ⟨next, hnext, h⟩ := Result.bind_eq_ok.mp h
    rcases next with ⟨st, q⟩ | passed
    · exact absurd (Prod.mk.inj (Except.ok.inj h)).2 (by simp)
    · obtain ⟨a, rfl, rfl⟩ := Option.map_eq_some_iff.mp (Prod.mk.inj (Except.ok.inj h)).2
      exact ⟨io, hio, hnext⟩

/-- **What a request passes on**: what `unfold` finds in a packet that comes while it waits, or
what was not sent of the client's message, marked with SERVFAIL. -/
theorem step_passes {t : moment} {r' : responder} {bytes : List UInt8} (hu : u.Life p req)
    (h : u.step t = .ok (u', some (r', bytes))) :
    ∃ m, t.responder.pass_answer_downstream t.env req m = .ok (r', bytes) ∧
      ((∃ io x, u.stage = .sending ∧ t.event = .ready io ∧
          u.question = u.provider.adapt_message req.message ∧ m = x.mark_servfail ∧
          ({ u with provider := u.provider.renew t.renewed } : upstream).Unsent t.env.S io x) ∨
        ∃ io d, u.stage = .receiving ∧ t.event = .ready io ∧
          io.receive u.provider.net_proto u.question.query = .ok d ∧
          (u.provider.renew t.renewed).unfold t.env.S { u.question with query := d } = .ok m) := by
  rw [step_eq_watch] at h
  obtain ⟨⟨u₁, passed⟩, hwatch, h⟩ := Result.bind_eq_ok.mp h
  obtain ⟨-, hpassed⟩ := Prod.mk.inj (Except.ok.inj h)
  obtain ⟨x, rfl, hx⟩ := Option.map_eq_some_iff.mp hpassed
  obtain ⟨rfl, rfl⟩ := Prod.mk.inj hx
  obtain ⟨-, -, hpass⟩ := watch_cases hu hwatch
  obtain ⟨-, hstage, -, hpass, hrecv⟩ := hpass x rfl
  refine ⟨x.message, hpass, ?_⟩
  obtain ⟨io, hio, hnext⟩ := watch_passes hwatch
  unfold callback_observed at hnext
  dsimp only at hnext
  cases hs : u.stage with
  | closed =>
      rw [hs] at hnext
      exact absurd (progress.over.inj (Except.ok.inj hnext)) (by simp)
  | stopped =>
      rw [hs] at hnext
      exact absurd (Except.ok.inj hnext) (by simp)
  | receiving =>
      obtain ⟨d, ⟨-, io, hio, -, hd⟩, hm⟩ := hrecv (hstage.trans hs)
      exact Or.inr ⟨io, d, rfl, hio, hd, hm⟩
  | sending =>
      rw [hs] at hnext
      obtain ⟨y, hy, hunsent⟩ :=
        @on_send_passes { u with provider := u.provider.renew t.renewed } _ _ _ _ _ _ hnext
      refine Or.inl ⟨io, y, rfl, hio, ?_, hy, hunsent⟩
      rw [hu.sending hs, provider.adapt_message_congr hu.plain]

end upstream

namespace daemon

variable {d d' d₀ : daemon} {e : daemon_event} {out : List daemon_output} {i : ℕ}

/-! ## Learning -/

/-- The event brings the answer of a provider for a client: a packet comes while the request waits
for it, and `x` is what `unfold` finds in the packet. -/
def Brings (d : daemon) (e : daemon_event) (i : ℕ) (x : Message) : Prop :=
  ∃ env j io t packet, e = .upstream env j (.ready io) ∧
    d.upstream_requests[j]? = some (some t) ∧ t.peer = i ∧ t.upstream.stage = .receiving ∧
    io.receive t.upstream.provider.net_proto t.upstream.question.query = .ok packet ∧
    t.upstream.provider.unfold env.S { t.upstream.question with query := packet } = .ok x

/-- The network fails at the event, while the message `m` of a client is sent to a provider, and
`x` is what the request holds of it then. -/
def Fails (d : daemon) (e : daemon_event) (i : ℕ) (m x : Message) : Prop :=
  ∃ env j io t, e = .upstream env j (.ready io) ∧ d.upstream_requests[j]? = some (some t) ∧
    t.peer = i ∧ t.upstream.stage = .sending ∧
    t.upstream.question = t.upstream.provider.adapt_message m ∧ t.upstream.Unsent env.S io x

/-- The hosts file has an address for the message `m`, and `answer` says so. -/
def Looks (env : Env) (d : daemon) (m : Message) (answer : Query) : Prop :=
  ∃ owner class_ type, m.query.get_question = .ok (owner, class_, type) ∧
    d.responder.hosts_response (Query.drop_dot owner) ≠ [] ∧
    m.query.set_answer env.net (d.responder.hosts_response (Query.drop_dot owner)) = .ok answer

/-- The message `m` came from a client with the event, perhaps encrypted. -/
def Asks (d : daemon) (e : daemon_event) (new : List daemon_output) (i : ℕ) (m : Message) : Prop :=
  ∃ env q, e.env = some env ∧ .received i q ∈ new ∧ responder.Opens env d.current q m

/-- **What the daemon learns** from an event: an answer, at the time of its clock. -/
inductive Learns (d : daemon) (e : daemon_event) (new : List daemon_output) : ℤ → Query → Prop where
  /-- from the hosts file -/
  | hosts {env : Env} {i : ℕ} {m : Message} {answer : Query} (environment : e.env = some env)
      (message : Asks d e new i m) (looked : Looks env d m answer) : Learns d e new env.tnow answer
  /-- from a provider -/
  | provider {env : Env} {i : ℕ} {x : Message} (environment : e.env = some env)
      (brought : Brings d e i x) : Learns d e new env.tnow x.query

/-- An answer that was learnt during a run. -/
def Learnt (d₀ : daemon) (es : List daemon_event) (t : ℤ) (m : Query) : Prop :=
  ∃ d e new, Takes d₀ es d e new ∧ Learns d e new t m

theorem Learnt.append {es : List daemon_event} {t : ℤ} {m : Query} (h : Learnt d₀ es t m)
    (es' : List daemon_event) : Learnt d₀ (es ++ es') t m := by
  obtain ⟨d, e, new, htakes, hlearns⟩ := h
  exact ⟨d, e, new, htakes.append es', hlearns⟩

/-! ## The cache -/

/-- What `process` does to the cache. -/
theorem Deals.cache {env : Env} {r r' : Cdns.responder} {p : proto} {m : Message} {o : outcome}
    (h : responder.Deals env r p m r' o) :
    r'.cache = r.cache ∨ ∃ owner class_ type answer,
      m.query.get_question = .ok (owner, class_, type) ∧
      r.hosts_response (Query.drop_dot owner) ≠ [] ∧
      m.query.set_answer env.net (r.hosts_response (Query.drop_dot owner)) = .ok answer ∧
      r'.cache = r.cache.step (.store env.tnow answer) := by
  cases h with
  | hosts hq hip hanswer hstored =>
      have hstep := responder.store_cache hstored
      exact Or.inr ⟨_, _, _, _, hq, hip, hanswer, hstep⟩
  | dropped _ => exact Or.inl rfl
  | refused => exact Or.inl rfl
  | cached _ _ _ => exact Or.inl rfl
  | failed _ => exact Or.inl rfl
  | forwarded _ _ => exact Or.inl rfl

/-- **What an event does to the cache**: it stores what the daemon learns, or nothing. -/
theorem step_cache (hlife : ∀ t, some t ∈ d.upstream_requests →
      ∃ p req, t.upstream.Life p req) (h : d.step e = .ok (d', out)) :
    d'.responder.cache = d.responder.cache ∨ ∃ t m, Learns d e out t m ∧
      d'.responder.cache = d.responder.cache.step (.store t m) := by
  rcases step_cases h with ⟨env, i, p, q, d₁, henv, hcurrent, -, h⟩ | ⟨env, j, event, he, h⟩ |
    ⟨-, hcache, -⟩
  · obtain ⟨r, o, hr, h⟩ := process_cases h
    rw [hcurrent] at hr
    have hd' : d'.responder = r ∧ .received i q ∈ out := by
      rcases h with ⟨-, rfl, rfl⟩ | ⟨_, -, rfl, rfl⟩ | ⟨_, -, rfl, rfl⟩
      · exact ⟨rfl, by simp⟩
      · exact ⟨rfl, by simp⟩
      · exact ⟨rfl, by simp⟩
    rw [hd'.1]
    rcases responder.process_cases hr with ⟨m, hopens, hdeals⟩ | ⟨s, answer, -, -, rfl, -⟩
    · rcases Deals.cache hdeals with hsame | ⟨owner, class_, type, answer, hq, hip, hset, hstep⟩
      · exact Or.inl hsame
      · refine Or.inr ⟨env.tnow, answer, ?_, hstep⟩
        exact .hosts henv ⟨env, q, henv, hd'.2, hopens⟩ ⟨owner, class_, type, hq, hip, hset⟩
    · exact Or.inl rfl
  · rcases on_upstream_cases h with ⟨rfl, -⟩ | ⟨t, u, passed, ht, hstep, h⟩
    · exact Or.inl rfl
    · rcases h with ⟨-, -, rfl⟩ | ⟨r, bytes, rfl, -, rfl⟩
      · exact Or.inl rfl
      · obtain ⟨p, req, hu⟩ := hlife t (List.mem_of_getElem? ht)
        obtain ⟨m, hpass, hm⟩ := upstream.step_passes hu hstep
        obtain ⟨hcache, hfailed, -⟩ := responder.pass_answer_downstream_cases hpass
        rcases hm with ⟨-, x, -, -, -, hx, -⟩ | ⟨io, packet, hstage, hio, hpacket, hunfold⟩
        · exact Or.inl (hfailed ⟨x, hx⟩)
        · rcases hcache with hsame | hstored
          · exact Or.inl hsame
          · refine Or.inr ⟨env.tnow, m.query, ?_, hstored⟩
            dsimp only at hio hunfold
            rw [provider.renew_none] at hunfold
            subst he hio
            exact .provider rfl ⟨env, j, io, t, packet, rfl, ht, rfl, hstage, hpacket, hunfold⟩
  · exact Or.inl hcache

/-- The request of every task has the invariant of its life. -/
theorem run_life {es : List daemon_event} (h₀ : d₀.Fresh) (h : d₀.run es = .ok (d, out)) {t : task}
    (ht : some t ∈ d.upstream_requests) :
    ∃ d₁ e new p req, Takes d₀ es d₁ e new ∧ Asks d₁ e new t.peer req.message ∧
      t.upstream.Life p req := by
  obtain ⟨q, u₀, ⟨d₁, e, new, env, p, r, htakes, henv, hmem, hr⟩, hlived⟩ := run_tasks h₀ h ht
  obtain ⟨-, m, prov, hopens, -, -, rfl⟩ := responder.forwarded_cases hr
  exact ⟨d₁, e, new, prov, ⟨p, m⟩, htakes, ⟨env, q, henv, hmem, hopens⟩, hlived.life⟩

/-- **The cache holds what was learnt**: it is the cache after a history of stored answers, each
learnt at an event of the run. -/
theorem run_cache {es : List daemon_event} {minttl : ℕ} (h₀ : d₀.Fresh)
    (hempty : d₀.responder.cache = Cache.empty minttl) (h : d₀.run es = .ok (d, out)) :
    ∃ ops, d.responder.cache = Cache.run minttl ops ∧
      ∀ op ∈ ops, ∃ t m, op = .store t m ∧ Learnt d₀ es t m := by
  refine run_rule (I := fun past s _ => ∃ ops, s.responder.cache = Cache.run minttl ops ∧
    ∀ op ∈ ops, ∃ t m, op = .store t m ∧ Learnt d₀ past t m) (s := d₀) ⟨[], hempty, by simp⟩ ?_ h
  intro past s seen e s' new hpast ⟨ops, hcache, hops⟩ hstep
  have hlife : ∀ t, some t ∈ s.upstream_requests → ∃ p req, t.upstream.Life p req := by
    intro t ht
    obtain ⟨_, _, _, p, req, -, -, hu⟩ := run_life h₀ hpast ht
    exact ⟨p, req, hu⟩
  have hold : ∀ op ∈ ops, ∃ t m, op = .store t m ∧ Learnt d₀ (past ++ [e]) t m := by
    intro op hop
    obtain ⟨t, m, rfl, hlearnt⟩ := hops op hop
    exact ⟨t, m, rfl, hlearnt.append [e]⟩
  rcases step_cache hlife hstep with hsame | ⟨t, m, hlearns, hstored⟩
  · exact ⟨ops, hsame.trans hcache, hold⟩
  · refine ⟨ops ++ [.store t m], ?_, ?_⟩
    · rw [hstored, hcache, Cache.run, Cache.run, List.foldl_append]
      rfl
    · intro op hop
      rcases List.mem_append.mp hop with hop | hop
      · exact hold op hop
      · exact ⟨t, m, List.mem_singleton.mp hop, s, e, new, .last hpast hstep, hlearns⟩

/-! ## Replies -/

/-- **Where the reply to a message `m` of a client comes from.** The event `e` is that of the reply,
and `past` are the events before it. -/
inductive Origin (d₀ : daemon) (past : List daemon_event) (minttl : ℕ) (d : daemon)
    (e : daemon_event) (env : Env) (i : ℕ) (m : Message) : List UInt8 → Prop where
  /-- the message, refused -/
  | refused : Origin d₀ past minttl d e env i m m.query.mark_refused.wire
  /-- the message, with SERVFAIL -/
  | failed {sent : Query} (encrypted : d.current.encrypt env m.mark_servfail = .ok sent) :
      Origin d₀ past minttl d e env i m sent.wire
  /-- the message as it was to be sent to a provider when that failed, with SERVFAIL -/
  | unsent {x : Message} {sent : Query} (failed : Fails d e i m x)
      (encrypted : d.current.encrypt env x.mark_servfail = .ok sent) :
      Origin d₀ past minttl d e env i m sent.wire
  /-- the certificate of the server -/
  | certificate {s : server_responder} {answer : Query}
      (server : d.current.crypt.bind crypt_part.server = some s)
      (answered : m.query.set_txt_answer s.certificate.raw_signed 10 = .ok answer) :
      Origin d₀ past minttl d e env i m answer.wire
  /-- an address of the hosts file -/
  | hosts {answer : Query} (looked : Looks env d m answer) :
      Origin d₀ past minttl d e env i m answer.wire
  /-- the answer of a provider that was asked for this client -/
  | provider {x : Message} {sent : Query} (brought : Brings d e i x)
      (encrypted : d.current.encrypt env x = .ok sent) :
      Origin d₀ past minttl d e env i m sent.wire
  /-- an answer to the same question that was learnt before and whose time is not over -/
  | cached {owner : Str} {class_ type : ℕ} {t : ℤ} {stored answer : Query}
      (question : m.query.get_question = .ok (owner, class_, type))
      (learnt : Learnt d₀ past t stored)
      (filed : Cache.filed stored = some (ascii_tolower owner, type))
      (alive : env.tnow < t + Cache.life minttl stored)
      (rewritten : Query.Rewritten stored answer m.query.header.id
        (Query.int32 (Query.uint32 (t + Cache.life minttl stored - env.tnow)))) :
      Origin d₀ past minttl d e env i m answer.wire

/-- What a live entry of the cache is served from. -/
theorem cached_origin {past : List daemon_event} {minttl : ℕ} {ops : List Cache.Op} {env : Env}
    {c : Cache} {q answer : Query} {owner : Str} {class_ type : ℕ} {entry : cache_entry} {b : Bool}
    (hc : c = Cache.run minttl ops)
    (hops : ∀ op ∈ ops, ∃ t m, op = .store t m ∧ Learnt d₀ past t m)
    (hq : q.get_question = .ok (owner, class_, type))
    (hlive : c.live env.tnow owner type = some entry)
    (hret : c.retrieve env.tnow q = .ok (b, answer)) :
    ∃ t stored, Learnt d₀ past t stored ∧
      Cache.filed stored = some (ascii_tolower owner, type) ∧
      env.tnow < t + Cache.life minttl stored ∧
      Query.Rewritten stored answer q.header.id
        (Query.int32 (Query.uint32 (t + Cache.life minttl stored - env.tnow))) := by
  obtain ⟨hfind, halive⟩ := Option.filter_eq_some_iff.mp hlive
  rw [Bool.and_eq_true, decide_eq_true_eq, decide_eq_true_eq] at halive
  rw [hc] at hfind
  obtain ⟨t, stored, hop, hfiled, rfl⟩ := Cache.run_entry hfind
  obtain ⟨t', m', hop', hlearnt⟩ := hops _ hop
  obtain ⟨rfl, rfl⟩ := Cache.Op.store.inj hop'
  refine ⟨t, stored, hlearnt, hfiled, halive.2, ?_⟩
  -- the records of the message parse, or it could not be served
  obtain ⟨hlen, heq⟩ := Cache.retrieve_hit hq hlive
  rw [hret] at heq
  obtain ⟨q', hadjust, hq'⟩ := Result.bind_eq_ok.mp heq.symm
  obtain ⟨-, rfl⟩ := Prod.mk.inj (Except.ok.inj hq')
  have hrestored : Query.of_bytes stored.wire hlen = Cache.restored stored := rfl
  dsimp only at hadjust
  rw [hrestored] at hadjust
  have hrecords : (Cache.restored stored).records.returns := by
    rw [Query.adjust_id_and_ttl_eq] at hadjust
    obtain ⟨rs, hrs, -⟩ := Result.bind_eq_ok.mp hadjust
    exact ⟨rs, hrs⟩
  obtain ⟨rs, hrs⟩ := hrecords
  have hid : q.header.id < 65536 := (message_header.read_valid q.bytes).id
  obtain ⟨q'', hadjust', hrewritten⟩ := Query.adjust_id_and_ttl_rewritten hid
    (Query.int32 (Query.uint32 (t + Cache.life minttl stored - env.tnow))) hrs
  obtain rfl := Except.ok.inj (hadjust'.symm.trans hadjust)
  obtain ⟨o, ty, hstored, -⟩ := Cache.accepted_eq_some (Cache.accepted_of_filed hfiled)
  have hsize : 12 ≤ stored.size := by
    have := Query.size_of_get_question hstored
    omega
  exact Cache.rewritten_of_restored (Cache.records_restored hsize) hrewritten

/-- The reply is traced back: to the message of its client, and to where it comes from. -/
def Traced (d₀ : daemon) (es : List daemon_event) (minttl i : ℕ) (bytes : List UInt8) : Prop :=
  ∃ past e rest d seen d' new env m, es = past ++ e :: rest ∧ d₀.run past = .ok (d, seen) ∧
    d.step e = .ok (d', new) ∧ e.env = some env ∧ .replied i bytes ∈ new ∧
    (∃ d₁ e₁ new₁, Takes d₀ (past ++ [e]) d₁ e₁ new₁ ∧ Asks d₁ e₁ new₁ i m) ∧
    Origin d₀ past minttl d e env i m bytes

theorem Traced.append {es : List daemon_event} {minttl : ℕ} {bytes : List UInt8}
    (h : Traced d₀ es minttl i bytes) (es' : List daemon_event) :
    Traced d₀ (es ++ es') minttl i bytes := by
  obtain ⟨past, e, rest, d, seen, d', new, env, m, rfl, hrest⟩ := h
  exact ⟨past, e, rest ++ es', d, seen, d', new, env, m, by simp, hrest⟩

/-- A reply that `process` gives. -/
theorem process_origin {past : List daemon_event} {minttl : ℕ} {ops : List Cache.Op} {env : Env}
    {p : proto} {q : Query} {r : Cdns.responder} {bytes : List UInt8}
    (hcache : d.responder.cache = Cache.run minttl ops)
    (hops : ∀ op ∈ ops, ∃ t m, op = .store t m ∧ Learnt d₀ past t m)
    (h : d.current.process env ⟨p, .of_query q⟩ = .ok (r, .responded bytes)) :
    ∃ m, responder.Opens env d.current q m ∧ Origin d₀ past minttl d e env i m bytes := by
  rcases responder.process_cases h with ⟨m, hopens, hdeals⟩ | ⟨s, answer, hserver, hset, -, hout⟩
  · refine ⟨m, hopens, ?_⟩
    cases hdeals with
    | refused => exact .refused
    | cached hq hlive hret =>
        obtain ⟨t, stored, hlearnt, hfiled, halive, hrewritten⟩ :=
          cached_origin (c := d.responder.cache) hcache hops hq hlive hret
        exact .cached hq hlearnt hfiled halive hrewritten
    | hosts hq hip hset _ => exact .hosts ⟨_, _, _, hq, hip, hset⟩
    | failed hencrypt => exact .failed hencrypt
  · obtain rfl := outcome.responded.inj hout
    exact ⟨_, .plain, .certificate hserver hset⟩

end daemon

/-- **Where every reply comes from.** In every run of a daemon that began with an empty cache, the
cache is that of a history of answers that the daemon learnt at events of the run. Every reply to
a client is traced back to a message of that client, and it is that message refused, that message
failed (as it came, or as it was being sent when the network failed), the certificate of the server,
an address of the hosts file, what a provider answered to the request for this client, or an answer
learnt before the reply and not over yet, to the same name and type, with the id of the message and
the time that is left. -/
theorem daemon.reply_origin {d₀ d : daemon} {es : List daemon_event} {out : List daemon_output}
    {minttl : ℕ} (h₀ : d₀.Fresh) (hempty : d₀.responder.cache = Cache.empty minttl)
    (h : d₀.run es = .ok (d, out)) :
    (∃ ops, d.responder.cache = Cache.run minttl ops ∧
      ∀ op ∈ ops, ∃ t m, op = .store t m ∧ Learnt d₀ es t m) ∧
    ∀ i bytes, .replied i bytes ∈ out → Traced d₀ es minttl i bytes := by
  refine ⟨run_cache h₀ hempty h, ?_⟩
  refine run_rule (I := fun past _ seen => ∀ i bytes, .replied i bytes ∈ seen →
    Traced d₀ past minttl i bytes) (s := d₀) (fun _ _ hmem => absurd hmem List.not_mem_nil) ?_ h
  intro past s seen e s' new hpast hI hstep i bytes hmem
  rcases List.mem_append.mp hmem with hmem | hmem
  · exact (hI i bytes hmem).append [e]
  obtain ⟨ops, hcache, hops⟩ := run_cache h₀ hempty hpast
  rcases step_replies hstep hmem with ⟨env, p, q, r, henv, hq, hr⟩ |
    ⟨t, env, j, event, u, r, rfl, ht, rfl, hu⟩
  · -- the message came with this event
    obtain ⟨m, hopens, horigin⟩ := process_origin hcache hops hr
    exact ⟨past, e, [], s, seen, s', new, env, m, rfl, hpast, hstep, henv, hmem,
      ⟨s, e, new, .last hpast hstep, env, q, henv, hq, hopens⟩, horigin⟩
  · -- the message was forwarded before
    obtain ⟨d₁, e₁, new₁, p, req, htakes, hasks, hlife⟩ :=
      run_life h₀ hpast (List.mem_of_getElem? ht)
    obtain ⟨m, hpass, hm⟩ := upstream.step_passes hlife hu
    obtain ⟨-, -, sent, hsent, rfl⟩ := responder.pass_answer_downstream_cases hpass
    refine ⟨past, _, [], s, seen, s', new, env, req.message, rfl, hpast, hstep, rfl, hmem,
      ⟨d₁, e₁, new₁, htakes.append _, hasks⟩, ?_⟩
    rcases hm with ⟨io, x, hstage, hio, hquestion, rfl, hunsent⟩ |
      ⟨io, packet, hstage, hio, hpacket, hunfold⟩
    · dsimp only at hio hunsent
      rw [provider.renew_none] at hunsent
      subst hio
      exact .unsent ⟨env, j, io, t, rfl, ht, rfl, hstage, hquestion, hunsent⟩ hsent
    · dsimp only at hio hunfold
      rw [provider.renew_none] at hunfold
      subst hio
      exact .provider ⟨env, j, io, t, packet, rfl, ht, rfl, hstage, hpacket, hunfold⟩ hsent

/-- The reply to the question `a.` is traced back to it. -/
theorem daemon.reply_origin_sample : ∃ d out bytes,
    sampleDaemon.run [sampleDatagram] = .ok (d, out) ∧ .replied 0 bytes ∈ out ∧
      daemon.Traced sampleDaemon [sampleDatagram] 0 0 bytes := by
  obtain ⟨d, out, h, hout, -⟩ := sampleDaemon_run
  obtain ⟨bytes, hbytes⟩ := daemon.mem_answered.mp (show 0 ∈ daemon.answered out by simp [hout])
  exact ⟨d, out, bytes, h, hbytes, (daemon.reply_origin sampleDaemon_fresh rfl h).2 0 bytes hbytes⟩

end Cdns
