/-
What does not end the daemon.

An exception that leaves a callback ends the daemon, with all the requests of its clients. Whether
a callback throws depends on what comes from outside, and on what the daemon has kept of what came
before. `Orderly` says of an event that what comes with it is well-formed: the message of a client
if it is DNS at all, the answer of a provider, the files, and how the system takes what is sent. It
is about the event alone.

A daemon without a DNSCrypt part takes all orderly events, in any order and for ever
(`orderly_run`). What it keeps does no harm later (`Steady`): the entries of its cache can be walked
over, the addresses of its hosts file can be read, and the questions that are under way can be
reported as failed.
-/
import Cdns.CacheServe
import Cdns.Restart

set_option autoImplicit false

namespace Cdns

open Lib.Machine Lib.Storage

/-! ## Messages -/

namespace Query

/-- A message of a client that can be looked up, logged, passed on and reported as failed: it asks
one question of a known class for a name, and counts no answers. -/
structure IsQuestion (q : Query) : Prop where
  question : ∃ owner class_ type, q.get_question = .ok (owner, class_, type) ∧ owner ≠ [] ∧
    known_class class_
  ancount : q.header.ancount = 0

/-- An address can be appended to the question, and the answer be stored. -/
structure Extends (q : Query) : Prop where
  alone : q.header.nscount + q.header.arcount = 0
  room : q.size + 16 ≤ max_size

/-- A message of a provider that can be logged and stored, and served again. -/
structure IsAnswer (q : Query) : Prop where
  described : q.Described
  stored : Cache.storable q = true → ∃ owner class_ type,
    q.get_question = .ok (owner, class_, type) ∧
      (class_ = rr_class.internet.code → q.records.returns)

variable {q : Query}

theorem IsQuestion.answers_returns (h : q.IsQuestion) : q.answers.returns := by
  obtain ⟨⟨owner, class_, type, hq, -⟩, hcount⟩ := h
  obtain ⟨-, r, off, -, -, -, -, hqs, -⟩ := get_question_walk hq
  rw [answers, hqs, Result.ok_bind, hcount]
  exact Result.returns_ok _

/-- **A failed question is an answer.** -/
theorem IsQuestion.mark_servfail (h : q.IsQuestion) : q.mark_servfail.IsAnswer := by
  obtain ⟨⟨owner, class_, type, hq, -, hclass⟩, hcount⟩ := h
  obtain ⟨-, r, off, -, -, hr, -, hqs, -⟩ := get_question_walk hq
  have hheader : q.mark_servfail.header =
      { q.header with rcode := pkt_rcode.servfail.code, qr := true } := mark_header q .servfail
  have hcode : q.mark_servfail.rcode = pkt_rcode.servfail.code := congrArg message_header.rcode hheader
  have hagree : Agree q.mark_servfail q 12 := mark_agree q .servfail
  have hquestions : q.mark_servfail.questions = .ok ([r], off) := by
    rw [questions, hheader]
    exact (collect_question_agree hagree _).trans hqs
  refine ⟨⟨by rw [hcode]; decide, [r], off, [], off, hquestions, ?_, ?_, ?_⟩, ?_⟩
  · intro r' hr'
    rw [List.mem_singleton.mp hr', hr]
    exact hclass
  · rw [hheader, hcount]
    rfl
  · intro r' hr'
    exact absurd hr' List.not_mem_nil
  · intro hst
    -- a failure is not stored
    rw [Cache.storable_iff, hcode] at hst
    exact absurd hst.2 (by decide)

/-- An answer is an answer in any storage. -/
theorem IsAnswer.congr {q' : Query} (h : q.IsAnswer) (hagree : Agree q' q 0) (hsize : 12 ≤ q'.size) :
    q'.IsAnswer := by
  have hheader := header_congr hagree hsize
  have hcode : q'.rcode = q.rcode := congrArg message_header.rcode hheader
  have hquestions : q'.questions = q.questions := by
    rw [questions, questions, hheader]
    exact collect_question_agree (hagree.mono (Nat.zero_le _)) _
  obtain ⟨⟨hle, qs, off, rs, e, hqs, hknown, hrs, hprintable⟩, hstored⟩ := h
  refine ⟨⟨hcode.le.trans hle, qs, off, rs, e, hquestions.trans hqs, hknown, ?_, hprintable⟩, ?_⟩
  · rw [hheader, collect_agree (hagree.mono (Nat.zero_le _))]
    exact hrs
  · intro hst
    rw [get_question_congr hagree hsize, records_congr hagree hsize]
    apply hstored
    rw [Cache.storable_iff] at hst ⊢
    rw [hheader, hcode] at hst
    exact hst

/-- What is stored of an answer can be walked over. -/
theorem IsAnswer.parses (h : q.IsAnswer) (t : ℤ) : (Cache.Step.store t q).Parses := by
  intro k hk _
  obtain ⟨owner, type, hq, -⟩ := Cache.accepted_eq_some hk
  have hst : Cache.storable q = true := by
    unfold Cache.accepted at hk
    split_ifs at hk with hhead
    exact (Cache.storable_iff q).mpr hhead
  obtain ⟨owner', class_, type', hq', hrecords⟩ := h.stored hst
  obtain ⟨-, hclass, -⟩ := get_question_unique hq hq'
  exact hrecords hclass.symm

end Query

/-! ## What comes from outside -/

/-- The system during a callback: a reply is taken as a whole or not at all, files can be written,
and connections fail with a `net_error`. -/
structure Env.Orderly (net : Inet) (env : Env) : Prop where
  net : env.net = net
  reply : env.reply ≠ .part
  saved : env.saved = true
  created : ∀ e, env.created = some e → e.is_net_error = true

/-- The connection to a provider: a question is taken as a whole or not at all, and what is received
fails with a `net_error` or is an answer, in whatever storage it arrives. -/
structure Io.Orderly (io : Io) : Prop where
  sent : io.sent ≠ .part
  received : ∀ p storage, match io.receive p storage with
    | .error e => e.is_net_error = true
    | .ok q => q.IsAnswer

/-- The message of a client. Nothing is asked of a message that is not DNS. -/
def Query.Orderly (params : responder_parameters) (q : Query) : Prop :=
  q.is_dns = true → q.IsQuestion ∧ (params.hosts ≠ [] → q.Extends)

/-- The files at a reload: all of them can be read, and the addresses of the hosts file are
addresses. -/
structure daemon.Reading.Orderly (net : Inet) (params : responder_parameters)
    (x : daemon.Reading) : Prop where
  readable : responder.Readable x.disk params
  hosts : ∀ map, responder.hosts_of x.disk params = .ok map →
    ∀ a ∈ map, (address.of_text net a.2 0).returns

/-- **An event that brings nothing malformed.** -/
def daemon_event.Orderly (net : Inet) (params : responder_parameters) : daemon_event → Prop
  | .datagram env data _ => env.Orderly net ∧ ∃ m q, udp_receive data daemon.new_packet = .ok m ∧
      set_size m.bytes m.size = .ok q ∧ q.Orderly params
  | .connection accepted => accepted.isSome = true
  | .request env _ socket => env.Orderly net ∧
      match tcp_receive socket daemon.new_packet with
      | .error e => e.is_net_error = true
      | .ok (m, _) => ∃ q, set_size m.bytes m.size = .ok q ∧ q.Orderly params
  | .client_timeout _ => True
  | .upstream env _ event => env.Orderly net ∧ ∀ io, event = .ready io → io.Orderly
  | .certifier _ _ => True
  | .reload reading => reading.Orderly net params
  | .random_timer _ _ => True

/-! ## The responder -/

namespace responder

/-- **What a responder keeps does no harm**: it has no resolvers, every entry of its cache can be
served, and its hosts have addresses, if the parameters name a file of them. -/
structure Steady (net : Inet) (params : responder_parameters) (r : responder) : Prop where
  plain : r.Plain
  crypt : r.crypt = none
  cache : r.cache.AllServable
  hosts : ∀ a ∈ r.hosts, (address.of_text net a.2 0).returns
  unused : params.hosts = [] → r.hosts = []

section Steady

variable {net : Inet} {params : responder_parameters} {env : Env} {r r' : responder} {p : proto}
  {q : Query}

/-- Counting does no harm either. -/
theorem Steady.count (h : r.Steady net params) (processed blacklisted cached : ℕ) :
    Steady net params { r with
      processed_count := processed
      blacklisted_count := blacklisted
      cached_count := cached } :=
  ⟨⟨h.plain.dns_providers, h.plain.onion⟩, h.crypt, h.cache, h.hosts, h.unused⟩

/-- A message is sent as it is. -/
theorem Steady.encrypt_eq (h : r.Steady net params) (env : Env) (m : Message) :
    r.encrypt env m = .ok m.query := by
  unfold encrypt
  rw [h.crypt]
  rfl

theorem mem_of_hosts_response {name : Str} (h : r.hosts_response name ≠ []) :
    ∃ a ∈ r.hosts, a.2 = r.hosts_response name := by
  unfold hosts_response at h ⊢
  cases hlookup : r.hosts.lookup name with
  | none =>
      rw [hlookup] at h
      exact absurd rfl h
  | some ip =>
      obtain ⟨l₁, l₂, hsplit, -⟩ := List.lookup_eq_some_iff.mp hlookup
      refine ⟨(name, ip), ?_, rfl⟩
      rw [hsplit]
      simp

/-- **Every way of an orderly message can be followed.** -/
theorem Steady.route_returns (hr : r.Steady net params) (henv : env.Orderly net)
    {owner : Str} {class_ type : ℕ} (hq : q.get_question = .ok (owner, class_, type))
    (hquestion : q.IsQuestion) (hextends : params.hosts ≠ [] → q.Extends) :
    r.RouteReturns env p q owner class_ type (r.route_of env owner type) := by
  have hsends : Sends env p := Or.inr henv.reply
  cases hroute : r.route_of env owner type with
  | refused => exact hsends
  | cached e =>
      have hlive := live_of_route hroute
      unfold Cache.live at hlive
      exact ⟨hr.cache _ e (Option.filter_eq_some_iff.mp hlive).1, hsends⟩
  | hosts ip =>
      obtain ⟨rfl, hip⟩ := hosts_of_route hroute
      obtain ⟨a, ha, heq⟩ := mem_of_hosts_response hip
      have hused : params.hosts ≠ [] := by
        intro hnone
        rw [hr.unused hnone] at ha
        exact absurd ha List.not_mem_nil
      obtain ⟨halone, hroom⟩ := hextends hused
      have haddress := hr.hosts a ha
      rw [heq, ← henv.net] at haddress
      exact ⟨⟨haddress, hroom, hquestion.answers_returns, fun _ _ => halone,
        Or.inr (Or.inl henv.saved)⟩, hsends⟩
  | upstream =>
      obtain ⟨prov, hprov⟩ := r.random_provider_returns env hq
      unfold RouteReturns AskReturns
      dsimp only
      rw [hprov]
      cases prov with
      | none => exact hsends
      | some prov =>
          cases hcreated : env.created with
          | none => trivial
          | some e =>
              have hnet := henv.created e hcreated
              cases e with
              | net_error what => exact hsends
              | _ => exact absurd hnet (by simp [Exn.is_net_error])

/-- **An orderly message is processed.** -/
theorem Steady.process_returns (hr : r.Steady net params) (henv : env.Orderly net)
    (hq : q.Orderly params) : (r.process env ⟨p, .of_query q⟩).returns := by
  have hdns : (r.process_dns env ⟨p, .of_query q⟩).returns := by
    apply (process_dns_returns (m := .of_query q) ?_).mpr
    · intro hdns
      obtain ⟨hquestion, hextends⟩ := hq hdns
      obtain ⟨owner, class_, type, hq, hne, hclass⟩ := hquestion.question
      exact ⟨owner, class_, type, hq, hne, Or.inr hclass,
        hr.route_returns henv hq hquestion hextends⟩
    · rw [hr.encrypt_eq]
      exact Result.returns_ok _
  unfold process
  rw [hr.crypt]
  exact hdns

/-- What is stored does no harm, if it can be walked over. -/
theorem Steady.store (hr : r.Steady net params) (hq : (Cache.Step.store env.tnow q).Parses)
    (h : r.store env q = .ok r') : r'.Steady net params := by
  have hcache := store_cache h
  obtain ⟨c, -, h⟩ := Result.bind_eq_ok.mp h
  split_ifs at h
  obtain rfl := Except.ok.inj h
  refine ⟨⟨hr.plain.dns_providers, hr.plain.onion⟩, hr.crypt, ?_, hr.hosts, hr.unused⟩
  rw [hcache]
  exact Cache.take_servable hr.cache hq

/-- **Processing does no harm.** -/
theorem Steady.process (hr : r.Steady net params) {o : outcome}
    (h : r.process env ⟨p, .of_query q⟩ = .ok (r', o)) : r'.Steady net params := by
  rcases process_cases h with ⟨m, -, hdeals⟩ | ⟨s, answer, -, -, rfl, -⟩
  · cases hdeals with
    | dropped _ => exact hr
    | refused => exact hr.count _ _ _
    | cached _ _ _ => exact hr.count _ _ _
    | failed _ => exact hr.count _ _ _
    | forwarded _ _ => exact hr.count _ _ _
    | hosts _ _ hanswer hstored =>
        refine Steady.store (hr.count _ _ _) ?_ hstored
        -- a response was walked over when it was stored
        intro k _ hqr
        obtain ⟨a, -, hanswer⟩ := Result.bind_eq_ok.mp hanswer
        rw [Query.add_answer_header hanswer] at hqr
        exact absurd hqr (by simp [Query.answered_header])
  · exact hr

/-- **An answer is passed on**, to whatever client. -/
theorem Steady.pass_returns (hr : r.Steady net params) (henv : env.Orderly net) (inptr : incoming)
    {m : Message} (hm : m.query.IsAnswer) : (r.pass_answer_downstream env inptr m).returns := by
  obtain ⟨text, htext⟩ := (Query.short_info_returns env.net env.stack m.query).mpr
    ⟨hm.described.code, hm.described.records⟩
  have hstored : (r.store_answer env m.query).returns := by
    have hsaved : ∀ n : ℕ, r.cache_dir = [] ∨ env.saved = true ∨ n % 16 ≠ 0 :=
      fun n => Or.inr (Or.inl henv.saved)
    unfold store_answer
    split_ifs
    · rw [store_returns, StoreReturns]
      split_ifs with hst
      · obtain ⟨owner, class_, type, hq, hrecords⟩ := hm.stored hst
        exact ⟨owner, class_, type, hq, fun hclass => Or.inr (hrecords hclass), hsaved _⟩
      · exact hsaved _
    · exact Result.returns_ok _
  obtain ⟨r', hr'⟩ := hstored
  have hcrypt := store_answer_crypt hr'
  have hrespond : (r'.respond env { inptr with message := m }).returns := by
    have hencrypt : r'.encrypt env m = .ok m.query := by
      unfold encrypt
      rw [hcrypt, hr.crypt]
      rfl
    rw [respond, hencrypt, Result.ok_bind, Result.returns_bind_iff fun _ => Result.returns_ok _]
    exact (respond_returns env inptr.proto m m.query).mpr (Or.inr henv.reply)
  obtain ⟨bytes, hbytes⟩ := hrespond
  rw [pass_answer_downstream, htext, Result.ok_bind, hr', Result.ok_bind, hbytes]
  exact Result.returns_ok _

/-- **Passing an answer on does no harm.** -/
theorem Steady.pass (hr : r.Steady net params) {inptr : incoming} {m : Message}
    {bytes : List UInt8} (hm : (∃ x : Message, m = x.mark_servfail) ∨ m.query.IsAnswer)
    (h : r.pass_answer_downstream env inptr m = .ok (r', bytes)) : r'.Steady net params := by
  obtain ⟨-, -, h⟩ := Result.bind_eq_ok.mp h
  obtain ⟨r₁, hr₁, h⟩ := Result.bind_eq_ok.mp h
  obtain ⟨b, -, h⟩ := Result.bind_eq_ok.mp h
  obtain ⟨rfl, -⟩ := Prod.mk.inj (Except.ok.inj h)
  rcases hm with ⟨x, rfl⟩ | hm
  · rw [store_answer_servfail hr₁]
    exact hr
  · unfold store_answer at hr₁
    split_ifs at hr₁
    · exact hr.store (hm.parses _) hr₁
    · rw [← Except.ok.inj hr₁]
      exact hr

/-- **Reading orderly files does no harm.** -/
theorem Steady.reload (hr : r.Steady net params) {x : daemon.Reading} (hx : x.Orderly net params) :
    ∃ r', r.reload x.disk params = (r', none) ∧ r'.Steady net params := by
  have hnone : (r.reload x.disk params).2 = none := by
    rw [reload_eq]
    exact (reload_rest_returns_iff _ _ _).mpr hx.readable
  have hpair : r.reload x.disk params = ((r.reload x.disk params).1, none) := by
    rw [← hnone]
  obtain ⟨hcache, hcrypt, -⟩ := daemon.reload_keeps hpair
  have hhosts := reload_hosts hnone
  refine ⟨_, hpair, reload_plain hr.plain hpair, hcrypt.trans hr.crypt, ?_, hx.hosts _ hhosts, ?_⟩
  · rw [hcache]
    exact hr.cache
  · intro hempty
    rw [hosts_of, if_neg (not_not_intro hempty)] at hhosts
    exact (Except.ok.inj hhosts).symm

end Steady

end responder

/-! ## Requests to providers -/

/-- A question that is taken as a whole or not at all is sent, or fails with a `net_error`. -/
theorem Io.send_error {io : Io} (env : Env) (h : io.sent ≠ .part) {p : proto} {msg : Query} {e : Exn}
    (he : io.send p msg = .error e) : e.is_net_error = true := by
  cases p with
  | udp =>
      unfold Io.send at he
      dsimp only at he
      split at he
      · rw [← Except.error.inj he]
        rfl
      · split_ifs at he
        rw [← Except.error.inj he]
        rfl
  | tcp =>
      -- a reply that is taken like this gets out
      obtain ⟨u, hu⟩ := (respond_returns { env with reply := io.sent } .tcp (.of_query msg) msg).mpr
        (Or.inr h)
      have hsend : tcp_send io.sent.count (packet.of_bytes msg.wire) = .error e := he
      unfold incoming.respond at hu
      dsimp only at hu
      rw [hsend] at hu
      cases e with
      | net_error what => rfl
      | _ => exact absurd hu (by simp)

namespace upstream

/-- A request that does no harm: it goes to a plain provider, with the question of a client. -/
def Steady (u : upstream) : Prop :=
  ∃ p req, u.Life p req ∧ p.resolver = none ∧ req.message.query.IsQuestion

section Steady

variable {net : Inet} {params : responder_parameters} {env : Env} {r : responder} {u : upstream}

/-- A question is sent to a plain provider, or reported as failed. -/
theorem on_send_returns {α : Type} {pass : Message → Result α} {prov : Cdns.provider} {p : proto}
    {io : Io} {question : Message} (hprov : prov.resolver = none) (hio : io.sent ≠ .part)
    (hpass : (pass question.mark_servfail).returns) :
    (network_upstream.on_send pass env.S prov p io question).returns := by
  have hfailure : (network_upstream.pass_failure_downstream pass question).returns :=
    (network_upstream.pass_failure_downstream_returns (fun _ => Iff.rfl) question).mpr fun _ => hpass
  have hfold : prov.fold env.S io question = .ok question := by
    unfold provider.fold
    rw [hprov]
  unfold network_upstream.on_send
  cases io.link_over p with
  | in_progress => exact Result.returns_ok _
  | failed => exact hfailure
  | connected =>
      dsimp only
      split_ifs
      · rw [hfold, Result.ok_bind]
        cases hsend : io.send p question.query with
        | ok _ => exact Result.returns_ok _
        | error e =>
            have hnet := Io.send_error env hio hsend
            cases e with
            | net_error what => exact hfailure
            | _ => exact absurd hnet (by simp [Exn.is_net_error])
      · exact Result.returns_ok _

/-- **Every callback of a request returns.** -/
theorem Steady.callback_returns (hu : u.Steady) (hr : r.Steady net params) (henv : env.Orderly net)
    {io : Io} (hio : io.Orderly) : (u.callback env r io).returns := by
  obtain ⟨p, req, hlife, hplain, hquestion⟩ := hu
  have hprov : u.provider.resolver = none := hlife.plain.mpr hplain
  unfold callback
  cases hstage : u.stage with
  | closed => exact Result.returns_ok _
  | stopped => exact Result.returns_ok _
  | sending =>
      have hsent : u.question = req.message := by
        rw [hlife.sending hstage, provider.adapt_message, hplain]
      apply on_send_returns hprov hio.sent
      apply hr.pass_returns henv
      rw [hsent]
      exact hquestion.mark_servfail
  | receiving =>
      apply (network_upstream.on_receive_returns (fun _ => Iff.rfl) _ _ _ _ _).mpr
      unfold Receives
      cases io.link_over u.provider.net_proto with
      | in_progress => trivial
      | failed =>
          -- the question was cleared when it was sent
          intro h
          rw [hlife.receiving hstage] at h
          exact absurd h.1 (lt_irrefl 0)
      | connected =>
          have hreceived := hio.received u.provider.net_proto u.question.query
          dsimp only
          cases hreceive : io.receive u.provider.net_proto u.question.query with
          | error e =>
              rw [hreceive] at hreceived
              exact hreceived
          | ok q =>
              rw [hreceive] at hreceived
              refine ⟨{ u.question with query := q }, ?_, hr.pass_returns henv _ hreceived⟩
              unfold provider.unfold
              rw [hprov]

/-- **Every event of a request** leaves the request and the responder without harm. -/
theorem Steady.step (hu : u.Steady) (hr : r.Steady net params) (henv : env.Orderly net)
    {event : Cdns.event} (hio : ∀ io, event = .ready io → io.Orderly) :
    ∃ u' passed, u.step ⟨env, r, none, event⟩ = .ok (u', passed) ∧ u'.Steady ∧
      ∀ r' bytes, passed = some (r', bytes) → r'.Steady net params := by
  have hreturns : (u.step ⟨env, r, none, event⟩).returns := by
    unfold upstream.step
    dsimp only
    rw [provider.renew_none]
    cases event with
    | timeout => exact Result.returns_ok _
    | ready io =>
        obtain ⟨next, hnext⟩ := hu.callback_returns hr henv (hio io rfl)
        dsimp only
        rw [hnext, Result.ok_bind]
        rcases next with ⟨s, q⟩ | passed
        · exact Result.returns_ok _
        · exact Result.returns_ok _
  obtain ⟨⟨u', passed⟩, hstep⟩ := hreturns
  obtain ⟨p, req, hlife, hplain, hquestion⟩ := hu
  refine ⟨u', passed, hstep, ?_, ?_⟩
  · rw [step_eq_watch] at hstep
    obtain ⟨⟨u₁, x⟩, hwatch, hstep⟩ := Result.bind_eq_ok.mp hstep
    obtain ⟨rfl, -⟩ := Prod.mk.inj (Except.ok.inj hstep)
    exact ⟨p, req, (watch_cases hlife hwatch).1, hplain, hquestion⟩
  · intro r' bytes hpassed
    subst hpassed
    obtain ⟨m, hpass, hm⟩ := step_passes hlife hstep
    refine responder.Steady.pass hr ?_ hpass
    rcases hm with ⟨-, x, -, -, -, hx, -⟩ | ⟨io, q, -, hevent, hreceive, hunfold⟩
    · exact Or.inl ⟨x, hx⟩
    · have hreceived := (hio io hevent).received u.provider.net_proto u.question.query
      rw [hreceive] at hreceived
      unfold provider.unfold at hunfold
      rw [provider.renew_none, hlife.plain.mpr hplain] at hunfold
      rw [← Except.ok.inj hunfold]
      exact Or.inr hreceived

end Steady

end upstream

/-! ## The daemon -/

namespace daemon

/-- **The invariant**: nothing that the daemon keeps can make a later callback throw. -/
structure Steady (net : Inet) (params : responder_parameters) (d : daemon) : Prop where
  options : d.options = params
  timer : timeout.make params.timeout = .ok ()
  responder : d.responder.Steady net params
  certifiers : d.certifiers.elems = []
  tasks : ∀ t, some t ∈ d.upstream_requests → t.upstream.Steady

section Steady

variable {net : Inet} {params : responder_parameters} {env : Env} {d d' : daemon} {q : Query}

/-- Without a DNSCrypt part the responder is current. -/
theorem Steady.current_eq (h : d.Steady net params) : d.current = d.responder := by
  have hnone : ∀ (r : Cdns.responder) (f : crypt_part → crypt_part), r.crypt = none →
      { r with crypt := r.crypt.map f } = r := by
    intro r f hr
    obtain ⟨_, _, _, _, _, _, _, _, _, _, _, crypt⟩ := r
    dsimp only at hr
    rw [hr]
    rfl
  exact hnone _ _ h.responder.crypt

/-- The clients of a daemon do not matter. -/
theorem Steady.same (h : d.Steady net params) (hoptions : d'.options = d.options)
    (hresponder : d'.responder = d.responder) (hcertifiers : d'.certifiers = d.certifiers)
    (htasks : d'.upstream_requests = d.upstream_requests) : d'.Steady net params := by
  refine ⟨hoptions.trans h.options, h.timer, ?_, ?_, ?_⟩
  · rw [hresponder]
    exact h.responder
  · rw [hcertifiers]
    exact h.certifiers
  · rw [htasks]
    exact h.tasks

/-- The timer of a client's request can be made. -/
theorem Steady.timeout_make (h : d.Steady net params) :
    timeout.make d.options.timeout = .ok () := by
  rw [h.options]
  exact h.timer

/-- A message that is forwarded becomes a request that does no harm. -/
theorem Steady.forwarded (hd : d.Steady net params) (hq : q.Orderly params) {p : proto}
    {r : Cdns.responder} {u : Cdns.upstream}
    (h : d.responder.process env ⟨p, .of_query q⟩ = .ok (r, .forwarded u)) : u.Steady := by
  have hcrypt := hd.responder.crypt
  have hdns : q.is_dns = true := by
    by_contra hno
    unfold responder.process at h
    rw [hcrypt] at h
    dsimp only [Option.bind_none] at h
    rw [responder.process_dns, if_pos (by simpa [Message.of_query] using hno)] at h
    exact absurd (Prod.mk.inj (Except.ok.inj h)).2 (by simp)
  obtain ⟨-, m, prov, hopens, hchosen, -, rfl⟩ := responder.forwarded_cases h
  have hm : m = .of_query q := by
    cases hopens with
    | plain => rfl
    | encrypted hserver _ =>
        rw [hcrypt] at hserver
        exact absurd hserver (by simp)
  have hplain : prov.resolver = none := by
    rcases responder.random_provider_cases hchosen with ⟨-, honion⟩ | ⟨hmem, -⟩ | ⟨c, hc, -⟩
    · exact hd.responder.plain.onion prov honion
    · exact hd.responder.plain.dns_providers prov hmem
    · exact absurd (hcrypt.symm.trans hc) (by simp)
  refine ⟨prov, _, upstream.Life.create prov _, hplain, ?_⟩
  rw [hm]
  exact (hq hdns).1

/-- **An orderly message of a client.** -/
theorem Steady.process (hd : d.Steady net params) (henv : env.Orderly net) (hq : q.Orderly params)
    (i : ℕ) (p : proto) :
    ∃ d' out, d.process env i p q = .ok (d', out) ∧ d'.Steady net params := by
  have hreturns : (d.process env i p q).returns := by
    obtain ⟨⟨r, o⟩, hr⟩ := hd.responder.process_returns (p := p) henv hq
    unfold daemon.process
    dsimp only
    rw [hd.current_eq, hr, Result.ok_bind]
    cases o with
    | dropped => exact Result.returns_ok _
    | responded bytes => exact Result.returns_ok _
    | forwarded u => exact Result.returns_ok _
  obtain ⟨⟨d', out⟩, h⟩ := hreturns
  refine ⟨d', out, h, ?_⟩
  obtain ⟨r, o, hr, hcases⟩ := process_cases h
  rw [hd.current_eq] at hr
  have hresponder := hd.responder.process hr
  have htasks : ∀ t, some t ∈ d.collect env ⟨p, .of_query q⟩ → t.upstream.Steady := by
    intro t ht
    exact hd.tasks t ((collect_sublist env d _).subset ht)
  rcases hcases with ⟨-, -, rfl⟩ | ⟨_, -, -, rfl⟩ | ⟨u, rfl, -, rfl⟩
  · exact ⟨hd.options, hd.timer, hresponder, hd.certifiers, htasks⟩
  · exact ⟨hd.options, hd.timer, hresponder, hd.certifiers, htasks⟩
  · refine ⟨hd.options, hd.timer, hresponder, hd.certifiers, ?_⟩
    intro t ht
    rcases List.mem_append.mp ht with ht | ht
    · exact htasks t ht
    · obtain rfl := Option.some.inj (List.mem_singleton.mp ht)
      exact hd.forwarded hq hr

/-- **An orderly answer of a provider**, or a failure of the connection to it. -/
theorem Steady.on_upstream (hd : d.Steady net params) (henv : env.Orderly net) (j : ℕ)
    {event : Cdns.event} (hio : ∀ io, event = .ready io → io.Orderly) :
    ∃ d' out, d.on_upstream env j event = .ok (d', out) ∧ d'.Steady net params := by
  unfold daemon.on_upstream
  split
  · next t ht =>
    obtain ⟨u, passed, hstep, hu, hpassed⟩ :=
      (hd.tasks t (List.mem_of_getElem? ht)).step hd.responder henv hio
    have htasks : ∀ t', some t' ∈ d.upstream_requests.set j (some { t with upstream := u }) →
        t'.upstream.Steady := by
      intro t' ht'
      rcases List.mem_or_eq_of_mem_set ht' with ht' | ht'
      · exact hd.tasks t' ht'
      · rw [Option.some.inj ht']
        exact hu
    rw [hd.current_eq, hstep, Result.ok_bind]
    cases passed with
    | none => exact ⟨_, _, rfl, hd.options, hd.timer, hd.responder, hd.certifiers, htasks⟩
    | some x =>
        obtain ⟨r, bytes⟩ := x
        exact ⟨_, _, rfl, hd.options, hd.timer, hpassed r bytes rfl, hd.certifiers, htasks⟩
  · exact ⟨d, [], rfl, hd⟩

/-- **One callback** of an orderly event. -/
theorem Steady.step (hd : d.Steady net params) {e : daemon_event} (he : e.Orderly net params) :
    ∃ d' out, d.step e = .ok (d', out) ∧ d'.Steady net params := by
  cases e with
  | datagram env data address =>
      obtain ⟨henv, m, q, hm, hq, horderly⟩ := he
      have hmade : (d.make_udp_incoming address).Steady net params := hd.same rfl rfl rfl rfl
      show ∃ d' out, d.on_datagram env data address = .ok (d', out) ∧ d'.Steady net params
      rw [on_datagram, hd.timeout_make, Result.ok_bind, hm, Result.ok_bind, hq, Result.ok_bind,
        create_response, if_pos]
      · exact hmade.process henv horderly _ _
      · simp [make_udp_incoming]
  | connection accepted =>
      obtain ⟨address, rfl⟩ := Option.isSome_iff_exists.mp he
      have hmade : (d.make_tcp_incoming address).Steady net params := hd.same rfl rfl rfl rfl
      show ∃ d' out, d.on_connection (some address) = .ok (d', out) ∧ d'.Steady net params
      rw [on_connection, hd.timeout_make, Result.ok_bind]
      exact ⟨_, _, rfl, hmade⟩
  | request env i socket =>
      obtain ⟨henv, hsocket⟩ := he
      show ∃ d' out, d.on_request env i socket = .ok (d', out) ∧ d'.Steady net params
      unfold on_request
      split_ifs with hactive
      · cases hreceive : tcp_receive socket new_packet with
        | error e =>
            rw [hreceive] at hsocket
            cases e with
            | net_error what => exact ⟨_, _, rfl, hd.same rfl rfl rfl rfl⟩
            | _ => exact absurd hsocket (by simp [Exn.is_net_error])
        | ok x =>
            obtain ⟨m, rest⟩ := x
            rw [hreceive] at hsocket
            obtain ⟨q, hq, horderly⟩ := hsocket
            have hmade : (d.stop_receiving i).Steady net params := hd.same rfl rfl rfl rfl
            dsimp only
            rw [hq, Result.ok_bind, create_response, if_pos hactive.2]
            exact hmade.process henv horderly _ _
      · exact ⟨d, [], rfl, hd⟩
  | client_timeout i => exact ⟨_, _, rfl, hd.same rfl rfl rfl rfl⟩
  | upstream env j event => exact hd.on_upstream he.1 j he.2
  | certifier k event =>
      -- there is no certifier
      have hnone : d.certifiers.lookup k = none := by
        unfold Lib.Keyed.KeyedSet.lookup
        rw [hd.certifiers]
        rfl
      show ∃ d' out, d.on_certifier k event = .ok (d', out) ∧ d'.Steady net params
      rw [on_certifier, hnone]
      exact ⟨d, [], rfl, hd⟩
  | reload x =>
      obtain ⟨r, hreload, hr⟩ := hd.responder.reload he
      have hd' : d.reload x = .ok { d with responder := r } := by
        rw [reload, hd.options, hreload]
        dsimp only
        rw [hr.crypt, if_neg (by simp)]
      show ∃ d' out, (d.reload x >>= fun d => .ok (d, [])) = .ok (d', out) ∧ d'.Steady net params
      rw [hd', Result.ok_bind]
      exact ⟨_, _, rfl, hd.options, hd.timer, hr, hd.certifiers, hd.tasks⟩
  | random_timer providers_saved cache_saved =>
      show ∃ d' out, d.on_random_timer providers_saved cache_saved = .ok (d', out) ∧
        d'.Steady net params
      rw [on_random_timer, hd.responder.crypt, if_pos (by simp)]
      exact ⟨d, [], rfl, hd⟩

/-- **A whole life** of orderly events. -/
theorem Steady.run (hd : d.Steady net params) {es : List daemon_event}
    (hes : ∀ e ∈ es, e.Orderly net params) :
    ∃ d' out, d.run es = .ok (d', out) ∧ d'.Steady net params :=
  run_returns (I := Steady net params) (T := daemon_event.Orderly net params)
    (fun hd he => hd.step he) hd hes

end Steady

/-! ## Lives -/

/-- **A daemon without a DNSCrypt part, over its restarts.** The first one starts with a cache that
can be served. A later one finds the file that the one before has written after a life of orderly
events, and may have other parameters and other files. No timeout of theirs is too low. -/
inductive Lineage (net : Inet) : start_parameters → daemon → Prop where
  | first {x : Startup} {params : start_parameters} {d : daemon}
      (timer : timeout.make params.timeout = .ok ())
      (reading : x.reading.Orderly net params.toresponder_parameters)
      (made : make x params = .ok d) (cache : d.responder.cache.AllServable) : Lineage net params d
  | next {params params' : start_parameters} {d₀ d d' : daemon} {es : List daemon_event}
      {out : List daemon_output} {ents : List cache_entry} {file : List UInt8} {x : Startup}
      (before : Lineage net params d₀)
      (orderly : ∀ e ∈ es, e.Orderly net params.toresponder_parameters) (clock : InClock es)
      (lived : d₀.run es = .ok (d, out)) (entries : ents.Perm d.responder.cache.entries.elems)
      (size : ents.length < 2 ^ 64) (finished : d.finish ents true = .ok (some file))
      (cachedir : params'.cachedir ≠ [])
      (found : x.binaries (responder.cache_file params'.cachedir) = some file)
      (timer : timeout.make params'.timeout = .ok ())
      (reading : x.reading.Orderly net params'.toresponder_parameters)
      (made : make x params' = .ok d') : Lineage net params' d'

section Lives

variable {net : Inet} {params : start_parameters} {d d₀ : daemon} {es : List daemon_event}

theorem Lineage.made (h : Lineage net params d) : ∃ x, Made x params d := by
  cases h with
  | first _ _ hmade _ => exact ⟨_, Or.inl hmade⟩
  | next _ _ _ _ _ _ _ _ _ _ _ hmade => exact ⟨_, Or.inl hmade⟩

end Lives

end daemon

end Cdns
