/-
What a client hears of a network that fails.

`upstream::pass_failure_downstream` answers with the question that the request holds at
that time. This is the question of the client until it is sent. `fold` has replaced it
by an encrypted one when sending fails, and `set_size (0)` has emptied it when receiving
does. `Fails` are the four points at which the callbacks handle a `net_error`, and the
client gets its query back, marked with SERVFAIL, exactly at those where the question is
still there (`failure_reported_iff`).
-/
import Cdns.Passing

set_option autoImplicit false

namespace Cdns

open Lib.Storage

/-! ## Failed queries -/

/-- The message is the query, marked as a response with the code SERVFAIL. -/
def Query.Servfail (q m : Query) : Prop :=
  m.header = { q.header with rcode := pkt_rcode.servfail.code, qr := true } ∧ Agree m q 12

/-- A resolver takes a copy of the query, which differs behind its end only. -/
theorem provider.adapt_message_agree (p : provider) (m : Message) :
    Query.Agree (p.adapt_message m).query m.query 0 := by
  unfold adapt_message
  split
  · exact ⟨rfl, fun _ _ _ => rfl⟩
  · exact Cache.restored_agree m.query

/-! ## Encrypted questions -/

theorem detail.pad_buffer_le {buf buf' : Buffer} {base len max_len len' : ℕ} {rnd : ℕ → ℕ}
    (h : pad_buffer buf base len max_len rnd = .ok (buf', len')) : len ≤ len' := by
  unfold pad_buffer at h
  dsimp only at h
  split_ifs at h with h₁ h₂
  · exact (Prod.mk.inj (Except.ok.inj h)).2.le
  · obtain ⟨b₁, -, h⟩ := Result.bind_eq_ok.mp h
    obtain ⟨b₂, -, h⟩ := Result.bind_eq_ok.mp h
    rw [← (Prod.mk.inj (Except.ok.inj h)).2]
    omega
  · obtain ⟨b₁, -, h⟩ := Result.bind_eq_ok.mp h
    obtain ⟨b₂, -, h⟩ := Result.bind_eq_ok.mp h
    rw [← (Prod.mk.inj (Except.ok.inj h)).2]
    omega

/-- An encrypted question is longer than the question. -/
theorem encryptor_data.curve_size {S : Sodium} {enc : encryptor_data} {rnd : ℕ → ℕ} {n : nonce}
    {q c : Query} (h : enc.curve S rnd n q = .ok c) : q.size < c.size := by
  have e₁ : detail.query_head_size = 68 := rfl
  unfold curve at h
  dsimp only at h
  split_ifs at h
  obtain ⟨b₁, -, h⟩ := Result.bind_eq_ok.mp h
  obtain ⟨⟨b₂, len⟩, hpad, h⟩ := Result.bind_eq_ok.mp h
  obtain ⟨⟨output, key⟩, -, h⟩ := Result.bind_eq_ok.mp h
  obtain ⟨b₃, -, h⟩ := Result.bind_eq_ok.mp h
  obtain ⟨b₄, -, h⟩ := Result.bind_eq_ok.mp h
  dsimp only at h
  split_ifs at h
  have hsize := (eq_of_set_size h).2
  have hle := detail.pad_buffer_le hpad
  omega

theorem provider.fold_size {S : Sodium} {p : provider} {io : Io} {m m' : Message}
    (hp : p.resolver ≠ none) (h : p.fold S io m = .ok m') : m.query.size < m'.query.size := by
  unfold fold at h
  split at h
  · next hnone => exact absurd hnone hp
  · split at h
    · obtain ⟨c, hc, h⟩ := Result.bind_eq_ok.mp h
      rw [← Except.ok.inj h]
      exact encryptor_data.curve_size hc
    · exact absurd h (by simp)

/-! ## Failures -/

namespace upstream

/-- The network fails with a `net_error`: while a connection is made or the question is
sent, or on the connection or in the call that receives the answer. -/
def Fails (u : upstream) (t : moment) : Prop :=
  ∃ io, t.event = .ready io ∧
    match u.stage with
    | .sending =>
        io.link_over u.provider.net_proto = .failed ∨
          io.link_over u.provider.net_proto = .connected ∧ ∃ m what,
            (u.provider.renew t.renewed).fold t.env.S io u.question = .ok m ∧
            io.send u.provider.net_proto m.query = .error (.net_error what)
    | .receiving =>
        io.link_over u.provider.net_proto = .failed ∨
          io.link_over u.provider.net_proto = .connected ∧ ∃ what,
            io.receive u.provider.net_proto u.question.query = .error (.net_error what)
    | .stopped => False
    | .closed => False

/-- The client gets one response over the whole life: its query, marked with SERVFAIL. -/
def Reported (u : upstream) (q : Query) (ts : List moment) : Prop :=
  ∃ x, u.log ts = [x] ∧ u.replies ts = [x.bytes] ∧ q.Servfail x.message.query

section Failure

variable {p : Cdns.provider} {req : incoming} {u : upstream} {t : moment} {io : Io}

/-- In a callback, a failure is passed on with the question `m`. -/
def FailsWith (u : upstream) (t : moment) (io : Io) (m : Message) : Prop :=
  t.event = .ready io ∧
    ({ u with provider := u.provider.renew t.renewed } : upstream).callback_observed t.env
        t.responder io =
      network_upstream.pass_failure_downstream
        (network_upstream.observed (t.responder.pass_answer_downstream t.env u.client)) m

/-- **What a failure meets**: the question of the client, an encrypted question that is
longer, or no question at all. -/
theorem fails_cases (hu : u.Life p req) (hpos : 0 < (p.adapt_message req.message).query.size)
    (hfail : u.Fails t) : ∃ io m, u.FailsWith t io m ∧
    ((u.stage = .sending ∧ m = p.adapt_message req.message ∧
        (p.resolver = none ∨ io.link_over p.net_proto = .failed)) ∨
      (u.stage = .sending ∧ p.resolver ≠ none ∧ io.link_over p.net_proto = .connected ∧
        (p.adapt_message req.message).query.size < m.query.size) ∨
      (u.stage = .receiving ∧ m.query.size = 0)) := by
  obtain ⟨io, hio, hfail⟩ := hfail
  have hproto : (u.provider.renew t.renewed).net_proto = u.provider.net_proto := rfl
  cases hstage : u.stage with
  | sending =>
      rw [hstage] at hfail
      have hquestion := hu.sending hstage
      rcases hfail with hlink | ⟨hlink, m, what, hfold, hsend⟩
      · refine ⟨io, u.question, ⟨hio, ?_⟩, Or.inl ⟨rfl, hquestion, Or.inr ?_⟩⟩
        · rw [callback_observed, hstage]
          dsimp only [network_upstream.on_send]
          rw [hproto, hlink]
        · rw [← hu.proto]
          exact hlink
      · have hcall : u.FailsWith t io m := by
          refine ⟨hio, ?_⟩
          rw [callback_observed, hstage]
          dsimp only [network_upstream.on_send]
          rw [hproto, hlink]
          dsimp only
          rw [if_pos (by rw [hquestion]; exact hpos), hfold, Result.ok_bind, hsend]
        refine ⟨io, m, hcall, ?_⟩
        by_cases hplain : p.resolver = none
        · -- nothing was encrypted
          have hnone := (provider.renew_resolver u.provider t.renewed).mpr (hu.plain.mpr hplain)
          rw [provider.fold, hnone] at hfold
          refine Or.inl ⟨rfl, ?_, Or.inl hplain⟩
          rw [← Except.ok.inj hfold]
          exact hquestion
        · have hsome : (u.provider.renew t.renewed).resolver ≠ none := by
            rw [Ne, provider.renew_resolver, hu.plain]
            exact hplain
          refine Or.inr (Or.inl ⟨rfl, hplain, ?_, ?_⟩)
          · rw [← hu.proto]
            exact hlink
          · rw [← hquestion]
            exact provider.fold_size hsome hfold
  | receiving =>
      rw [hstage] at hfail
      have hempty := hu.receiving hstage
      rcases hfail with hlink | ⟨hlink, what, hrecv⟩
      · refine ⟨io, u.question, ⟨hio, ?_⟩, Or.inr (Or.inr ⟨rfl, hempty⟩)⟩
        rw [callback_observed, hstage]
        dsimp only [network_upstream.on_receive]
        rw [hproto, hlink]
      · refine ⟨io, u.question.clear, ⟨hio, ?_⟩, Or.inr (Or.inr ⟨rfl, rfl⟩)⟩
        rw [callback_observed, hstage]
        dsimp only [network_upstream.on_receive]
        rw [hproto, hlink]
        dsimp only
        rw [hrecv]
  | stopped =>
      rw [hstage] at hfail
      exact absurd hfail id
  | closed =>
      rw [hstage] at hfail
      exact absurd hfail id

/-- The replies follow from the log. -/
theorem reported_iff (u : upstream) (q : Query) (ts : List moment) :
    u.Reported q ts ↔ ∃ x, u.log ts = [x] ∧ q.Servfail x.message.query := by
  constructor
  · rintro ⟨x, hlog, -, hserv⟩
    exact ⟨x, hlog, hserv⟩
  · rintro ⟨x, hlog, hserv⟩
    refine ⟨x, hlog, ?_, hserv⟩
    rw [replies_eq_log, hlog]
    rfl

/-- **What a failure becomes**: a report, if the question is one, can be passed on and is
that of the client. -/
theorem reported_of_failure {m : Message} (hu : u.Life p req) (h : u.FailsWith t io m) (q : Query)
    (ts : List moment) :
    u.Reported q (t :: ts) ↔ (m.query.size > 0 ∧ m.query.is_dns = true) ∧
      (t.responder.pass_answer_downstream t.env req m.mark_servfail).returns ∧
      q.Servfail m.query.mark_servfail := by
  -- the request is closed in any case
  have hrest : (⟨u.provider.renew t.renewed, u.question, req, .closed⟩ : upstream).log ts = [] := by
    rw [← hu.client]
    exact log_of_closed ts (hu.renew t.renewed).close rfl
  rw [reported_iff, log, watch, h.1]
  dsimp only
  rw [h.2, hu.client, network_upstream.pass_failure_downstream]
  by_cases hdns : m.query.size > 0 ∧ m.query.is_dns = true
  · rw [if_pos hdns, network_upstream.observed]
    cases t.responder.pass_answer_downstream t.env req m.mark_servfail with
    | error e =>
        refine iff_of_false ?_ fun h => Result.not_returns_error _ h.2.1
        rintro ⟨x, hlog, -⟩
        exact absurd hlog (by simp)
    | ok a =>
        simp only [Result.ok_bind, Option.map_some, Option.toList_some]
        rw [hrest]
        constructor
        · rintro ⟨x, hlog, hserv⟩
          rw [← (List.cons.inj hlog).1] at hserv
          exact ⟨hdns, Result.returns_ok _, hserv⟩
        · rintro ⟨-, -, hserv⟩
          exact ⟨_, rfl, hserv⟩
  · rw [if_neg hdns]
    refine iff_of_false ?_ fun h => hdns h.1
    rintro ⟨x, hlog, -⟩
    simp only [Result.ok_bind, Option.map_none, Option.toList_none, List.nil_append] at hlog
    rw [hrest] at hlog
    exact absurd hlog (by simp)

/-- The question of the client, marked with SERVFAIL, is its query marked with SERVFAIL. -/
theorem servfail_adapt_message (p : Cdns.provider) {m : Message} (hsize : 12 ≤ m.query.size) :
    m.query.Servfail (p.adapt_message m).query.mark_servfail := by
  have hagree := p.adapt_message_agree m
  have hmark := Query.mark_agree (p.adapt_message m).query .servfail
  refine ⟨?_, hmark.1.trans hagree.1, fun i hi hlt => ?_⟩
  · have hheader := Query.header_congr hagree (by rw [hagree.1]; exact hsize)
    rw [Query.mark_servfail, Query.mark_header, hheader]
  · exact (hmark.2 i hi hlt).trans (hagree.2 i (Nat.zero_le _) (by rw [← hmark.1]; exact hlt))

end Failure

/-- **When a failure is reported.** For every query that is accepted and every provider,
at every point of every life at which the network fails: the client gets exactly one
response, its query with the code SERVFAIL, if and only if the query was not sent yet,
it was not encrypted yet, since the connection failed or the provider is a plain one, and
the response can be passed on. -/
theorem failure_reported_iff {p : Cdns.provider} {req : incoming} {ts : List moment}
    {u : upstream} {t : moment} (hS : t.env.S.Lawful) (hseals : ∀ c, (t.env.S.box c).Seals)
    (hdns : req.message.query.is_dns = true) (hreach : (create p req).after ts = some u)
    (hfail : u.Fails t) :
    (∀ ts', (create p req).Reported req.message.query (ts ++ t :: ts')) ↔
      u.stage = .sending ∧
      (p.resolver = none ∨ ∃ io, t.event = .ready io ∧ io.link_over p.net_proto = .failed) ∧
      t.responder.AnswerReturns t.env req (p.adapt_message req.message).mark_servfail := by
  obtain ⟨hu, -, hsilent⟩ := after_life (Life.create p req) hreach
  have hsize := Query.size_of_is_dns hdns
  have hagree := p.adapt_message_agree req.message
  have hlong : 15 ≤ (p.adapt_message req.message).query.size := by
    rw [hagree.1]
    exact hsize
  obtain ⟨io, m, hcall, hcases⟩ := fails_cases hu (by omega) hfail
  -- nothing was passed on before
  have hopen : u.stage ≠ .closed := by
    rcases hcases with ⟨hstage, -⟩ | ⟨hstage, -⟩ | ⟨hstage, -⟩
    all_goals
      rw [hstage]
      simp
  have hreport : ∀ ts', (create p req).Reported req.message.query (ts ++ t :: ts') ↔
      (m.query.size > 0 ∧ m.query.is_dns = true) ∧
        (t.responder.pass_answer_downstream t.env req m.mark_servfail).returns ∧
        req.message.query.Servfail m.query.mark_servfail := by
    intro ts'
    rw [← reported_of_failure hu hcall _ ts', reported_iff, reported_iff, log_append hreach,
      hsilent hopen, List.nil_append]
  rw [forall_congr' hreport, forall_const]
  rcases hcases with ⟨hstage, rfl, hplain⟩ | ⟨hstage, hresolver, hlink, hgrown⟩ | ⟨hstage, hempty⟩
  · -- the question is still there
    rw [responder.pass_answer_downstream_returns hS hseals]
    constructor
    · rintro ⟨-, hret, -⟩
      exact ⟨hstage, hplain.imp_right fun hlink => ⟨io, hcall.1, hlink⟩, hret⟩
    · rintro ⟨-, -, hret⟩
      refine ⟨⟨by omega, ?_⟩, hret, servfail_adapt_message p (by omega)⟩
      rw [Query.is_dns_congr hagree (by omega)]
      exact hdns
  · -- what was encrypted is too long to be the query
    refine iff_of_false ?_ ?_
    · rintro ⟨-, -, -, hmark⟩
      have hlength : m.query.size = req.message.query.size := hmark.1
      rw [← hagree.1] at hlength
      omega
    · rintro ⟨-, hor, -⟩
      rcases hor with hnone | ⟨io', hio', hfailed⟩
      · exact hresolver hnone
      · rw [← event.ready.inj (hcall.1.symm.trans hio'), hlink] at hfailed
        exact absurd hfailed (by simp)
  · -- the question was cleared
    refine iff_of_false ?_ ?_
    · rintro ⟨⟨hpos, -⟩, -⟩
      omega
    · rintro ⟨hsending, -⟩
      rw [hstage] at hsending
      exact absurd hsending (by simp)

/-! ### A failure that is reported, and one that is not -/

/-- A callback in which the network fails. -/
def sampleFailure : moment :=
  ⟨sampleEnv, sampleResponder, none,
    .ready { sampleIo [] with sent := .failed, datagram := none }⟩

/-- The query cannot be sent to a plain provider, and the client hears of it. -/
theorem failure_reported_iff_send : (create sampleProvider sampleRequest).Fails sampleFailure ∧
    ∀ ts, (create sampleProvider sampleRequest).Reported sampleRequest.message.query
      ([] ++ sampleFailure :: ts) := by
  have hfails : (create sampleProvider sampleRequest).Fails sampleFailure :=
    ⟨_, rfl, Or.inr ⟨rfl, _, _, rfl, rfl⟩⟩
  refine ⟨hfails, (@failure_reported_iff sampleProvider sampleRequest [] _ sampleFailure
    Sodium.tagged_lawful Sodium.tagged_seals (by decide) rfl hfails).mpr ⟨rfl, Or.inl rfl, ?_⟩⟩
  refine ⟨⟨by decide, _, _, _, _, rfl, ?_, rfl, ?_⟩, ?_, ?_, Or.inl rfl⟩
  · intro r hr
    rw [List.mem_singleton.mp hr]
    decide
  · exact fun r hr => absurd hr (by simp)
  · exact fun h => absurd h (by decide)
  · intro s key n hs
    have hnone : sampleResponder.crypt.bind crypt_part.server = none := rfl
    exact absurd (hnone.symm.trans hs) (by simp)

/-- **A failure to receive**: the query was sent and the question is empty, so the client
hears nothing. -/
theorem failure_unreported : ∃ u, sampleRequest.message.query.is_dns = true ∧
    (create sampleProvider sampleRequest).after [samplePlain []] = some u ∧
    u.Fails sampleFailure ∧ ¬ (create sampleProvider sampleRequest).Reported
      sampleRequest.message.query ([samplePlain []] ++ sampleFailure :: []) := by
  refine ⟨_, by decide, rfl, ⟨_, rfl, Or.inr ⟨rfl, _, rfl⟩⟩, ?_⟩
  rintro ⟨x, hlog, -⟩
  have hsilent : (create sampleProvider sampleRequest).log
      ([samplePlain []] ++ sampleFailure :: []) = [] := rfl
  rw [hsilent] at hlog
  exact absurd hlog (by simp)

end upstream

end Cdns
