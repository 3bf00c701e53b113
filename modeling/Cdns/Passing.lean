/-
What is passed downstream in the life of a request, message by message.

`upstream.watch` is a moment that keeps what was passed: the message, the bytes sent for
it and the responder before and after. `upstream.log` is a whole life of them, and
the replies are what it says was sent (`replies_eq_log`). `Life` is the invariant of a
request to a provider: it holds the question of its client until it is sent, and nothing
after that.

Nothing on the way compares a packet that arrives with the question. The replies answer
the question, and so does what goes into the cache, exactly when the packets do that come
while the request waits (`log_answers_iff`).
-/
import Cdns.CacheServe
import Cdns.Confidential

set_option autoImplicit false

namespace Cdns

open Lib.Storage

/-! ## Watching a callback -/

/-- Changes what was passed. -/
def progress.map {α β : Type} (f : α → β) : progress α → progress β
  | .going s question => .going s question
  | .over passed => .over (passed.map f)

namespace network_upstream

variable {α : Type} {pass : Message → Result α} {S : Sodium} {provider_ptr : provider} {p : proto}
  {io : Io} {question : Message} {next : progress α}

/-- `pass_answer_downstream`, with the message that it was given. -/
def observed (pass : Message → Result α) (m : Message) : Result (Message × α) := do
  let a ← pass m
  .ok (m, a)

theorem observed_eq_ok {m m' : Message} {a : α} (h : observed pass m = .ok (m', a)) :
    m' = m ∧ pass m = .ok a := by
  obtain ⟨a', ha', h⟩ := Result.bind_eq_ok.mp h
  obtain ⟨rfl, rfl⟩ := Prod.mk.inj (Except.ok.inj h)
  exact ⟨rfl, ha'⟩

theorem forward_observed (pass : Message → Result α) (n : progress Message) :
    n.forward pass = (do let n ← n.forward (observed pass); .ok (n.map Prod.snd)) := by
  rcases n with ⟨st, q⟩ | passed
  · rfl
  · cases passed with
    | none => rfl
    | some m =>
        unfold progress.forward observed
        dsimp only
        cases pass m with
        | error e => rfl
        | ok a => rfl

/-- Watching does not change what `on_send` does. -/
theorem on_send_observed (pass : Message → Result α) (S : Sodium) (provider_ptr : provider)
    (p : proto) (io : Io) (question : Message) :
    on_send pass S provider_ptr p io question =
      (do let n ← on_send (observed pass) S provider_ptr p io question; .ok (n.map Prod.snd)) := by
  rw [on_send_eq pass, on_send_eq (observed pass), bind_assoc]
  exact congrArg _ (funext (forward_observed pass))

/-- Nor what `on_receive` does. -/
theorem on_receive_observed (pass : Message → Result α) (S : Sodium) (provider_ptr : provider)
    (p : proto) (io : Io) (question : Message) :
    on_receive pass S provider_ptr p io question =
      (do let n ← on_receive (observed pass) S provider_ptr p io question; .ok (n.map Prod.snd)) := by
  rw [on_receive_eq pass, on_receive_eq (observed pass), bind_assoc]
  exact congrArg _ (funext (forward_observed pass))

/-! ## What a callback can do -/

/-- A question that was cleared is not passed on. -/
theorem pass_failure_downstream_of_empty (h : question.query.size = 0) :
    pass_failure_downstream pass question = .ok (.over none) := by
  unfold pass_failure_downstream
  rw [if_neg]
  omega

/-- **What `on_receive` can do** when the question was cleared: it waits, it stops, or it
passes on what it received. -/
theorem on_receive_cases (hempty : question.query.size = 0)
    (h : on_receive pass S provider_ptr p io question = .ok next) :
    next = .going .receiving question ∨ next = .over none ∨
      ∃ q m a, io.link_over p = .connected ∧ io.receive p question.query = .ok q ∧
        provider_ptr.unfold S { question with query := q } = .ok m ∧ pass m = .ok a ∧
        next = .over (some a) := by
  unfold on_receive at h
  split at h
  · exact Or.inl (Except.ok.inj h).symm
  · rw [pass_failure_downstream_of_empty hempty] at h
    exact Or.inr (Or.inl (Except.ok.inj h).symm)
  · next hlink =>
    split at h
    · rw [@pass_failure_downstream_of_empty _ pass question.clear rfl] at h
      exact Or.inr (Or.inl (Except.ok.inj h).symm)
    · exact absurd h (by simp)
    · next q hq =>
      obtain ⟨m, hm, h⟩ := Result.bind_eq_ok.mp h
      obtain ⟨a, ha, h⟩ := Result.bind_eq_ok.mp h
      exact Or.inr (Or.inr ⟨q, m, a, hlink, hq, hm, ha, (Except.ok.inj h).symm⟩)

end network_upstream

/-! ## The log of a life -/

/-- A message that was passed on to a client. -/
structure passing where
  /-- the callback that passed it -/
  stage : Cdns.stage
  /-- the message, before it is encrypted for a client -/
  message : Message
  before : responder
  after : responder
  /-- what was sent -/
  bytes : List UInt8

namespace upstream

/-- The callback, watched. -/
def callback_observed (env : Env) (r : responder) (u : upstream) (io : Io) :
    Result (progress (Message × responder × List UInt8)) :=
  let pass := network_upstream.observed (r.pass_answer_downstream env u.client)
  match u.stage with
  | .sending =>
      network_upstream.on_send pass env.S u.provider u.provider.net_proto io u.question
  | .receiving =>
      network_upstream.on_receive pass env.S u.provider u.provider.net_proto io u.question
  | .stopped => .ok (.going .stopped u.question)
  | .closed => .ok (.over none)

/-- One moment, watched. -/
def watch (u : upstream) (t : moment) : Result (upstream × Option passing) :=
  let u := { u with provider := u.provider.renew t.renewed }
  match t.event with
  | .timeout => .ok ({ u with stage := .closed }, none)
  | .ready io => do
      let next ← u.callback_observed t.env t.responder io
      match next with
      | .going s q => .ok ({ u with stage := s, question := q }, none)
      | .over passed =>
          .ok ({ u with stage := .closed }, passed.map fun a =>
            ⟨u.stage, a.1, t.responder, a.2.1, a.2.2⟩)

/-- What was passed on over a whole life, up to an exception that nothing catches. -/
def log (u : upstream) : List moment → List passing
  | [] => []
  | t :: ts =>
      match u.watch t with
      | .error _ => []
      | .ok (u', passed) => passed.toList ++ log u' ts

/-- The request after some moments, if nothing was thrown. -/
def after (u : upstream) : List moment → Option upstream
  | [] => some u
  | t :: ts =>
      match u.watch t with
      | .error _ => none
      | .ok (u', _) => after u' ts

theorem callback_observed_eq (env : Env) (r : responder) (u : upstream) (io : Io) :
    u.callback env r io =
      (do let n ← u.callback_observed env r io; .ok (n.map Prod.snd)) := by
  unfold callback callback_observed
  cases u.stage with
  | sending => exact network_upstream.on_send_observed _ _ _ _ _ _
  | receiving => exact network_upstream.on_receive_observed _ _ _ _ _ _
  | stopped => rfl
  | closed => rfl

/-- A moment does the same when it is watched. -/
theorem step_eq_watch (u : upstream) (t : moment) :
    u.step t =
      (do let a ← u.watch t; .ok (a.1, a.2.map fun x => (x.after, x.bytes))) := by
  unfold step watch
  dsimp only
  cases t.event with
  | timeout => rfl
  | ready io =>
      dsimp only
      rw [callback_observed_eq]
      cases callback_observed t.env t.responder
          { u with provider := u.provider.renew t.renewed } io with
      | error e => rfl
      | ok n =>
          rcases n with ⟨s, q⟩ | passed
          · rfl
          · cases passed with
            | none => rfl
            | some a => rfl

/-- **The replies are the bytes of the log.** -/
theorem replies_eq_log (ts : List moment) : ∀ u : upstream,
    u.replies ts = (u.log ts).map passing.bytes := by
  induction ts with
  | nil => exact fun _ => rfl
  | cons t ts ih =>
      intro u
      rw [replies, log, step_eq_watch]
      cases u.watch t with
      | error e => rfl
      | ok a =>
          obtain ⟨u', passed⟩ := a
          simp only [Result.ok_bind, List.map_append, ih u']
          cases passed with
          | none => rfl
          | some x => rfl

theorem log_append {ts : List moment} : ∀ {u u' : upstream}, u.after ts = some u' →
    ∀ ts', u.log (ts ++ ts') = u.log ts ++ u'.log ts' := by
  induction ts with
  | nil =>
      intro u u' h ts'
      rw [← Option.some.inj h]
      rfl
  | cons t ts ih =>
      intro u u' h ts'
      rw [after] at h
      rw [List.cons_append, log, log]
      cases hw : u.watch t with
      | error e =>
          rw [hw] at h
          exact absurd h (by simp)
      | ok a =>
          rw [hw] at h
          simp only [ih h ts', List.append_assoc]

/-! ## The life of a request -/

/-- The invariant of a request: what was created stays, the question is that of the
client until it is sent, and empty after that. -/
structure Life (p : Cdns.provider) (req : incoming) (u : upstream) : Prop where
  client : u.client = req
  proto : u.provider.net_proto = p.net_proto
  plain : u.provider.resolver = none ↔ p.resolver = none
  sending : u.stage = .sending → u.question = p.adapt_message req.message
  receiving : u.stage = .receiving → u.question.query.size = 0

namespace Life

variable {p : Cdns.provider} {req : incoming} {u : upstream}

theorem create (p : Cdns.provider) (req : incoming) : (upstream.create p req).Life p req :=
  ⟨rfl, rfl, Iff.rfl, fun _ => rfl, fun h => absurd h (by simp [upstream.create])⟩

/-- A resolver that adopts another certificate stays a resolver. -/
theorem renew (hu : u.Life p req) (renewed : Option Cdns.resolver) :
    ({ u with provider := u.provider.renew renewed } : upstream).Life p req :=
  ⟨hu.client, hu.proto, (provider.renew_resolver _ _).trans hu.plain, hu.sending, hu.receiving⟩

theorem close (hu : u.Life p req) : ({ u with stage := .closed } : upstream).Life p req :=
  ⟨hu.client, hu.proto, hu.plain, fun h => absurd h (by simp), fun h => absurd h (by simp)⟩

end Life

/-- The request waits for its answer, and a callback finds the packet `d` on its socket. -/
def Arrives (u : upstream) (t : moment) (d : Query) : Prop :=
  u.stage = .receiving ∧ ∃ io, t.event = .ready io ∧
    io.link_over u.provider.net_proto = .connected ∧
    io.receive u.provider.net_proto u.question.query = .ok d

section Moments

variable {p : Cdns.provider} {req : incoming} {u u' : upstream} {t : moment}

/-- **What a callback can do**: the request goes on, it is over, or a message is passed on,
and then a message that `on_receive` passes on is the packet that it found. -/
theorem callback_cases {env : Env} {r : responder} {io : Io}
    {next : progress (Message × responder × List UInt8)} (hu : u.Life p req)
    (h : u.callback_observed env r io = .ok next) :
    (∃ s q, next = .going s q ∧ ({ u with stage := s, question := q } : upstream).Life p req ∧
        u.stage ≠ .closed) ∨
      next = .over none ∨
      ∃ m r' b, next = .over (some (m, r', b)) ∧ u.stage ≠ .closed ∧
        r.pass_answer_downstream env req m = .ok (r', b) ∧
        (u.stage = .receiving → ∃ q, io.link_over u.provider.net_proto = .connected ∧
          io.receive u.provider.net_proto u.question.query = .ok q ∧
          u.provider.unfold env.S { u.question with query := q } = .ok m) := by
  unfold callback_observed at h
  dsimp only at h
  cases hstage : u.stage with
  | sending =>
      rw [hstage] at h
      rcases network_upstream.on_send_cases h with
        rfl | ⟨m, hm, rfl⟩ | ⟨-, rfl⟩ | rfl | ⟨m, ⟨m', r', b⟩, ha, rfl⟩
      · refine Or.inl ⟨_, _, rfl, ⟨hu.client, hu.proto, hu.plain, ?_, ?_⟩, by simp⟩
        · exact fun _ => hu.sending hstage
        · exact fun hs => absurd hs (by simp)
      · refine Or.inl ⟨_, _, rfl, ⟨hu.client, hu.proto, hu.plain, ?_, ?_⟩, by simp⟩
        · exact fun hs => absurd hs (by simp)
        · exact fun _ => hm
      · refine Or.inl ⟨_, _, rfl, ⟨hu.client, hu.proto, hu.plain, ?_, ?_⟩, by simp⟩
        · exact fun hs => absurd hs (by simp)
        · exact fun hs => absurd hs (by simp)
      · exact Or.inr (Or.inl rfl)
      · obtain ⟨rfl, ha⟩ := network_upstream.observed_eq_ok ha
        rw [hu.client] at ha
        exact Or.inr (Or.inr ⟨_, _, _, rfl, by simp, ha, fun hs => absurd hs (by simp)⟩)
  | receiving =>
      rw [hstage] at h
      rcases network_upstream.on_receive_cases (hu.receiving hstage) h with
        rfl | rfl | ⟨q, m, ⟨m', r', b⟩, hlink, hq, hm, ha, rfl⟩
      · refine Or.inl ⟨_, _, rfl, ⟨hu.client, hu.proto, hu.plain, ?_, ?_⟩, by simp⟩
        · exact fun hs => absurd hs (by simp)
        · exact fun _ => hu.receiving hstage
      · exact Or.inr (Or.inl rfl)
      · obtain ⟨rfl, ha⟩ := network_upstream.observed_eq_ok ha
        rw [hu.client] at ha
        exact Or.inr (Or.inr ⟨_, _, _, rfl, by simp, ha, fun _ => ⟨q, hlink, hq, hm⟩⟩)
  | stopped =>
      rw [hstage] at h
      refine Or.inl ⟨_, _, (Except.ok.inj h).symm, ⟨hu.client, hu.proto, hu.plain, ?_, ?_⟩, by simp⟩
      · exact fun hs => absurd hs (by simp)
      · exact fun hs => absurd hs (by simp)
  | closed =>
      rw [hstage] at h
      exact Or.inr (Or.inl (Except.ok.inj h).symm)

/-- **One moment** keeps the invariant. A request that is closed stays closed and passes
nothing on, and one that passes a message on is closed. -/
theorem watch_cases {passed : Option passing} (hu : u.Life p req)
    (h : u.watch t = .ok (u', passed)) :
    u'.Life p req ∧ (u.stage = .closed → u'.stage = .closed ∧ passed = none) ∧
      ∀ x, passed = some x → u'.stage = .closed ∧ x.stage = u.stage ∧ x.before = t.responder ∧
        t.responder.pass_answer_downstream t.env req x.message = .ok (x.after, x.bytes) ∧
        (x.stage = .receiving → ∃ d, u.Arrives t d ∧
          (u.provider.renew t.renewed).unfold t.env.S { u.question with query := d } =
            .ok x.message) := by
  unfold watch at h
  dsimp only at h
  split at h
  · obtain ⟨rfl, rfl⟩ := Prod.mk.inj (Except.ok.inj h)
    exact ⟨(hu.renew _).close, fun _ => ⟨rfl, rfl⟩, fun x hx => absurd hx (by simp)⟩
  · next io hio =>
    obtain ⟨next, hnext, h⟩ := Result.bind_eq_ok.mp h
    rcases callback_cases (hu.renew _) hnext with
      ⟨s, q, rfl, hlife, hopen⟩ | rfl | ⟨m, r', b, rfl, hopen, hpass, hrecv⟩
    · obtain ⟨rfl, rfl⟩ := Prod.mk.inj (Except.ok.inj h)
      exact ⟨hlife, fun hs => absurd hs hopen, fun x hx => absurd hx (by simp)⟩
    · obtain ⟨rfl, rfl⟩ := Prod.mk.inj (Except.ok.inj h)
      exact ⟨(hu.renew _).close, fun _ => ⟨rfl, rfl⟩, fun x hx => absurd hx (by simp)⟩
    · obtain ⟨rfl, rfl⟩ := Prod.mk.inj (Except.ok.inj h)
      refine ⟨(hu.renew _).close, fun hs => absurd hs hopen, fun x hx => ?_⟩
      rw [← Option.some.inj hx]
      refine ⟨rfl, rfl, rfl, hpass, fun hstage => ?_⟩
      obtain ⟨d, hlink, hd, hm⟩ := hrecv hstage
      exact ⟨d, ⟨hstage, io, hio, hlink, hd⟩, hm⟩

/-- Nothing is passed on by a request that is closed. -/
theorem log_of_closed (ts : List moment) : ∀ {u : upstream}, u.Life p req → u.stage = .closed →
    u.log ts = [] := by
  induction ts with
  | nil => exact fun _ _ => rfl
  | cons t ts ih =>
      intro u hu hclosed
      rw [log]
      cases hw : u.watch t with
      | error e => rfl
      | ok a =>
          obtain ⟨u', passed⟩ := a
          obtain ⟨hu', hstay, -⟩ := watch_cases hu hw
          obtain ⟨hclosed', rfl⟩ := hstay hclosed
          exact ih hu' hclosed'

/-- **A whole life.** What the moments reach has the invariant, and nothing was passed on
before if it is not closed. -/
theorem after_life {ts : List moment} : ∀ {u u' : upstream}, u.Life p req →
    u.after ts = some u' → u'.Life p req ∧ (u.stage = .closed → u'.stage = .closed) ∧
      (u'.stage ≠ .closed → u.log ts = []) := by
  induction ts with
  | nil =>
      intro u u' hu h
      rw [← Option.some.inj h]
      exact ⟨hu, id, fun _ => rfl⟩
  | cons t ts ih =>
      intro u u' hu h
      rw [after] at h
      rw [log]
      cases hw : u.watch t with
      | error e =>
          rw [hw] at h
          exact absurd h (by simp)
      | ok a =>
          obtain ⟨u₁, passed⟩ := a
          rw [hw] at h
          obtain ⟨hu₁, hstay, hpass⟩ := watch_cases hu hw
          obtain ⟨hu', hclosed, hlog⟩ := ih hu₁ h
          refine ⟨hu', fun hs => hclosed (hstay hs).1, fun hopen => ?_⟩
          cases passed with
          | none => exact hlog hopen
          | some x => exact absurd (hclosed (hpass x rfl).1) hopen

/-- **What the log holds**: the message that is passed on at some moment of the life. -/
theorem mem_log {x : passing} (ts : List moment) : ∀ {u : upstream}, x ∈ u.log ts ↔
    ∃ ts₁ t ts₂ v v', ts = ts₁ ++ t :: ts₂ ∧ u.after ts₁ = some v ∧
      v.watch t = .ok (v', some x) := by
  induction ts with
  | nil =>
      intro u
      refine iff_of_false (by simp [log]) ?_
      rintro ⟨ts₁, t, ts₂, v, v', hts, -⟩
      exact absurd hts (by simp)
  | cons t ts ih =>
      intro u
      constructor
      · intro hx
        rw [log] at hx
        cases hw : u.watch t with
        | error e =>
            rw [hw] at hx
            exact absurd hx (by simp)
        | ok a =>
            obtain ⟨u', passed⟩ := a
            rw [hw] at hx
            rcases List.mem_append.mp hx with hx | hx
            · rw [Option.mem_toList.mp hx] at hw
              exact ⟨[], t, ts, u, u', rfl, rfl, hw⟩
            · obtain ⟨ts₁, t', ts₂, v, v', rfl, hafter, hv⟩ := ih.mp hx
              refine ⟨t :: ts₁, t', ts₂, v, v', rfl, ?_, hv⟩
              rw [after, hw]
              exact hafter
      · rintro ⟨ts₁, t', ts₂, v, v', hts, hafter, hv⟩
        rw [hts, log_append hafter, log, hv]
        simp

/-- A plain provider passes a packet on as it is. -/
theorem watch_plain {x : passing} (hu : u.Life p req) (hp : p.resolver = none)
    (hstage : x.stage = .receiving) : (∃ u', u.watch t = .ok (u', some x)) ↔
      ∃ d, u.Arrives t d ∧ x.message = { u.question with query := d } ∧
        x.before = t.responder ∧
        t.responder.pass_answer_downstream t.env req x.message = .ok (x.after, x.bytes) := by
  have hplain := (provider.renew_resolver u.provider t.renewed).mpr (hu.plain.mpr hp)
  constructor
  · rintro ⟨u', h⟩
    obtain ⟨-, -, hbefore, hpass, hrecv⟩ := (watch_cases hu h).2.2 x rfl
    obtain ⟨d, hd, hm⟩ := hrecv hstage
    rw [provider.unfold, hplain] at hm
    exact ⟨d, hd, (Except.ok.inj hm).symm, hbefore, hpass⟩
  · rintro ⟨d, ⟨hwaits, io, hio, hlink, hd⟩, hm, hbefore, hpass⟩
    have hproto : (u.provider.renew t.renewed).net_proto = u.provider.net_proto := rfl
    refine ⟨{ u with provider := u.provider.renew t.renewed, stage := .closed }, ?_⟩
    rw [watch, hio]
    dsimp only
    rw [callback_observed, hwaits]
    dsimp only [network_upstream.on_receive]
    rw [hproto, hlink]
    dsimp only
    rw [hd]
    dsimp only
    rw [provider.unfold, hplain]
    dsimp only
    rw [Result.ok_bind, network_upstream.observed, hu.client, ← hm, hpass]
    simp only [Result.ok_bind, Option.map_some]
    rw [← hbefore, ← hstage]

end Moments

end upstream

/-! ## Answers to the question -/

/-- The message has the id and the question of the query, with the name up to case. -/
def Query.SameQuestion (q m : Query) : Prop :=
  m.header.id = q.header.id ∧ ∃ n n' class_ type, q.get_question = .ok (n, class_, type) ∧
    m.get_question = .ok (n', class_, type) ∧ ascii_tolower n' = ascii_tolower n

theorem Query.SameQuestion.congr {q m m' : Query} (h : q.SameQuestion m) (hagree : Agree m m' 0) :
    q.SameQuestion m' := by
  obtain ⟨hid, n, n', class_, type, hq, hm, hname⟩ := h
  have hsize := size_of_get_question hm
  refine ⟨?_, n, n', class_, type, hq, ?_, hname⟩
  · rw [← header_congr hagree (by omega)]
    exact hid
  · rw [← get_question_congr hagree (by omega)]
    exact hm

/-- An entry of the cache is filed under the question and answers it. -/
def cache_entry.Answers (q : Query) (k : Str × ℕ) (e : cache_entry) : Prop :=
  (∃ n class_ type, q.get_question = .ok (n, class_, type) ∧ k = (ascii_tolower n, type)) ∧
    ∃ hlen, q.SameQuestion (Query.of_bytes e.response hlen)

/-- The message that was passed on answers the query, and so does every entry that it
made in the cache. -/
structure passing.Answers (q : Query) (x : passing) : Prop where
  message : q.SameQuestion x.message.query
  entries : ∀ k e, x.after.cache.entries.lookup k = some e →
    x.before.cache.entries.lookup k = some e ∨ e.Answers q k

/-- **What an answer leaves in the cache**: what was there, and at most the message under
its own question. -/
theorem responder.pass_answer_downstream_entries {env : Env} {r r' : responder} {inptr : incoming}
    {m : Message} {bytes : List UInt8}
    (h : r.pass_answer_downstream env inptr m = .ok (r', bytes)) {k : Str × ℕ} {e : cache_entry}
    (he : r'.cache.entries.lookup k = some e) :
    r.cache.entries.lookup k = some e ∨
      (Cache.filed m.query = some k ∧ e.response = m.query.wire) := by
  obtain ⟨-, -, h⟩ := Result.bind_eq_ok.mp h
  obtain ⟨r₁, hr₁, h⟩ := Result.bind_eq_ok.mp h
  obtain ⟨b, -, h⟩ := Result.bind_eq_ok.mp h
  obtain ⟨rfl, -⟩ := Prod.mk.inj (Except.ok.inj h)
  unfold store_answer at hr₁
  split_ifs at hr₁
  · obtain ⟨c, hc, hr₁⟩ := Result.bind_eq_ok.mp hr₁
    split_ifs at hr₁
    rw [← Except.ok.inj hr₁] at he
    have hstep : r.cache.step (.store env.tnow m.query) = c := by
      rw [Cache.step, hc]
    dsimp only at he
    rw [← hstep, Cache.step_store_filed] at he
    split_ifs at he with hk
    · rw [← Option.some.inj he]
      exact Or.inr ⟨hk, rfl⟩
    · exact Or.inl he
  · rw [Except.ok.inj hr₁]
    exact Or.inl he

namespace passing

/-- A message that has the question of the query is all it takes. -/
theorem answers_of_message {q : Query} {x : passing} {env : Env} {inptr : incoming}
    (hpass : x.before.pass_answer_downstream env inptr x.message = .ok (x.after, x.bytes))
    (h : q.SameQuestion x.message.query) : x.Answers q := by
  refine ⟨h, fun k e he => ?_⟩
  rcases responder.pass_answer_downstream_entries hpass he with hold | ⟨hfiled, hresp⟩
  · exact Or.inl hold
  · right
    obtain ⟨hid, n, n', class_, type, hq, hm, hname⟩ := h
    obtain ⟨owner, type', hm', rfl⟩ := Cache.accepted_eq_some (Cache.accepted_of_filed hfiled)
    obtain ⟨rfl, rfl, rfl⟩ := Query.get_question_unique hm hm'
    have hlen : e.response.length ≤ max_size := by
      rw [hresp, Query.wire_length]
      exact x.message.query.size_le
    refine ⟨⟨n, _, _, hq, by rw [hname]⟩, hlen, ?_⟩
    rw [Cache.of_bytes_response hresp]
    have hsame : q.SameQuestion x.message.query := ⟨hid, n, n', _, _, hq, hm, hname⟩
    exact hsame.congr (Cache.restored_agree x.message.query).symm

end passing

/-- **Whether replies answer the query.** Over every life of a request to a plain
provider, the messages that `on_receive` passed on, and what they left in the cache,
have the id and the question of the query exactly when every packet has them that comes
while the request waits and that can be passed on. -/
theorem upstream.log_answers_iff {p : Cdns.provider} {req : incoming} (hp : p.resolver = none)
    {ts : List moment}
    (hS : ∀ t ∈ ts, t.env.S.Lawful ∧ ∀ c, (t.env.S.box c).Seals) :
    (∀ x ∈ (create p req).log ts, x.stage = .receiving → x.Answers req.message.query) ↔
      ∀ ts₁ t ts₂ u d, ts = ts₁ ++ t :: ts₂ → (create p req).after ts₁ = some u →
        u.Arrives t d → t.responder.AnswerReturns t.env req { u.question with query := d } →
        req.message.query.SameQuestion d := by
  constructor
  · intro h ts₁ t ts₂ u d hts hafter hd hret
    obtain ⟨hu, -, -⟩ := after_life (Life.create p req) hafter
    obtain ⟨hlaw, hseals⟩ := hS t (by rw [hts]; simp)
    obtain ⟨⟨r', bytes⟩, hpass⟩ :=
      (responder.pass_answer_downstream_returns hlaw hseals _ _ _).mpr hret
    -- what is passed on at this moment is in the log
    let x : passing := ⟨.receiving, { u.question with query := d }, t.responder, r', bytes⟩
    obtain ⟨u', hwatch⟩ := (@watch_plain p req u t x hu hp rfl).mpr ⟨d, hd, rfl, rfl, hpass⟩
    exact (h x ((mem_log ts).mpr ⟨ts₁, t, ts₂, u, u', hts, hafter, hwatch⟩) rfl).message
  · intro h x hx hstage
    obtain ⟨ts₁, t, ts₂, u, u', hts, hafter, hwatch⟩ := (mem_log ts).mp hx
    obtain ⟨hu, -, -⟩ := after_life (Life.create p req) hafter
    obtain ⟨hlaw, hseals⟩ := hS t (by rw [hts]; simp)
    obtain ⟨d, hd, hm, hbefore, hpass⟩ := (watch_plain hu hp hstage).mp ⟨u', hwatch⟩
    have hret := (responder.pass_answer_downstream_returns hlaw hseals _ _ _).mp ⟨_, hpass⟩
    rw [hm] at hret
    have hsame := h ts₁ t ts₂ u d hts hafter hd hret
    rw [← hbefore] at hpass
    refine passing.answers_of_message hpass ?_
    rw [hm]
    exact hsame

/-! ### A packet that answers, and one that does not -/

/-- A request for the address of `a.`. -/
def sampleRequest : incoming := sampleUpstream.client

/-- A callback that finds one datagram, of a responder with nothing configured. -/
def samplePlain (datagram : List UInt8) : moment :=
  ⟨sampleEnv, sampleResponder, none, .ready (sampleIo datagram)⟩

/-- A response without answers, for the address of a name of one letter. -/
def sampleEmptyReply (id letter : UInt8) : List UInt8 :=
  [0, id, 0x81, 0x80, 0, 1, 0, 0, 0, 0, 0, 0, 1, letter, 0, 0, 1, 0, 1]

/-- The genuine reply is passed on; the provider has changed the case of the name. -/
theorem upstream.log_answers_iff_sample : ∃ x,
    (create sampleProvider sampleRequest).log
      [samplePlain [], samplePlain (sampleEmptyReply 1 65)] = [x] ∧
    x.stage = .receiving ∧ x.Answers sampleRequest.message.query := by
  have hlog : ∃ x, (create sampleProvider sampleRequest).log
        [samplePlain [], samplePlain (sampleEmptyReply 1 65)] = [x] ∧ x.stage = .receiving :=
    ⟨_, rfl, rfl⟩
  obtain ⟨x, hlog, hstage⟩ := hlog
  -- the request waits after the first moment, and finds the reply in the second
  have hreply : ∃ u d, (create sampleProvider sampleRequest).after [samplePlain []] = some u ∧
      (sampleIo (sampleEmptyReply 1 65)).receive u.provider.net_proto u.question.query = .ok d ∧
      d.header.id = 1 ∧ d.get_question = .ok ("A.".toList, 1, 1) := ⟨_, _, rfl, rfl, rfl, rfl⟩
  obtain ⟨u, d, hu, hd, hid, hquestion⟩ := hreply
  refine ⟨x, hlog, hstage, (@log_answers_iff sampleProvider sampleRequest rfl _ ?_).mpr ?_ x
    (by rw [hlog]; simp) hstage⟩
  · intro t ht
    rcases List.mem_pair.mp ht with rfl | rfl
    all_goals exact ⟨Sodium.tagged_lawful, Sodium.tagged_seals⟩
  · intro ts₁ t ts₂ v d' hts hafter harrives _
    obtain ⟨hwaits, io, hio, -, hrecv⟩ := harrives
    rcases ts₁ with _ | ⟨a, _ | ⟨b, ts₁⟩⟩
    · rw [← Option.some.inj hafter] at hwaits
      exact absurd hwaits (by simp [create])
    · obtain ⟨rfl, htail⟩ := List.cons.inj hts
      obtain ⟨rfl, -⟩ := List.cons.inj htail
      rw [← event.ready.inj hio, ← Option.some.inj (hu.symm.trans hafter), hd] at hrecv
      rw [← Except.ok.inj hrecv]
      exact ⟨hid, _, _, 1, 1, sample_question_a, hquestion, by decide⟩
    · exact absurd hts (by simp)

/-- **A packet of somebody else**: one datagram with another id and another question is
passed on to the client, and the cache holds an entry for its question. -/
theorem upstream.log_answers_other : sampleProvider.resolver = none ∧ ∃ x,
    (create sampleProvider sampleRequest).log
      [samplePlain [], samplePlain (sampleEmptyReply 2 98)] = [x] ∧
    x.stage = .receiving ∧ x.message.query.header.id = 2 ∧
    x.message.query.get_question = .ok ("b.".toList, 1, 1) ∧
    (x.before.cache.entries.lookup ("b.".toList, 1)).isSome = false ∧
    (x.after.cache.entries.lookup ("b.".toList, 1)).isSome = true ∧
    ¬ x.Answers sampleRequest.message.query := by
  have hlog : ∃ x, (create sampleProvider sampleRequest).log
        [samplePlain [], samplePlain (sampleEmptyReply 2 98)] = [x] ∧ x.stage = .receiving ∧
      x.message.query.header.id = 2 ∧ x.message.query.get_question = .ok ("b.".toList, 1, 1) ∧
      (x.before.cache.entries.lookup ("b.".toList, 1)).isSome = false ∧
      (x.after.cache.entries.lookup ("b.".toList, 1)).isSome = true :=
    ⟨_, rfl, rfl, rfl, rfl, rfl, rfl⟩
  obtain ⟨x, hlog, hstage, hid, hquestion, hbefore, hafter⟩ := hlog
  refine ⟨rfl, x, hlog, hstage, hid, hquestion, hbefore, hafter, fun h => ?_⟩
  have hsame := h.message.1
  rw [hid] at hsame
  exact absurd hsame (by decide)

end Cdns
