/-
How a certifier keeps its certificate fresh: `certifier::update` and the events that reach it
(`dns/crypt/srcz/certifier.cpp`).

A certifier has a repeating timer and at most one request. The timer and `start` call
`update`, which makes a request unless one is alive, and which stops the timer once
`attempts_` is above four. Nothing sets `attempts_` back, so it is the number of requests
made so far (`Counted`), and after five of them the next call stops the timer, however they
ended. The source resets `query_retry_step_` after a success, but not this counter.
-/
import Cdns.Hostname
import Cdns.Providers
import Cdns.UpstreamSpec

set_option autoImplicit false

namespace Cdns

/-- `request`: what the certifier sent, or is about to send, and how far it is. -/
structure request where
  stage : Cdns.stage
  question : Message

/-- `timeout::is_active`: the timer of a request runs until the request is closed. -/
def request.is_active (r : request) : Bool :=
  match r.stage with
  | .closed => false
  | _ => true

/-- A certifier with its timer and its request. `ended` is not in the source: it records of
each request that is over, the last one first, whether it obtained a valid certificate. -/
structure certifier_state where
  certifier : Cdns.certifier
  hostname : Str
  timer_active : Bool
  upstream_ : Option request
  attempts_ : ℕ
  ended : List Bool

/-- What `update` meets when it makes a request. -/
structure attempt where
  /-- `timer_.is_pending ()` -/
  pending : Bool
  /-- `std::rand ()` -/
  rand : ℕ
  /-- what the constructor of the request throws -/
  thrown : Option Exn

/-- What the event loop does to a certifier and to its request. -/
inductive certifier_event where
  | start (a : attempt)
  | stop
  | retry_timer (a : attempt)
  | ready (S : Sodium) (now : ℕ) (pending : Bool) (jitter : ℕ) (io : Io)
  | timeout

namespace certifier_state

/-! ## The calls -/

/-- A certifier as `cresponder::load` makes it. -/
def make (seed : Seed) (tcp_only : proto) (r : listed_resolver) : certifier_state where
  certifier := certifier.make seed tcp_only r
  hostname := r.hostname
  timer_active := true
  upstream_ := none
  attempts_ := 0
  ended := []

/-- `upstream_ && upstream_->is_active ()`. -/
def alive (s : certifier_state) : Bool := s.upstream_.any request.is_active

/-- `certifier::stop`. -/
def stop (s : certifier_state) : certifier_state := { s with timer_active := false }

/-- The handlers of `update` and what follows them. Setting a timer that was stopped does not
start it. -/
def update_catch (a : attempt) (s : certifier_state) (e : Exn) : certifier_state × Result Unit :=
  if e.is_runtime_error then
    ({ s with
        upstream_ := none
        certifier := s.certifier.reschedule_query_after_failure a.pending }, .ok ())
  else (s, .error e)

/-- `certifier::update`: the certifier it leaves, and what it throws. -/
def update (a : attempt) (s : certifier_state) : certifier_state × Result Unit :=
  if s.alive then (s, .ok ())
  else if 4 < s.attempts_ then ({ s with upstream_ := none }.stop, .ok ())
  else
    match Query.of_hostname (Str.c_str s.hostname) rr_type.txt.code (1 + a.rand % 65500) with
    | .error e => s.update_catch a e
    | .ok q =>
        let s := { s with upstream_ := none }
        match a.thrown with
        | some e => s.update_catch a e
        | none =>
            ({ s with
                upstream_ := some ⟨.sending, .of_query q⟩
                attempts_ := s.attempts_ + 1 }, .ok ())

/-- `certifier::start`. What it returns is empty: `update` throws no `runtime_error`. -/
def start (a : attempt) (s : certifier_state) : Result certifier_state :=
  match s.update a with
  | (s, .ok ()) => .ok s
  | (s, .error e) => if e.is_runtime_error then .ok s else .error e

/-- `certifier::retry_timer_callback`, while the timer runs. Every exception is caught. -/
def retry_timer_callback (a : attempt) (s : certifier_state) : Result certifier_state :=
  if s.timer_active then
    match s.update a with
    | (s, .ok ()) => .ok s
    | (_, .error .overrun) => .error .overrun
    | (s, .error _) => .ok s
  else .ok s

/-- The callback of a request whose watcher is active, with what it passes an answer to. -/
def callback {α : Type} (pass : Message → Result α) (S : Sodium) (s : certifier_state) (io : Io)
    (r : request) : Result (progress α) :=
  match r.stage with
  | .sending => s.certifier.on_send pass S io r.question
  | .receiving =>
      network_upstream.on_receive pass S s.certifier.provider_copy s.certifier.tcp_only io
        r.question
  | .stopped => .ok (.going .stopped r.question)
  | .closed => .ok (.over none)

/-- A request is closed without an answer to process. -/
def close (s : certifier_state) (r : request) : certifier_state :=
  { s with upstream_ := some { r with stage := .closed }, ended := false :: s.ended }

/-- The callback of the request. An answer is processed, which resets `upstream_`; a resolver is
ready after that exactly when it found a valid certificate. -/
def on_ready (S : Sodium) (now : ℕ) (pending : Bool) (jitter : ℕ) (io : Io) (s : certifier_state) :
    Result certifier_state :=
  match s.upstream_ with
  | none => .ok s
  | some r =>
      if r.is_active then do
        match ← s.callback (fun m => s.certifier.process_response S now pending jitter m.query) S
            io r with
        | .going stage question => .ok { s with upstream_ := some ⟨stage, question⟩ }
        | .over none => .ok (s.close r)
        | .over (some c) =>
            .ok { s with
                  certifier := c
                  upstream_ := none
                  ended := c.resolver.ready_ :: s.ended }
      else .ok s

/-- `timeout::callback` of the request. -/
def on_timeout (s : certifier_state) : certifier_state :=
  match s.upstream_ with
  | none => s
  | some r => if r.is_active then s.close r else s

/-- One event. An exception that leaves the event loop ends the daemon. -/
def step (s : certifier_state) : certifier_event → Result certifier_state
  | .start a => s.start a
  | .stop => .ok s.stop
  | .retry_timer a => s.retry_timer_callback a
  | .ready S now pending jitter io => s.on_ready S now pending jitter io
  | .timeout => .ok s.on_timeout

/-- A run. -/
def run (s : certifier_state) (es : List certifier_event) : Result certifier_state :=
  es.foldlM step s

end certifier_state

/-! ## Valid certificates -/

/-- **The answers carry a valid certificate**: they parse, and the text records hold one that the
provider with the key `pk` signed for the time `now`. -/
def Carries (S : Sodium) (now : ℕ) (pk : pubkey) (q : Query) : Prop :=
  ∃ txt_data cert, q.get_txt_answer = .ok txt_data ∧
    resolver.find_loop S now pk none txt_data = .ok (some cert)

/-- A resolver is ready after `find_valid_certificate` exactly when it found one. -/
theorem find_valid_certificate_ready {S : Sodium} {now : ℕ} {r r' : resolver} {b : Bool}
    {trv : List (List UInt8)} (h : r.find_valid_certificate S now trv = .ok (b, r')) :
    r'.ready_ = b ∧
      (b = true ↔ ∃ cert, resolver.find_loop S now r.pubkey_ none trv = .ok (some cert)) := by
  unfold resolver.find_valid_certificate at h
  dsimp only at h
  obtain ⟨cert, hcert, h⟩ := Result.bind_eq_ok.mp h
  rw [hcert]
  cases cert with
  | none =>
      obtain ⟨rfl, rfl⟩ := Prod.mk.inj (Except.ok.inj h)
      exact ⟨rfl, by simp⟩
  | some cert =>
      have hdef : cert.cipher ≠ .undefined := by
        rcases resolver.find_loop_version hcert (by simp) cert rfl with hmaj | hmaj
        · rw [certificate.cipher, hmaj]
          decide
        · rw [certificate.cipher, hmaj]
          decide
      dsimp only at h
      rw [if_neg hdef] at h
      split at h
      · exact absurd h (by simp)
      · obtain ⟨rfl, rfl⟩ := Prod.mk.inj (Except.ok.inj h)
        exact ⟨rfl, by simp⟩

namespace certifier

@[simp] theorem reschedule_query_resolver (pending : Bool) (c : certifier) (delay : ℕ) :
    (c.reschedule_query pending delay).resolver = c.resolver := by
  unfold reschedule_query
  split_ifs
  · rfl
  · rfl

@[simp] theorem reschedule_query_after_failure_resolver (pending : Bool) (c : certifier) :
    (c.reschedule_query_after_failure pending).resolver = c.resolver := by
  unfold reschedule_query_after_failure
  dsimp only
  split_ifs
  · rfl
  · rw [reschedule_query_resolver]
  · rw [reschedule_query_resolver]

@[simp] theorem reschedule_query_after_success_resolver (pending : Bool) (jitter : ℕ)
    (c : certifier) : (c.reschedule_query_after_success pending jitter).resolver = c.resolver := by
  unfold reschedule_query_after_success
  split_ifs
  · rfl
  · rw [reschedule_query_resolver]

@[simp] theorem reschedule_query_address (pending : Bool) (c : certifier) (delay : ℕ) :
    (c.reschedule_query pending delay).address = c.address := by
  unfold reschedule_query
  split_ifs
  · rfl
  · rfl

@[simp] theorem reschedule_query_after_failure_address (pending : Bool) (c : certifier) :
    (c.reschedule_query_after_failure pending).address = c.address := by
  unfold reschedule_query_after_failure
  dsimp only
  split_ifs
  · rfl
  · rw [reschedule_query_address]
  · rw [reschedule_query_address]

@[simp] theorem reschedule_query_after_success_address (pending : Bool) (jitter : ℕ)
    (c : certifier) : (c.reschedule_query_after_success pending jitter).address = c.address := by
  unfold reschedule_query_after_success
  split_ifs
  · rfl
  · rw [reschedule_query_address]

/-- **The resolver of a certifier is ready after a reply exactly when the reply carries a valid
certificate.** -/
theorem process_response_ready {S : Sodium} {now : ℕ} {pending : Bool} {jitter : ℕ}
    {c c' : certifier} {q : Query} (h : c.process_response S now pending jitter q = .ok c') :
    c'.resolver.ready_ = true ↔ Carries S now c.resolver.pubkey_ q := by
  obtain ⟨-, -, h⟩ := Result.bind_eq_ok.mp h
  obtain ⟨txt, htxt, h⟩ := Result.bind_eq_ok.mp h
  have hcarries : Carries S now c.resolver.pubkey_ q ↔
      ∃ cert, resolver.find_loop S now c.resolver.pubkey_ none txt = .ok (some cert) := by
    constructor
    · rintro ⟨txt', cert, htxt', hcert⟩
      rw [htxt] at htxt'
      rw [Except.ok.inj htxt']
      exact ⟨cert, hcert⟩
    · rintro ⟨cert, hcert⟩
      exact ⟨txt, cert, htxt, hcert⟩
  rw [hcarries]
  split at h
  · exact absurd h (by simp)
  · next found r hfind =>
    obtain ⟨hready, hfound⟩ := find_valid_certificate_ready hfind
    rw [← hfound, ← hready, ← Except.ok.inj h]
    -- setting the timer leaves the resolver alone
    split_ifs
    · rw [reschedule_query_after_success_resolver]
    · rw [reschedule_query_after_failure_resolver]

end certifier

namespace certifier_state

/-! ## One event -/

/-- **The event brings a valid certificate**: what the callback of the request passes on carries
one. -/
def Obtains (s : certifier_state) : certifier_event → Prop
  | .ready S now _ _ io =>
      ∃ r m, s.upstream_ = some r ∧ r.is_active = true ∧
        s.callback .ok S io r = .ok (.over (some m)) ∧
        Carries S now s.certifier.resolver.pubkey_ m.query
  | _ => False

/-- **What one event does to the requests**: nothing, or it makes one, or the one that is alive
ends, with success exactly when the event brings a valid certificate. -/
inductive Moves (s : certifier_state) (e : certifier_event) (s' : certifier_state) : Prop where
  | idle (hattempts : s'.attempts_ = s.attempts_) (hended : s'.ended = s.ended)
      (halive : s'.alive = s.alive) (hnone : ¬ s.Obtains e)
  | made (hdead : s.alive = false) (hfew : s.attempts_ ≤ 4)
      (hattempts : s'.attempts_ = s.attempts_ + 1) (hended : s'.ended = s.ended)
      (halive : s'.alive = true) (hnone : ¬ s.Obtains e)
  | finished (b : Bool) (hlive : s.alive = true) (hattempts : s'.attempts_ = s.attempts_)
      (hended : s'.ended = b :: s.ended) (halive : s'.alive = false)
      (hb : b = true ↔ s.Obtains e)

theorem update_catch_fst (a : attempt) (s : certifier_state) (e : Exn) :
    (s.update_catch a e).1.attempts_ = s.attempts_ ∧ (s.update_catch a e).1.ended = s.ended ∧
      (s.update_catch a e).1.timer_active = s.timer_active ∧
      (s.alive = false → (s.update_catch a e).1.alive = false) := by
  unfold update_catch
  split_ifs
  · exact ⟨rfl, rfl, rfl, fun _ => rfl⟩
  · exact ⟨rfl, rfl, rfl, fun h => h⟩

/-- **What `update` does.** It changes nothing while a request is alive, it gives up, it fails to
make a request, or it makes one. -/
theorem update_cases (a : attempt) (s : certifier_state) :
    (s.alive = true ∧ s.update a = (s, .ok ())) ∨
    (s.alive = false ∧ 4 < s.attempts_ ∧
      s.update a = ({ s with upstream_ := none }.stop, .ok ())) ∨
    (s.alive = false ∧ s.attempts_ ≤ 4 ∧ (s.update a).1.attempts_ = s.attempts_ ∧
      (s.update a).1.ended = s.ended ∧ (s.update a).1.timer_active = s.timer_active ∧
      (s.update a).1.alive = false) ∨
    (s.alive = false ∧ s.attempts_ ≤ 4 ∧ (s.update a).1.attempts_ = s.attempts_ + 1 ∧
      (s.update a).1.ended = s.ended ∧ (s.update a).1.timer_active = s.timer_active ∧
      (s.update a).1.alive = true) := by
  unfold update
  by_cases hlive : s.alive = true
  · rw [if_pos hlive]
    exact Or.inl ⟨hlive, rfl⟩
  · have hdead : s.alive = false := by simpa using hlive
    rw [if_neg hlive]
    by_cases hmany : 4 < s.attempts_
    · rw [if_pos hmany]
      exact Or.inr (Or.inl ⟨hdead, hmany, rfl⟩)
    · rw [if_neg hmany]
      have hfew : s.attempts_ ≤ 4 := Nat.le_of_not_lt hmany
      refine Or.inr (Or.inr ?_)
      split
      · next e _ =>
        obtain ⟨h₁, h₂, h₃, h₄⟩ := update_catch_fst a s e
        exact Or.inl ⟨hdead, hfew, h₁, h₂, h₃, h₄ hdead⟩
      · dsimp only
        split
        · next e _ =>
          obtain ⟨h₁, h₂, h₃, h₄⟩ := update_catch_fst a { s with upstream_ := none } e
          exact Or.inl ⟨hdead, hfew, h₁, h₂, h₃, h₄ rfl⟩
        · exact Or.inr ⟨hdead, hfew, rfl, rfl, rfl, rfl⟩

/-- `update`, as a move of an event that brings nothing. -/
theorem update_moves (a : attempt) (s : certifier_state) {e : certifier_event}
    (hnone : ¬ s.Obtains e) : Moves s e (s.update a).1 := by
  rcases s.update_cases a with ⟨-, h⟩ | ⟨hdead, -, h⟩ | ⟨hdead, -, h₁, h₂, -, h₃⟩ |
    ⟨hdead, hfew, h₁, h₂, -, h₃⟩
  · rw [h]
    exact .idle rfl rfl rfl hnone
  · rw [h]
    exact .idle rfl rfl hdead.symm hnone
  · exact .idle h₁ h₂ (h₃.trans hdead.symm) hnone
  · exact .made hdead hfew h₁ h₂ h₃ hnone

/-- An event that calls `update` leaves what `update` leaves. -/
theorem start_eq {a : attempt} {s s' : certifier_state} (h : s.start a = .ok s') :
    s' = (s.update a).1 := by
  unfold start at h
  split at h
  · next heq => rw [heq, Except.ok.inj h]
  · next heq =>
    split_ifs at h
    rw [heq, Except.ok.inj h]

theorem retry_timer_callback_eq {a : attempt} {s s' : certifier_state} (hon : s.timer_active = true)
    (h : s.retry_timer_callback a = .ok s') : s' = (s.update a).1 := by
  unfold retry_timer_callback at h
  rw [if_pos hon] at h
  split at h
  · next heq => rw [heq, Except.ok.inj h]
  · exact absurd h (by simp)
  · next heq => rw [heq, Except.ok.inj h]

theorem alive_of_some {s : certifier_state} {r : request} (h : s.upstream_ = some r) :
    s.alive = r.is_active := by
  rw [alive, h]
  rfl

section Callback

variable {α : Type} (pass : Message → Result α) (S : Sodium) (s : certifier_state) (io : Io)
  (r : request)

variable {pass S s io r} {next : progress α}

/-- **What a request does when it is sent**: what any request does, but it passes nothing on once
it is connected. -/
theorem on_send_spec {c : Cdns.certifier} {question : Message}
    (h : c.on_send pass S io question = .ok next) :
    network_upstream.on_send pass S c.provider_copy c.tcp_only io question = .ok next ∧
      ∀ a, next = .over (some a) → io.link_over c.tcp_only ≠ .connected := by
  unfold certifier.on_send at h
  split at h
  · next a ha =>
    split_ifs at h with hlink
    obtain rfl := Except.ok.inj h
    exact ⟨ha, fun _ _ => hlink⟩
  · next hpassed =>
    refine ⟨h, fun a ha => ?_⟩
    exact absurd (h.trans (congrArg Except.ok ha)) (hpassed a)

/-- What a callback does is decided before an answer is passed on. -/
theorem callback_forward (h : s.callback pass S io r = .ok next) :
    ∃ passed, s.callback .ok S io r = .ok passed ∧ progress.forward pass passed = .ok next := by
  unfold callback at h ⊢
  split at h
  · obtain ⟨hsend, hlink⟩ := on_send_spec h
    rw [network_upstream.on_send_eq] at hsend
    obtain ⟨passed, hpassed, hnext⟩ := Result.bind_eq_ok.mp hsend
    refine ⟨passed, ?_, hnext⟩
    unfold certifier.on_send
    rw [hpassed]
    split
    · next m hm =>
      -- what is passed on here is passed on there, so the connection has failed
      obtain rfl := Except.ok.inj hm
      obtain ⟨a, -, ha⟩ := Result.bind_eq_ok.mp hnext
      rw [if_neg (hlink a (Except.ok.inj ha).symm)]
    · rfl
  · rw [network_upstream.on_receive_eq] at h
    exact Result.bind_eq_ok.mp h
  · exact ⟨_, rfl, h⟩
  · exact ⟨_, rfl, h⟩

theorem callback_going {st : stage} {q : Message}
    (h : s.callback pass S io r = .ok (.going st q)) : request.is_active ⟨st, q⟩ = true := by
  unfold callback at h
  split at h
  · rcases network_upstream.on_send_cases (on_send_spec h).1 with hnext | ⟨m, -, hnext⟩ |
      ⟨-, hnext⟩ | hnext | ⟨m, a, -, hnext⟩
    · rw [(progress.going.inj hnext).1]
      rfl
    · rw [(progress.going.inj hnext).1]
      rfl
    · rw [(progress.going.inj hnext).1]
      rfl
    · exact absurd hnext (by simp)
    · exact absurd hnext (by simp)
  · rcases network_upstream.on_receive_progress h with hnext | ⟨passed, hnext⟩
    · rw [(progress.going.inj hnext).1]
      rfl
    · exact absurd hnext (by simp)
  · rw [← (progress.going.inj (Except.ok.inj h)).1]
    rfl
  · exact absurd h (by simp)

end Callback

/-- Closing a request ends it without success. -/
theorem close_moves {s : certifier_state} {r : request} {e : certifier_event}
    (hr : s.upstream_ = some r) (hactive : r.is_active = true) (hnone : ¬ s.Obtains e) :
    Moves s e (s.close r) := by
  refine .finished false ?_ rfl rfl rfl ?_
  · rw [alive_of_some hr, hactive]
  · simp [hnone]

theorem on_ready_moves {S : Sodium} {now : ℕ} {pending : Bool} {jitter : ℕ} {io : Io}
    {s s' : certifier_state} (h : s.on_ready S now pending jitter io = .ok s') :
    Moves s (.ready S now pending jitter io) s' := by
  unfold on_ready at h
  split at h
  · next hr =>
    rw [← Except.ok.inj h]
    refine .idle rfl rfl rfl ?_
    rintro ⟨r, m, hr', -⟩
    rw [hr] at hr'
    exact absurd hr' (by simp)
  next r hr =>
  split_ifs at h with hactive
  · obtain ⟨next, hnext, h⟩ := Result.bind_eq_ok.mp h
    obtain ⟨passed, hpassed, hnext⟩ := callback_forward hnext
    have hobtains : s.Obtains (.ready S now pending jitter io) ↔
        ∃ m, passed = .over (some m) ∧ Carries S now s.certifier.resolver.pubkey_ m.query := by
      constructor
      · rintro ⟨r', m, hr', -, hm, hcarries⟩
        rw [hr] at hr'
        rw [← Option.some.inj hr', hpassed] at hm
        exact ⟨m, Except.ok.inj hm, hcarries⟩
      · rintro ⟨m, rfl, hcarries⟩
        exact ⟨r, m, hr, hactive, hpassed, hcarries⟩
    -- the request goes on, or it is closed, or its answer was processed
    match passed with
    | .going st q =>
        rw [← Except.ok.inj hnext] at h
        dsimp only at h
        rw [← Except.ok.inj h]
        refine .idle rfl rfl ?_ ?_
        · rw [alive_of_some hr, hactive, alive_of_some rfl, callback_going hpassed]
        · rw [hobtains]
          rintro ⟨m, hm, -⟩
          exact absurd hm (by simp)
    | .over none =>
        rw [← Except.ok.inj hnext] at h
        dsimp only at h
        rw [← Except.ok.inj h]
        refine close_moves hr hactive ?_
        rw [hobtains]
        rintro ⟨m, hm, -⟩
        exact absurd hm (by simp)
    | .over (some m) =>
        obtain ⟨c, hc, hnext⟩ := Result.bind_eq_ok.mp hnext
        rw [← Except.ok.inj hnext] at h
        dsimp only at h
        rw [← Except.ok.inj h]
        refine .finished c.resolver.ready_ ?_ rfl rfl rfl ?_
        · rw [alive_of_some hr, hactive]
        · rw [certifier.process_response_ready hc, hobtains]
          constructor
          · intro hcarries
            exact ⟨m, rfl, hcarries⟩
          · rintro ⟨m', hm', hcarries⟩
            have hmm : m = m' := by simpa using hm'
            rw [hmm]
            exact hcarries
  · rw [← Except.ok.inj h]
    refine .idle rfl rfl rfl ?_
    rintro ⟨r', m, hr', hactive', -⟩
    rw [hr] at hr'
    rw [← Option.some.inj hr'] at hactive'
    exact hactive hactive'

/-- **Every event is a move.** -/
theorem step_moves {s s' : certifier_state} {e : certifier_event} (h : s.step e = .ok s') :
    Moves s e s' := by
  cases e with
  | start a =>
      rw [start_eq h]
      exact update_moves a s fun h => h
  | stop =>
      rw [← Except.ok.inj h]
      exact .idle rfl rfl rfl fun h => h
  | retry_timer a =>
      by_cases hon : s.timer_active = true
      · rw [retry_timer_callback_eq hon h]
        exact update_moves a s fun h => h
      · have h' : s.retry_timer_callback a = .ok s' := h
        rw [retry_timer_callback, if_neg hon] at h'
        rw [← Except.ok.inj h']
        exact .idle rfl rfl rfl fun h => h
  | ready S now pending jitter io => exact on_ready_moves h
  | timeout =>
      rw [← Except.ok.inj h, on_timeout]
      split
      · exact .idle rfl rfl rfl fun h => h
      · next r hr =>
        split_ifs with hactive
        · exact close_moves hr hactive fun h => h
        · exact .idle rfl rfl rfl fun h => h

/-! ## Giving up -/

/-- **The event makes `update` stop the timer for too many requests.** -/
def GivesUp (s : certifier_state) (e : certifier_event) : Prop :=
  (match e with
    | .start _ => True
    | .retry_timer _ => s.timer_active = true
    | _ => False) ∧
  s.alive = false ∧ 4 < s.attempts_

theorem update_timer (a : attempt) (s : certifier_state) (hon : s.timer_active = true) :
    (s.update a).1.timer_active = false ↔ s.alive = false ∧ 4 < s.attempts_ := by
  rcases s.update_cases a with ⟨hlive, h⟩ | ⟨hdead, hmany, h⟩ | ⟨-, hfew, -, -, h, -⟩ |
    ⟨-, hfew, -, -, h, -⟩
  · rw [h, hlive, hon]
    simp
  · rw [h]
    exact iff_of_true rfl ⟨hdead, hmany⟩
  · rw [h, hon]
    exact iff_of_false (by simp) fun h' => absurd h'.2 (Nat.not_lt.mpr hfew)
  · rw [h, hon]
    exact iff_of_false (by simp) fun h' => absurd h'.2 (Nat.not_lt.mpr hfew)

theorem on_ready_timer {S : Sodium} {now : ℕ} {pending : Bool} {jitter : ℕ} {io : Io}
    {s s' : certifier_state} (h : s.on_ready S now pending jitter io = .ok s') :
    s'.timer_active = s.timer_active := by
  unfold on_ready at h
  split at h
  · rw [← Except.ok.inj h]
  · split_ifs at h
    · obtain ⟨next, -, h⟩ := Result.bind_eq_ok.mp h
      split at h
      · rw [← Except.ok.inj h]
      · rw [← Except.ok.inj h]
        rfl
      · rw [← Except.ok.inj h]
    · rw [← Except.ok.inj h]

/-- **The timer stops exactly when the certifier is told so or gives up.** -/
theorem timer_stops_iff {s s' : certifier_state} {e : certifier_event} (h : s.step e = .ok s')
    (hon : s.timer_active = true) : s'.timer_active = false ↔ e = .stop ∨ s.GivesUp e := by
  cases e with
  | start a =>
      rw [start_eq h, update_timer a s hon]
      simp [GivesUp]
  | stop =>
      rw [← Except.ok.inj h]
      exact iff_of_true rfl (Or.inl rfl)
  | retry_timer a =>
      rw [retry_timer_callback_eq hon h, update_timer a s hon]
      simp [GivesUp, hon]
  | ready S now pending jitter io =>
      rw [on_ready_timer h, hon]
      simp [GivesUp]
  | timeout =>
      have hsame : s'.timer_active = s.timer_active := by
        rw [← Except.ok.inj h, on_timeout]
        split
        · rfl
        · split_ifs
          · rfl
          · rfl
      rw [hsame, hon]
      simp [GivesUp]

/-! ## Runs -/

/-- In the run of `es` from `s₀` the event `e` comes after `es₁`, in the state `s`. -/
def At (s₀ : certifier_state) (es es₁ : List certifier_event) (s : certifier_state)
    (e : certifier_event) : Prop :=
  es₁ ++ [e] <+: es ∧ run s₀ es₁ = .ok s

/-- **The requests are counted**: each one that was made is over or alive, and there are five at
most. -/
structure Counted (s : certifier_state) : Prop where
  made : s.attempts_ = s.ended.length + s.alive.toNat
  five : s.attempts_ ≤ 5

theorem Moves.counted {s s' : certifier_state} {e : certifier_event} (h : Moves s e s')
    (hs : s.Counted) : s'.Counted := by
  obtain ⟨hmade, hfive⟩ := hs
  cases h with
  | idle hattempts hended halive _ =>
      constructor
      · rw [hattempts, hended, halive, hmade]
      · rw [hattempts]
        exact hfive
  | made hdead hfew hattempts hended halive _ =>
      rw [hdead, Bool.toNat_false] at hmade
      constructor
      · rw [hattempts, hended, halive, hmade]
        rfl
      · omega
  | finished b hlive hattempts hended halive _ =>
      rw [hlive, Bool.toNat_true] at hmade
      constructor
      · rw [hattempts, hended, halive, hmade]
        rfl
      · rw [hattempts]
        exact hfive

/-- A success is recorded when it happens. -/
theorem Moves.mem_ended {s s' : certifier_state} {e : certifier_event} (h : Moves s e s') :
    true ∈ s'.ended ↔ true ∈ s.ended ∨ s.Obtains e := by
  cases h with
  | idle _ hended _ hnone => rw [hended, or_iff_left hnone]
  | made _ _ _ hended _ hnone => rw [hended, or_iff_left hnone]
  | finished b _ _ hended _ hb =>
      rw [hended, List.mem_cons, ← hb, or_comm]
      exact or_congr_right eq_comm

theorem run_concat {s₀ s : certifier_state} {es : List certifier_event} {e : certifier_event} :
    run s₀ (es ++ [e]) = .ok s ↔ ∃ t, run s₀ es = .ok t ∧ t.step e = .ok s := by
  rw [run, List.foldlM_append, Result.bind_eq_ok]
  refine exists_congr fun t => and_congr_right fun _ => ?_
  rw [List.foldlM_cons, Result.bind_eq_ok]
  constructor
  · rintro ⟨u, hu, h⟩
    rw [← Except.ok.inj h]
    exact hu
  · intro h
    exact ⟨s, h, rfl⟩

/-- **A run counts its requests and records its successes.** -/
theorem run_spec {s₀ s : certifier_state} (h₀ : s₀.Counted) (hended : s₀.ended = [])
    {es : List certifier_event} (h : run s₀ es = .ok s) :
    s.Counted ∧ (true ∈ s.ended ↔ ∃ es₁ t e, At s₀ es es₁ t e ∧ t.Obtains e) := by
  -- on the run from its end: the last event is one move
  induction es using List.reverseRecOn generalizing s with
  | nil =>
      rw [← Except.ok.inj h]
      refine ⟨h₀, ?_⟩
      rw [hended]
      refine iff_of_false (by simp) ?_
      rintro ⟨es₁, t, e, ⟨hpre, -⟩, -⟩
      exact absurd (List.prefix_nil.mp hpre) (by simp)
  | append_singleton es e ih =>
      obtain ⟨t, ht, hstep⟩ := run_concat.mp h
      obtain ⟨hcounted, hmem⟩ := ih ht
      have hmove := step_moves hstep
      refine ⟨hmove.counted hcounted, ?_⟩
      rw [hmove.mem_ended, hmem]
      constructor
      · rintro (⟨es₁, u, e', ⟨hpre, hrun⟩, hobt⟩ | hobt)
        · exact ⟨es₁, u, e', ⟨hpre.trans (List.prefix_append es [e]), hrun⟩, hobt⟩
        · exact ⟨es, t, e, ⟨List.prefix_rfl, ht⟩, hobt⟩
      · rintro ⟨es₁, u, e', ⟨hpre, hrun⟩, hobt⟩
        rcases List.prefix_concat_iff.mp hpre with heq | hpre
        · obtain ⟨hes, he⟩ := List.append_inj' heq rfl
          rw [← hes, hrun] at ht
          rw [← Except.ok.inj ht, ← (List.cons.inj he).1]
          exact Or.inr hobt
        · exact Or.inl ⟨es₁, u, e', ⟨hpre, hrun⟩, hobt⟩

theorem make_counted (seed : Seed) (tcp_only : proto) (r : listed_resolver) :
    (make seed tcp_only r).Counted := ⟨rfl, Nat.zero_le 5⟩

/-- **A certifier gives up only on failure.** -/
structure OnFailureOnly (s₀ : certifier_state) (es : List certifier_event) : Prop where
  /-- when it gives up, the last five requests ended without success -/
  failed : ∀ es₁ s e, At s₀ es es₁ s e → s.GivesUp e →
    5 ≤ s.ended.length ∧ ∀ b ∈ s.ended.take 5, b = false
  /-- it never gives up if every request obtains a valid certificate -/
  refreshing : (∀ es₁ s e, At s₀ es es₁ s e → ∀ b ∈ s.ended, b = true) →
    ∀ es₁ s e, At s₀ es es₁ s e → ¬ s.GivesUp e

/-- **When a certifier gives up.** In every run of a certifier, it gives up on failure only
exactly when no reply before an event that makes it give up carried a valid certificate. -/
theorem gives_up_on_failure_iff (seed : Seed) (tcp_only : proto) (r : listed_resolver)
    (es : List certifier_event) :
    OnFailureOnly (make seed tcp_only r) es ↔
      ∀ es₁ s e, At (make seed tcp_only r) es es₁ s e → s.GivesUp e →
        ∀ es₂ t e', At (make seed tcp_only r) es₁ es₂ t e' → ¬ t.Obtains e' := by
  have hspec : ∀ {es₁ s e}, At (make seed tcp_only r) es es₁ s e → s.GivesUp e →
      s.ended.length = 5 ∧ (true ∈ s.ended ↔
        ∃ es₂ t e', At (make seed tcp_only r) es₁ es₂ t e' ∧ t.Obtains e') := by
    intro es₁ s e hat hgives
    obtain ⟨⟨hmade, hfive⟩, hmem⟩ := run_spec (make_counted seed tcp_only r) rfl hat.2
    obtain ⟨-, hdead, hmany⟩ := hgives
    rw [hdead, Bool.toNat_false] at hmade
    exact ⟨by omega, hmem⟩
  constructor
  · intro h es₁ s e hat hgives es₂ t e' hat' hobt
    obtain ⟨hlen, hmem⟩ := hspec hat hgives
    obtain ⟨-, hfalse⟩ := h.failed es₁ s e hat hgives
    have htrue : true ∈ s.ended := hmem.mpr ⟨es₂, t, e', hat', hobt⟩
    rw [List.take_of_length_le (Nat.le_of_eq hlen)] at hfalse
    exact absurd (hfalse true htrue) (by simp)
  · intro h
    have hfailed : ∀ es₁ s e, At (make seed tcp_only r) es es₁ s e → s.GivesUp e →
        5 ≤ s.ended.length ∧ ∀ b ∈ s.ended.take 5, b = false := by
      intro es₁ s e hat hgives
      obtain ⟨hlen, hmem⟩ := hspec hat hgives
      refine ⟨Nat.le_of_eq hlen.symm, fun b hb => ?_⟩
      by_contra hne
      rw [Bool.not_eq_false] at hne
      rw [hne] at hb
      obtain ⟨es₂, t, e', hat', hobt⟩ := hmem.mp (List.mem_of_mem_take hb)
      exact h es₁ s e hat hgives es₂ t e' hat' hobt
    refine ⟨hfailed, fun hall es₁ s e hat hgives => ?_⟩
    -- five requests ended, and the first of them both failed and succeeded
    obtain ⟨hlen, hfalse⟩ := hfailed es₁ s e hat hgives
    have hpos : 0 < s.ended.length := by omega
    have hmem : s.ended[0] ∈ s.ended.take 5 := by
      rw [List.mem_take_iff_getElem]
      exact ⟨0, by omega, rfl⟩
    have hf := hfalse _ hmem
    rw [hall es₁ s e hat _ (List.mem_of_mem_take hmem)] at hf
    exact absurd hf (by simp)

/-! ### Five certificates -/

/-- A provider on UDP with the key that signs `sampleCertificate`. -/
def sampleSubject : listed_resolver where
  id := ['a']
  hostname := ['a']
  public_key := Block.zero 32
  address := sampleProvider.address
  net_proto := .udp
  dnssec := false
  namecoin := false
  logging := false

/-- A reply with the certificate. -/
def sampleCertReply : List UInt8 :=
  [0, 1, 0x81, 0x80, 0, 1, 0, 1, 0, 0, 0, 0, 1, 97, 0, 0, 16, 0, 1,
    0xc0, 12, 0, 16, 0, 1, 0, 0, 0, 60, 0, 125, 124] ++ sampleCertificate 1

/-- The timer fires, the request is sent, and the reply comes. -/
def sampleRound : List certifier_event :=
  [.retry_timer ⟨false, 0, none⟩, .ready Sodium.tagged 1 false 0 (sampleIo []),
    .ready Sodium.tagged 1 false 0 (sampleIo sampleCertReply)]

/-- The certifier of that provider. -/
def sampleFresh : certifier_state :=
  make (cresponder.sampleArgs.draw sampleSubject) .udp sampleSubject

/-- Five times that, and every request obtains a valid certificate. -/
def sampleRounds : List certifier_event := (List.replicate 5 sampleRound).flatten

theorem sampleRounds_run : ∃ s, run sampleFresh sampleRounds = .ok s ∧
    s.ended = List.replicate 5 true ∧ s.timer_active = true ∧ s.alive = false ∧
    s.attempts_ = 5 := by
  have h : (run sampleFresh sampleRounds).map
      (fun s => (s.ended, s.timer_active, s.alive, s.attempts_)) =
        .ok (List.replicate 5 true, true, false, 5) := by decide +kernel
  cases hrun : run sampleFresh sampleRounds with
  | error e =>
      rw [hrun] at h
      exact absurd h (by simp [Except.map])
  | ok s =>
      rw [hrun] at h
      have hs := Except.ok.inj h
      simp only [Prod.mk.injEq] at hs
      exact ⟨s, rfl, hs⟩

/-- Five certificates were obtained, none was missed, and the next event stops the timer. -/
theorem stops_after_five_certificates :
    (∃ s, run sampleFresh sampleRounds = .ok s ∧ s.ended = List.replicate 5 true ∧
      s.timer_active = true ∧ ∀ s', s.step (.retry_timer ⟨false, 0, none⟩) = .ok s' →
        s'.timer_active = false) ∧
    ¬ OnFailureOnly sampleFresh (sampleRounds ++ [.retry_timer ⟨false, 0, none⟩]) := by
  obtain ⟨s, hrun, hended, hon, hdead, hmade⟩ := sampleRounds_run
  have hgives : s.GivesUp (.retry_timer ⟨false, 0, none⟩) := ⟨hon, hdead, by omega⟩
  constructor
  · refine ⟨s, hrun, hended, hon, fun s' h => ?_⟩
    exact (timer_stops_iff h hon).mpr (Or.inr hgives)
  · intro h
    obtain ⟨-, hfalse⟩ := h.failed sampleRounds s _ ⟨List.prefix_rfl, hrun⟩ hgives
    rw [hended] at hfalse
    exact absurd (hfalse true (by decide)) (by decide)

end certifier_state

end Cdns
