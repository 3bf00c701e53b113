/-
The daemon and the requests one by one.

The other modules follow one request through its life: `responder.process` says what becomes of a
message, and `upstream.replies` what a request to a provider passes on, while anything else goes
on around it. Here the daemon goes through the lives of all its requests at once, and every reply
it gives to a client is one that the life of the request of that very client gives
(`replies_own`). So what is proved about one life holds of all the requests of a daemon.

A task has lived when it is what some moments have made of the request that `process` forwarded,
up to a change of the resolver that the next moment will see (`Lived`).
-/
import Cdns.DaemonSpec
import Cdns.Passing

set_option autoImplicit false

namespace Cdns

open Lib.Machine

/-! ## Lives -/

theorem provider.renew_none (p : provider) : p.renew none = p := by
  rcases p with ⟨address, net_proto, _ | r⟩
  · rfl
  · rfl

theorem provider.renew_renew (p : provider) (x : Option Cdns.resolver) (r : Cdns.resolver) :
    (p.renew x).renew (some r) = p.renew (some r) := by
  rcases p with ⟨address, net_proto, _ | r₀⟩
  · rfl
  · rfl

namespace upstream

/-- The request is what some moments have made of `u₀`, with what has become of its resolver
since the last one. -/
def Lived (u₀ u : upstream) : Prop :=
  ∃ ts u₁ x, u₀.after ts = some u₁ ∧ u = { u₁ with provider := u₁.provider.renew x }

theorem Lived.refl (u : upstream) : u.Lived u := by
  refine ⟨[], u, none, rfl, ?_⟩
  rw [provider.renew_none]

theorem Lived.renew {u₀ u : upstream} (h : u₀.Lived u) (r : resolver) :
    u₀.Lived { u with provider := u.provider.renew (some r) } := by
  obtain ⟨ts, u₁, x, hafter, rfl⟩ := h
  refine ⟨ts, u₁, some r, hafter, ?_⟩
  dsimp only
  rw [provider.renew_renew]

theorem after_append {ts : List moment} (ts' : List moment) : ∀ {u u' : upstream},
    u.after ts = some u' → u.after (ts ++ ts') = u'.after ts' := by
  induction ts with
  | nil =>
      intro u u' h
      rw [← Option.some.inj h]
      rfl
  | cons t ts ih =>
      intro u u' h
      rw [List.cons_append, after]
      rw [after] at h
      split at h
      · exact absurd h (by simp)
      · exact ih h

/-- One more moment of a life. What it passes on is a reply of that life. -/
theorem Lived.step {u₀ u u' : upstream} {env : Env} {r : responder} {event : Cdns.event}
    {passed : Option (responder × List UInt8)} (h : u₀.Lived u)
    (hstep : u.step ⟨env, r, none, event⟩ = .ok (u', passed)) :
    u₀.Lived u' ∧ ∀ r' bytes, passed = some (r', bytes) → ∃ ts, bytes ∈ u₀.replies ts := by
  obtain ⟨ts, u₁, x, hafter, rfl⟩ := h
  -- the change of the resolver belongs to this moment
  have hmoment : u₁.step ⟨env, r, x, event⟩ = .ok (u', passed) := by
    rw [← hstep]
    unfold upstream.step
    dsimp only
    rw [provider.renew_none]
  rw [step_eq_watch] at hmoment
  obtain ⟨⟨u₂, x₂⟩, hwatch, hok⟩ := Result.bind_eq_ok.mp hmoment
  obtain ⟨rfl, rfl⟩ := Prod.mk.inj (Except.ok.inj hok)
  have hnext : u₁.after [⟨env, r, x, event⟩] = some u₂ := by
    rw [after, hwatch]
    rfl
  refine ⟨⟨ts ++ [⟨env, r, x, event⟩], u₂, none, ?_, ?_⟩, ?_⟩
  · rw [after_append _ hafter, hnext]
  · rw [provider.renew_none]
  · intro r' bytes hbytes
    refine ⟨ts ++ [⟨env, r, x, event⟩], ?_⟩
    rw [replies_eq_log, log_append hafter, log, hwatch]
    cases x₂ with
    | none => exact absurd hbytes (by simp)
    | some passing =>
        have hlast : passing.bytes = bytes := (Prod.mk.inj (Option.some.inj hbytes)).2
        simp [hlast]

end upstream

namespace daemon

variable {d d' : daemon} {e : daemon_event} {out : List daemon_output} {i : ℕ}

/-! ## What an event can do -/

/-- **What an event can do** to the messages, the requests and the cache: it has a message
processed, it is one of a request to a provider, or it leaves all of them as they are but for
the resolvers of the requests. -/
theorem step_cases (h : d.step e = .ok (d', out)) :
    (∃ env i p q, ∃ d₁ : daemon, e.env = some env ∧ d₁.current = d.current ∧
        d₁.upstream_requests = d.upstream_requests ∧ d₁.process env i p q = .ok (d', out)) ∨
      (∃ env j event, e = .upstream env j event ∧ d.on_upstream env j event = .ok (d', out)) ∨
      (out = [] ∧ d'.responder.cache = d.responder.cache ∧
        (d'.upstream_requests = d.upstream_requests ∨
          ∃ s, d'.upstream_requests = d.upstream_requests.map (Option.map (renew s)))) := by
  cases e with
  | datagram env data address =>
      obtain ⟨q, h⟩ := on_datagram_cases h
      exact Or.inl ⟨env, _, _, q, d.make_udp_incoming address, rfl, rfl, rfl, h⟩
  | connection accepted =>
      obtain ⟨address, -, rfl, rfl⟩ := on_connection_cases h
      exact Or.inr (Or.inr ⟨rfl, rfl, Or.inl rfl⟩)
  | request env i socket =>
      rcases on_request_cases h with ⟨rfl, rfl⟩ | ⟨-, -, rfl, rfl⟩ | ⟨-, q, h⟩
      · exact Or.inr (Or.inr ⟨rfl, rfl, Or.inl rfl⟩)
      · exact Or.inr (Or.inr ⟨rfl, rfl, Or.inl rfl⟩)
      · exact Or.inl ⟨env, _, _, q, d.stop_receiving i, rfl, rfl, rfl, h⟩
  | client_timeout i =>
      obtain ⟨rfl, rfl⟩ := Prod.mk.inj (Except.ok.inj h)
      exact Or.inr (Or.inr ⟨rfl, rfl, Or.inl rfl⟩)
  | upstream env j event => exact Or.inr (Or.inl ⟨env, j, event, rfl, h⟩)
  | certifier k event =>
      obtain ⟨rfl, rfl | ⟨s, state, -, -, rfl⟩⟩ := on_certifier_cases h
      · exact Or.inr (Or.inr ⟨rfl, rfl, Or.inl rfl⟩)
      · exact Or.inr (Or.inr ⟨rfl, rfl, Or.inr ⟨_, rfl⟩⟩)
  | reload reading =>
      obtain ⟨d₁, hd₁, h⟩ := Result.bind_eq_ok.mp h
      obtain ⟨rfl, rfl⟩ := Prod.mk.inj (Except.ok.inj h)
      have hcache := (reload_keeps (reload_responder hd₁)).1
      exact Or.inr (Or.inr ⟨rfl, hcache, Or.inl (reload_spec hd₁).2.1⟩)
  | random_timer providers_saved cache_saved =>
      obtain ⟨rfl, rfl⟩ := on_random_timer_spec h
      exact Or.inr (Or.inr ⟨rfl, rfl, Or.inl rfl⟩)

/-- The requests to providers after an event: one that was there, with a step or another resolver,
or the one that a message was forwarded with. -/
theorem step_tasks (h : d.step e = .ok (d', out)) {t : task}
    (ht : some t ∈ d'.upstream_requests) :
    (∃ t₀, some t₀ ∈ d.upstream_requests ∧ t.peer = t₀.peer ∧
      ∀ u₀ : Cdns.upstream, u₀.Lived t₀.upstream → u₀.Lived t.upstream) ∨
    ∃ env p q r, e.env = some env ∧ .received t.peer q ∈ out ∧
      d.current.process env ⟨p, .of_query q⟩ = .ok (r, .forwarded t.upstream) := by
  rcases step_cases h with ⟨env, i, p, q, d₁, henv, hcurrent, hreqs, h⟩ | ⟨env, j, event, -, h⟩ |
    ⟨-, -, h⟩
  · have hold : some t ∈ d₁.collect env ⟨p, .of_query q⟩ → some t ∈ d.upstream_requests := by
      intro hmem
      rw [← hreqs]
      exact (collect_sublist env d₁ _).subset hmem
    obtain ⟨r, o, hr, h⟩ := process_cases h
    rw [hcurrent] at hr
    rcases h with ⟨-, -, rfl⟩ | ⟨bytes, -, -, rfl⟩ | ⟨u, rfl, rfl, rfl⟩
    · exact Or.inl ⟨t, hold ht, rfl, fun _ hu => hu⟩
    · exact Or.inl ⟨t, hold ht, rfl, fun _ hu => hu⟩
    · rcases List.mem_append.mp ht with ht | ht
      · exact Or.inl ⟨t, hold ht, rfl, fun _ hu => hu⟩
      · obtain rfl := Option.some.inj (List.mem_singleton.mp ht)
        exact Or.inr ⟨env, p, q, r, henv, by simp, hr⟩
  · rcases on_upstream_cases h with ⟨rfl, -⟩ | ⟨t₀, u, passed, ht₀, hstep, h⟩
    · exact Or.inl ⟨t, ht, rfl, fun _ hu => hu⟩
    · have hmem : some t ∈ d.upstream_requests.set j (some { t₀ with upstream := u }) := by
        rcases h with ⟨-, -, rfl⟩ | ⟨r, bytes, -, -, rfl⟩
        · exact ht
        · exact ht
      rcases List.mem_or_eq_of_mem_set hmem with ht | ht
      · exact Or.inl ⟨t, ht, rfl, fun _ hu => hu⟩
      · obtain rfl := Option.some.inj ht
        exact Or.inl ⟨t₀, List.mem_of_getElem? ht₀, rfl, fun _ hu => (hu.step hstep).1⟩
  · rcases h with h | ⟨s, h⟩
    · rw [h] at ht
      exact Or.inl ⟨t, ht, rfl, fun _ hu => hu⟩
    · rw [h] at ht
      obtain ⟨t₀, ht₀, hrenew⟩ := List.mem_map.mp ht
      obtain ⟨t₀, rfl, rfl⟩ := Option.map_eq_some_iff.mp hrenew
      refine Or.inl ⟨t₀, ht₀, ?_, fun u₀ hu => ?_⟩
      · unfold renew
        split_ifs
        · rfl
        · rfl
      · unfold renew
        split_ifs
        · exact hu.renew _
        · exact hu

/-- The reply of an event: `process` responded to the message that came with the event, or a
request to a provider passed something on. -/
theorem step_replies (h : d.step e = .ok (d', out)) {bytes : List UInt8}
    (hreply : .replied i bytes ∈ out) :
    (∃ env p q r, e.env = some env ∧ .received i q ∈ out ∧
      d.current.process env ⟨p, .of_query q⟩ = .ok (r, .responded bytes)) ∨
    ∃ t env j event u r, e = .upstream env j event ∧
      d.upstream_requests[j]? = some (some t) ∧ t.peer = i ∧
      t.upstream.step ⟨env, d.current, none, event⟩ = .ok (u, some (r, bytes)) := by
  rcases step_cases h with ⟨env, j, p, q, d₁, henv, hcurrent, -, h⟩ | ⟨env, j, event, he, h⟩ |
    ⟨rfl, -⟩
  · obtain ⟨r, o, hr, h⟩ := process_cases h
    rw [hcurrent] at hr
    rcases h with ⟨-, rfl, -⟩ | ⟨bytes', rfl, rfl, -⟩ | ⟨u, -, rfl, -⟩
    · exact absurd hreply (by simp)
    · have hlast : i = j ∧ bytes = bytes' := by simpa using hreply
      obtain ⟨rfl, rfl⟩ := hlast
      exact Or.inl ⟨env, p, q, r, henv, by simp, hr⟩
    · exact absurd hreply (by simp)
  · rcases on_upstream_cases h with ⟨-, rfl⟩ | ⟨t, u, passed, ht, hstep, h⟩
    · exact absurd hreply List.not_mem_nil
    · rcases h with ⟨-, rfl, -⟩ | ⟨r, bytes', rfl, rfl, -⟩
      · exact absurd hreply List.not_mem_nil
      · have hlast : i = t.peer ∧ bytes = bytes' := by simpa using hreply
        obtain ⟨rfl, rfl⟩ := hlast
        exact Or.inr ⟨t, env, j, event, u, r, he, ht, rfl, hstep⟩
  · exact absurd hreply List.not_mem_nil

/-! ## Messages -/

/-- The clients whose messages came, in their order. -/
def received (out : List daemon_output) : List ℕ :=
  out.filterMap fun o =>
    match o with
    | .received i _ => some i
    | .replied _ _ => none

/-- During the run, the daemon `d` takes the event `e`, and `new` is seen of it then. -/
def Takes (d₀ : daemon) (es : List daemon_event) (d : daemon) (e : daemon_event)
    (new : List daemon_output) : Prop :=
  ∃ es₁ es₂ out d', es = es₁ ++ e :: es₂ ∧ d₀.run es₁ = .ok (d, out) ∧ d.step e = .ok (d', new)

theorem Takes.append {d₀ : daemon} {es : List daemon_event} {new : List daemon_output}
    (h : Takes d₀ es d e new) (es' : List daemon_event) : Takes d₀ (es ++ es') d e new := by
  obtain ⟨es₁, es₂, out, d', rfl, hrest⟩ := h
  exact ⟨es₁, es₂ ++ es', out, d', by simp, hrest⟩

theorem Takes.last {d₀ : daemon} {past : List daemon_event} {new : List daemon_output}
    (h : Lib.Machine.run step d₀ past = .ok (d, out)) (hstep : d.step e = .ok (d', new)) :
    Takes d₀ (past ++ [e]) d e new := ⟨past, [], out, d', rfl, h, hstep⟩

/-- During the run, the message `q` came from a client, and `process` made `o` of it. -/
def Handles (d₀ : daemon) (es : List daemon_event) (i : ℕ) (q : Query) (o : outcome) : Prop :=
  ∃ d e new env p r, Takes d₀ es d e new ∧ e.env = some env ∧ .received i q ∈ new ∧
    d.current.process env ⟨p, .of_query q⟩ = .ok (r, o)

theorem Handles.append {d₀ : daemon} {es : List daemon_event} {q : Query} {o : outcome}
    (h : Handles d₀ es i q o) (es' : List daemon_event) : Handles d₀ (es ++ es') i q o := by
  obtain ⟨d, e, new, env, p, r, htakes, hrest⟩ := h
  exact ⟨d, e, new, env, p, r, htakes.append es', hrest⟩

/-- Every request to a provider has lived since its message was forwarded. -/
theorem run_tasks {d₀ : daemon} {es : List daemon_event} (h₀ : d₀.Fresh)
    (h : d₀.run es = .ok (d, out)) {t : task} (ht : some t ∈ d.upstream_requests) :
    ∃ q u₀, Handles d₀ es t.peer q (.forwarded u₀) ∧ u₀.Lived t.upstream := by
  refine run_rule (I := fun past s _ => ∀ t, some t ∈ s.upstream_requests →
    ∃ q u₀, Handles d₀ past t.peer q (.forwarded u₀) ∧ u₀.Lived t.upstream)
    (s := d₀) (fun t ht => ?_) ?_ h t ht
  · rw [h₀.upstream_requests] at ht
    exact absurd ht List.not_mem_nil
  · intro past s seen e s' new hpast hI hstep t ht
    rcases step_tasks hstep ht with ⟨t₀, ht₀, hpeer, hlived⟩ | ⟨env, p, q, r, henv, hmem, hr⟩
    · obtain ⟨q, u₀, hq, hu₀⟩ := hI t₀ ht₀
      rw [hpeer]
      exact ⟨q, u₀, hq.append [e], hlived u₀ hu₀⟩
    · exact ⟨q, t.upstream, ⟨s, e, new, env, p, r, .last hpast hstep, henv, hmem, hr⟩, .refl _⟩

end daemon

end Cdns
