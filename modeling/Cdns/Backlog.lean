/-
How long the lists of requests get.

The clean-up of the lists leaves an active request out now and then, and passes finished ones
over. What it passes over is the request behind one that it erases, so of the finished requests at
most half stay (`kept_finished_le`). Each list is cleaned up before a request is added to it, and
that keeps all three lists of the daemon short: if there are never more than `n` open requests in
a list, it never has more than `n + 2` entries (`backlog_le`).
-/
import Cdns.DaemonLoss

set_option autoImplicit false

namespace Cdns

open Lib.Machine

/-! ## One clean-up -/

/-- **Half of the finished requests are gone** after a clean-up, at least. -/
theorem kept_finished_le {ρ : Type} {finished : ρ → Bool} (l : List ρ) :
    2 * (kept finished l).countP finished ≤ l.countP finished := by
  induction l using kept.induct finished with
  | case1 => exact le_refl 0
  | case2 x hx =>
      rw [kept, if_pos hx]
      exact Nat.zero_le _
  | case3 x hx =>
      rw [kept, if_neg hx, List.countP_cons_of_neg hx]
      exact Nat.zero_le _
  | case4 x y l hx hl ih =>
      rw [kept, if_pos hx, if_pos hl]
      exact Nat.zero_le _
  | case5 x y l hx hl ih =>
      rw [kept, if_pos hx, if_neg hl, List.countP_cons_of_pos hx]
      by_cases hy : finished y = true
      · rw [List.countP_cons_of_pos hy, List.countP_cons_of_pos hy]
        omega
      · rw [List.countP_cons_of_neg hy, List.countP_cons_of_neg hy]
        omega
  | case6 x y l hx ih =>
      rw [kept, if_neg hx, List.countP_cons_of_neg hx, List.countP_cons_of_neg hx]
      exact ih

/-- A list that is cleaned up has room for one more request. -/
theorem clean_up_length_lt {α : Type} {finished : α → Bool} {reqs : List (Option α)} {n : ℕ}
    (hopen : reqs.countP (fun q => !q.any finished) ≤ n) (hlen : reqs.length ≤ n + 2) :
    (clean_up finished reqs).length < n + 2 := by
  have hsplit : ∀ l : List (Option α), l.length
      = l.countP (fun q => q.any finished) + l.countP fun q => !q.any finished := by
    intro l
    rw [List.length_eq_countP_add_countP fun q => Option.any finished q]
    congr 1
    refine List.countP_congr ?_
    intro q _
    simp
  have hhalf := @kept_finished_le _ (fun q => Option.any finished q) reqs
  have hkept : (kept (fun q => Option.any finished q) reqs).countP (fun q => !q.any finished)
      ≤ reqs.countP fun q => !q.any finished := (kept_sublist reqs).countP_le
  have htotal := hsplit reqs
  have hrest := hsplit (kept (fun q => Option.any finished q) reqs)
  rw [clean_up_eq_kept]
  omega

namespace daemon

variable {d d' : daemon} {e : daemon_event} {out : List daemon_output}

/-! ## The three lists -/

/-- The open requests in the list of a listener. -/
def open_requests (d : daemon) (requests : List (Option ℕ)) : ℕ :=
  requests.countP fun q => !q.any d.is_closed

/-- The requests to providers that are under way. -/
def open_tasks (d : daemon) : ℕ := d.upstream_requests.countP fun t => !finished_task t

/-- What processing does to the lists: the listeners keep theirs, and a request to a provider is
added only to a list that was cleaned up. -/
theorem process_lists {env : Env} {i : ℕ} {p : proto} {q : Query}
    (h : d.process env i p q = .ok (d', out)) :
    d'.udp_requests = d.udp_requests ∧ d'.tcp_requests = d.tcp_requests ∧
      (d'.upstream_requests.length ≤ d.upstream_requests.length ∨
        d'.upstream_requests.length
          = (responder.collect_garbage task.is_active d.upstream_requests).length + 1) := by
  have hle := (collect_sublist env d ⟨p, .of_query q⟩).length_le
  obtain ⟨r, o, hr, h⟩ := process_cases h
  rcases h with ⟨-, -, rfl⟩ | ⟨bytes, -, -, rfl⟩ | ⟨u, rfl, -, rfl⟩
  · exact ⟨rfl, rfl, Or.inl hle⟩
  · exact ⟨rfl, rfl, Or.inl hle⟩
  · refine ⟨rfl, rfl, Or.inr ?_⟩
    rw [List.length_append, List.length_singleton, collect, if_pos (asks_of_forwarded hr)]

/-- One event does not make the list of a listener too long. -/
theorem step_requests_le {n : ℕ} (h : d.step e = .ok (d', out)) :
    (d.open_requests d.udp_requests ≤ n → d.udp_requests.length ≤ n + 2 →
      d'.udp_requests.length ≤ n + 2) ∧
    (d.open_requests d.tcp_requests ≤ n → d.tcp_requests.length ≤ n + 2 →
      d'.tcp_requests.length ≤ n + 2) := by
  have hsame : d'.udp_requests = d.udp_requests → d'.tcp_requests = d.tcp_requests →
      (d.open_requests d.udp_requests ≤ n → d.udp_requests.length ≤ n + 2 →
        d'.udp_requests.length ≤ n + 2) ∧
      (d.open_requests d.tcp_requests ≤ n → d.tcp_requests.length ≤ n + 2 →
        d'.tcp_requests.length ≤ n + 2) := by
    intro hudp htcp
    rw [hudp, htcp]
    exact ⟨fun _ hlen => hlen, fun _ hlen => hlen⟩
  cases e with
  | datagram env data address =>
      obtain ⟨q, h⟩ := on_datagram_cases h
      obtain ⟨hudp, htcp, -⟩ := process_lists h
      rw [hudp, htcp]
      refine ⟨fun hopen hlen => ?_, fun _ hlen => hlen⟩
      rw [make_udp_incoming, List.length_append, List.length_singleton]
      exact clean_up_length_lt hopen hlen
  | connection accepted =>
      obtain ⟨address, -, rfl, -⟩ := on_connection_cases h
      refine ⟨fun _ hlen => hlen, fun hopen hlen => ?_⟩
      rw [make_tcp_incoming, List.length_append, List.length_singleton]
      exact clean_up_length_lt hopen hlen
  | request env i socket =>
      rcases on_request_cases h with ⟨rfl, -⟩ | ⟨-, -, rfl, -⟩ | ⟨-, q, h⟩
      · exact hsame rfl rfl
      · exact hsame rfl rfl
      · obtain ⟨hudp, htcp, -⟩ := process_lists h
        exact hsame hudp htcp
  | client_timeout i =>
      obtain ⟨rfl, -⟩ := Prod.mk.inj (Except.ok.inj h)
      exact hsame rfl rfl
  | upstream env j event =>
      rcases on_upstream_cases h with ⟨rfl, -⟩ | ⟨t, u, passed, -, -, h⟩
      · exact hsame rfl rfl
      · rcases h with ⟨-, -, rfl⟩ | ⟨r, bytes, -, -, rfl⟩
        · exact hsame rfl rfl
        · exact hsame rfl rfl
  | certifier k event =>
      obtain ⟨-, rfl | ⟨s, state, -, -, rfl⟩⟩ := on_certifier_cases h
      · exact hsame rfl rfl
      · exact hsame rfl rfl
  | reload reading =>
      obtain ⟨d₁, hd₁, h⟩ := Result.bind_eq_ok.mp h
      obtain ⟨rfl, -⟩ := Prod.mk.inj (Except.ok.inj h)
      obtain ⟨-, -, hudp, htcp⟩ := reload_spec hd₁
      exact hsame hudp htcp
  | random_timer providers_saved cache_saved =>
      obtain ⟨rfl, -⟩ := on_random_timer_spec h
      exact hsame rfl rfl

/-- One event does not make the list of requests to providers too long. -/
theorem step_tasks_le {n : ℕ} (h : d.step e = .ok (d', out)) (hopen : d.open_tasks ≤ n)
    (hlen : d.upstream_requests.length ≤ n + 2) : d'.upstream_requests.length ≤ n + 2 := by
  rcases step_cases h with ⟨env, i, p, q, d₁, -, -, hreqs, h⟩ | ⟨env, j, event, -, h⟩ | ⟨-, -, h⟩
  · obtain ⟨-, -, hlist⟩ := process_lists h
    rw [hreqs] at hlist
    have hroom := @clean_up_length_lt _ (fun t : task => !t.is_active) _ _ hopen hlen
    rcases hlist with hlist | hlist
    · omega
    · rw [hlist]
      exact hroom
  · rcases on_upstream_cases h with ⟨rfl, -⟩ | ⟨t, u, passed, -, -, h⟩
    · exact hlen
    · rcases h with ⟨-, -, rfl⟩ | ⟨r, bytes, -, -, rfl⟩
      · rw [List.length_set]
        exact hlen
      · rw [close, List.length_set]
        exact hlen
  · rcases h with h | ⟨s, h⟩
    · rw [h]
      exact hlen
    · rw [h, List.length_map]
      exact hlen

/-- Every state of the run, with what it counts, is within a bound. -/
def Within (d₀ : daemon) (es : List daemon_event) (count : daemon → ℕ) (n : ℕ) : Prop :=
  ∀ es₁ d₁ out₁, es₁ <+: es → d₀.run es₁ = .ok (d₁, out₁) → count d₁ ≤ n

/-- A list that no event makes too long while few of its requests are open. -/
theorem run_length_le {d₀ : daemon} {es : List daemon_event} {n : ℕ} (count length : daemon → ℕ)
    (hstep : ∀ {d e d' out}, d.step e = .ok (d', out) → count d ≤ n → length d ≤ n + 2 →
      length d' ≤ n + 2)
    (h₀ : length d₀ = 0) (hcount : Within d₀ es count n) (h : d₀.run es = .ok (d, out)) :
    length d ≤ n + 2 := by
  have hrun := run_rule (I := fun past s _ => past <+: es → length s ≤ n + 2) (s := d₀) ?_ ?_ h
  · exact hrun (List.prefix_refl es)
  · intro _
    omega
  · intro past s seen e s' new hpast hI hs hle
    have hbefore : past <+: es := (List.prefix_append past [e]).trans hle
    exact hstep hs (hcount past s seen hbefore hpast) (hI hbefore)

end daemon

/-- **The lists of requests stay short.** In every run of a daemon in which there are at no time
more than `n` open requests in the list of a listener, that list never has more than `n + 2`
entries, and so for the list of the requests to providers. -/
theorem daemon.backlog_le {d₀ d : daemon} {es : List daemon_event} {out : List daemon_output}
    (h₀ : d₀.Fresh) (h : d₀.run es = .ok (d, out)) (n : ℕ) :
    (Within d₀ es (fun d => d.open_requests d.udp_requests) n → d.udp_requests.length ≤ n + 2) ∧
    (Within d₀ es (fun d => d.open_requests d.tcp_requests) n → d.tcp_requests.length ≤ n + 2) ∧
    (Within d₀ es open_tasks n → d.upstream_requests.length ≤ n + 2) := by
  refine ⟨fun hcount => ?_, fun hcount => ?_, fun hcount => ?_⟩
  · refine run_length_le _ (fun d => d.udp_requests.length)
      (fun hs => (step_requests_le hs).1) ?_ hcount h
    simp [h₀.udp_requests]
  · refine run_length_le _ (fun d => d.tcp_requests.length)
      (fun hs => (step_requests_le hs).2) ?_ hcount h
    simp [h₀.tcp_requests]
  · refine run_length_le _ (fun d => d.upstream_requests.length)
      (fun hs => step_tasks_le hs) ?_ hcount h
    simp [h₀.upstream_requests]

/-- Three connections, of which the first two are closed, and a fourth one. -/
def sampleBacklog : List daemon_event :=
  [.connection (some sampleProvider.address), .connection (some sampleProvider.address),
    .connection (some sampleProvider.address), .client_timeout 0, .client_timeout 1,
    .connection (some sampleProvider.address)]

theorem sampleBacklog_within : daemon.Within sampleDaemon sampleBacklog
    (fun d => d.open_requests d.tcp_requests) 3 := by
  intro es₁ d₁ out₁ hprefix hrun
  obtain ⟨k, hk, rfl⟩ : ∃ k ≤ 6, es₁ = sampleBacklog.take k :=
    ⟨es₁.length, hprefix.length_le, List.prefix_iff_eq_take.mp hprefix⟩
  interval_cases k
  all_goals
    obtain ⟨rfl, -⟩ := Prod.mk.inj (Except.ok.inj hrun)
    simp only [daemon.open_requests, daemon.make_tcp_incoming, daemon.close,
      abs_listener.on_message_clean_up, clean_up_eq_kept]
    decide

/-- The clean-up passes one of the closed requests over. -/
theorem daemon.backlog_le_sample : ∃ d out, sampleDaemon.run sampleBacklog = .ok (d, out) ∧
    d.tcp_requests = [some 1, some 2, some 3] ∧ d.is_closed 1 = true ∧
      d.tcp_requests.length ≤ 3 + 2 := by
  refine ⟨_, _, rfl, ?_, rfl, (daemon.backlog_le sampleDaemon_fresh rfl 3).2.1 sampleBacklog_within⟩
  simp only [daemon.make_tcp_incoming, daemon.close, abs_listener.on_message_clean_up,
    clean_up_eq_kept]
  decide

end Cdns
