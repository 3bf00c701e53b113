/-
What the daemon does with the requests of its clients, over whole runs.

The clients' requests that may still be answered are those that wait for their message in the
list of the listener, and those that a request to a provider is under way for. `desk` is the
daemon seen as a desk: every event is a move of it (`step_moves`), whatever the provider, the
lists and the clocks do. So no client is answered twice (`answered_once`), and one whose request
was dropped, timed out or collected is never answered (`never_answered`).

The invariant behind this is `Sound`: no two requests to providers are under way for the same
client, and none for a client whose message has not come.
-/
import Cdns.Daemon
import Cdns.Reload

set_option autoImplicit false

namespace Cdns

open Lib.Machine Lib.Keyed

/-! ## Lists -/

/-- The clean-up adds nothing and keeps the order. -/
theorem kept_sublist {ρ : Type} {finished : ρ → Bool} (l : List ρ) : (kept finished l).Sublist l := by
  induction l using kept.induct finished with
  | case1 => exact List.Sublist.refl []
  | case2 x hx =>
      rw [kept, if_pos hx]
      exact List.nil_sublist _
  | case3 x hx =>
      rw [kept, if_neg hx]
  | case4 x y l hx hl ih =>
      rw [kept, if_pos hx, if_pos hl]
      exact List.nil_sublist _
  | case5 x y l hx hl ih =>
      rw [kept, if_pos hx, if_neg hl]
      exact (ih.cons_cons y).cons x
  | case6 x y l hx ih =>
      rw [kept, if_neg hx]
      exact ih.cons_cons x

/-- The clean-up of a list of requests adds nothing and keeps the order. -/
theorem clean_up_sublist {α : Type} (finished : α → Bool) (reqs : List (Option α)) :
    (clean_up finished reqs).Sublist reqs := by
  rw [clean_up_eq_kept]
  exact kept_sublist reqs

/-- The place of an element of a list, and the list with another element there. -/
theorem exists_split {α : Type} {l : List α} {j : ℕ} {x : α} (h : l[j]? = some x) :
    ∃ a b, l = a ++ x :: b ∧ ∀ y, l.set j y = a ++ y :: b := by
  obtain ⟨hlt, rfl⟩ := List.getElem?_eq_some_iff.mp h
  refine ⟨l.take j, l.drop (j + 1), ?_, fun y => ?_⟩
  · rw [List.getElem_cons_drop, List.take_append_drop]
  · rw [List.set_eq_take_append_cons_drop, if_pos hlt]

/-! ## The stages of a request -/

/-- A request that is closed stays closed and passes nothing on; one that passes something on is
closed by that. -/
theorem upstream.step_stage {u u' : upstream} {t : moment}
    {passed : Option (responder × List UInt8)} (h : u.step t = .ok (u', passed)) :
    (u.stage = .closed → u'.stage = .closed ∧ passed = none) ∧
      (passed ≠ none → u'.stage = .closed) := by
  unfold upstream.step at h
  dsimp only at h
  split at h
  · obtain ⟨rfl, rfl⟩ := Prod.mk.inj (Except.ok.inj h)
    exact ⟨fun _ => ⟨rfl, rfl⟩, fun _ => rfl⟩
  · obtain ⟨next, hnext, h⟩ := Result.bind_eq_ok.mp h
    have hclosed : u.stage = .closed → next = .over none := by
      intro hstage
      unfold upstream.callback at hnext
      dsimp only at hnext
      rw [hstage] at hnext
      exact (Except.ok.inj hnext).symm
    rcases next with ⟨s, q⟩ | passed'
    · obtain ⟨rfl, rfl⟩ := Prod.mk.inj (Except.ok.inj h)
      exact ⟨fun hstage => absurd (hclosed hstage) (by simp), fun hp => absurd rfl hp⟩
    · obtain ⟨rfl, rfl⟩ := Prod.mk.inj (Except.ok.inj h)
      refine ⟨fun hstage => ⟨rfl, ?_⟩, fun _ => rfl⟩
      simpa using hclosed hstage

namespace daemon

variable {d d' : daemon} {out : List daemon_output} {i : ℕ} {address : Cdns.address}

/-! ## Requests that may be answered -/

/-- The client that a request to a provider is under way for. -/
def waits (t : Option task) : Option ℕ := t.bind fun t => if t.is_active then some t.peer else none

/-- The clients that requests to providers are under way for. -/
def pending (d : daemon) : List ℕ := d.upstream_requests.filterMap waits

/-- The message of a client's request has not come, and the request was not closed before it
came. -/
def receives (d : daemon) (i : ℕ) : Prop := ∃ p, d.peers[i]? = some p ∧ p.receiving = true

/-- The message of a client's request may still come: the listener has the request, and has not
destroyed it. -/
def awaits (d : daemon) (i : ℕ) : Prop := d.receives i ∧ some i ∈ d.tcp_requests

/-- The daemon as a desk. -/
def desk (d : daemon) : Desk ℕ where
  seen := { i | i < d.peers.length }
  live := { i | d.awaits i ∨ i ∈ d.pending }

/-- The clients that were answered, in the order of the answers. -/
def answered (out : List daemon_output) : List ℕ :=
  out.filterMap fun o =>
    match o with
    | .received _ _ => none
    | .replied i _ => some i

theorem mem_answered : i ∈ answered out ↔ ∃ bytes, .replied i bytes ∈ out := by
  unfold answered
  rw [List.mem_filterMap]
  constructor
  · rintro ⟨o, ho, hi⟩
    cases o with
    | received j q => exact absurd hi (by simp)
    | replied j bytes =>
        obtain rfl := Option.some.inj hi
        exact ⟨bytes, ho⟩
  · rintro ⟨bytes, ho⟩
    exact ⟨_, ho, rfl⟩

/-- **The invariant of the daemon**: no two requests are under way for the same client, and none
for a client whose message has not come. -/
structure Sound (d : daemon) : Prop where
  nodup : d.pending.Nodup
  waiting : ∀ i ∈ d.pending, i < d.peers.length ∧ ¬ d.receives i

theorem receives_lt (h : d.receives i) : i < d.peers.length := by
  obtain ⟨p, hp, -⟩ := h
  exact (List.getElem?_eq_some_iff.mp hp).1

theorem Sound.live_seen (h : d.Sound) : d.desk.live ⊆ d.desk.seen := by
  rintro i (hi | hi)
  · exact receives_lt hi.1
  · exact (h.waiting i hi).1

theorem length_not_seen (d : daemon) : d.peers.length ∉ d.desk.seen := lt_irrefl d.peers.length

theorem Fresh.pending (h : d.Fresh) : d.pending = [] := by
  rw [daemon.pending, h.upstream_requests, List.filterMap_nil]

theorem Fresh.sound (h : d.Fresh) : d.Sound := by
  refine ⟨?_, fun i hi => ?_⟩
  · rw [h.pending]
    exact List.nodup_nil
  · rw [h.pending] at hi
    exact absurd hi List.not_mem_nil

@[simp] theorem answered_append (out new : List daemon_output) :
    answered (out ++ new) = answered out ++ answered new := List.filterMap_append

/-! ## Small changes -/

/-- Two daemons with the same requests to providers, one of which waits for no more messages than
the other. -/
theorem sound_of_sublist (h : d.Sound) (hpending : d'.pending.Sublist d.pending)
    (hlen : d.peers.length ≤ d'.peers.length)
    (hreceives : ∀ i ∈ d'.pending, d'.receives i → d.receives i) : d'.Sound := by
  refine ⟨h.nodup.sublist hpending, fun i hi => ?_⟩
  obtain ⟨hlt, hnot⟩ := h.waiting i (hpending.subset hi)
  exact ⟨by omega, fun hr => hnot (hreceives i hi hr)⟩

theorem close_length (d : daemon) (i : ℕ) : (d.close i).peers.length = d.peers.length :=
  List.length_modify _ _ _

/-- A request that was stopped waits for nothing, and the others are as before. -/
theorem modify_receives {f : peer → peer} (hf : ∀ p, (f p).receiving = false)
    (h : d'.peers = d.peers.modify i f) (j : ℕ) : d'.receives j ↔ d.receives j ∧ j ≠ i := by
  unfold receives
  rw [h, List.getElem?_modify]
  by_cases hij : i = j
  · subst hij
    cases d.peers[i]? with
    | none => simp
    | some p => simp [hf]
  · cases d.peers[j]? with
    | none => simp [hij]
    | some p => simp [hij, Ne.symm hij]

theorem close_receives (d : daemon) (i j : ℕ) : (d.close i).receives j ↔ d.receives j ∧ j ≠ i :=
  modify_receives (fun _ => rfl) rfl j

theorem close_awaits (d : daemon) (i j : ℕ) : (d.close i).awaits j ↔ d.awaits j ∧ j ≠ i := by
  unfold awaits
  rw [close_receives]
  exact and_right_comm

theorem stop_receives (d : daemon) (i j : ℕ) :
    (d.stop_receiving i).receives j ↔ d.receives j ∧ j ≠ i :=
  modify_receives (fun _ => rfl) rfl j

theorem stop_awaits (d : daemon) (i j : ℕ) :
    (d.stop_receiving i).awaits j ↔ d.awaits j ∧ j ≠ i := by
  unfold awaits
  rw [stop_receives]
  exact and_right_comm

/-- A new request waits for its message if it comes over TCP. -/
theorem enter_receives {p : peer} (h : d'.peers = d.peers ++ [p]) (j : ℕ) :
    d'.receives j ↔ d.receives j ∨ (j = d.peers.length ∧ p.receiving = true) := by
  have hold : d.peers.length ≤ j → ¬ d.receives j := fun hle hj =>
    absurd (receives_lt hj) (by omega)
  by_cases hlt : j < d.peers.length
  · have hne : j ≠ d.peers.length := by omega
    rw [receives, h, List.getElem?_append_left hlt]
    simp [receives, hne]
  · have hle : d.peers.length ≤ j := by omega
    rw [receives, h, List.getElem?_append_right hle, List.getElem?_singleton]
    simp only [hold hle, false_or]
    by_cases hj : j = d.peers.length
    · simp [hj]
    · rw [if_neg (by omega)]
      simp [hj]

theorem make_udp_receives (d : daemon) (address : Cdns.address) (j : ℕ) :
    (d.make_udp_incoming address).receives j ↔ d.receives j := by
  rw [enter_receives rfl j]
  exact or_iff_left fun h => absurd h.2 Bool.false_ne_true

theorem make_tcp_receives (d : daemon) (address : Cdns.address) (j : ℕ) :
    (d.make_tcp_incoming address).receives j ↔ d.receives j ∨ j = d.peers.length := by
  rw [enter_receives rfl j]
  exact or_congr_right (and_iff_left rfl)

/-- A request over TCP is added to those that the clean-up has kept. -/
theorem mem_make_tcp_incoming (d : daemon) (address : Cdns.address) (j : ℕ) :
    some j ∈ (d.make_tcp_incoming address).tcp_requests ↔
      some j ∈ abs_listener.on_message_clean_up d.is_closed d.tcp_requests ∨
        j = d.peers.length := by
  rw [make_tcp_incoming, List.mem_append, List.mem_singleton, Option.some.injEq]

/-- The new request awaits its message, and of the others some are destroyed. -/
theorem make_tcp_awaits (h : (d.make_tcp_incoming address).awaits i) :
    d.awaits i ∨ i = d.peers.length := by
  obtain ⟨hrec, hmem⟩ := h
  rcases (make_tcp_receives d address i).mp hrec with hrec | hnew
  · rcases (mem_make_tcp_incoming d address i).mp hmem with hmem | hnew
    · exact Or.inl ⟨hrec, (clean_up_sublist d.is_closed d.tcp_requests).subset hmem⟩
    · exact Or.inr hnew
  · exact Or.inr hnew

/-- Garbage collection loses requests, and adds none. -/
theorem collect_sublist (env : Env) (d : daemon) (req : incoming) :
    (d.collect env req).Sublist d.upstream_requests := by
  unfold collect
  split_ifs
  · exact clean_up_sublist _ d.upstream_requests
  · exact List.Sublist.refl _

theorem collect_waits (env : Env) (d : daemon) (req : incoming) :
    ((d.collect env req).filterMap waits).Sublist d.pending :=
  (collect_sublist env d req).filterMap waits

/-! ## Processing -/

/-- **What processing a message can do**: the request is dropped, answered or forwarded, after
garbage may have been collected. -/
theorem process_cases {env : Env} {p : proto} {q : Query} (h : d.process env i p q = .ok (d', out)) :
    ∃ r o, d.current.process env ⟨p, .of_query q⟩ = .ok (r, o) ∧
      ((o = .dropped ∧ out = [.received i q] ∧
          d' = ({ d with
            responder := r
            upstream_requests := d.collect env ⟨p, .of_query q⟩ } : daemon).close i) ∨
        (∃ bytes, o = .responded bytes ∧ out = [.received i q, .replied i bytes] ∧
          d' = ({ d with
            responder := r
            upstream_requests := d.collect env ⟨p, .of_query q⟩ } : daemon).close i) ∨
        ∃ u, o = .forwarded u ∧ out = [.received i q] ∧
          d' = { d with
            responder := r
            upstream_requests := d.collect env ⟨p, .of_query q⟩
              ++ [some ⟨u, i, d.certifier_of env u.provider⟩] }) := by
  unfold process at h
  obtain ⟨⟨r, o⟩, hr, h⟩ := Result.bind_eq_ok.mp h
  refine ⟨r, o, hr, ?_⟩
  cases o with
  | dropped =>
      obtain ⟨rfl, rfl⟩ := Prod.mk.inj (Except.ok.inj h)
      exact Or.inl ⟨rfl, rfl, rfl⟩
  | responded bytes =>
      obtain ⟨rfl, rfl⟩ := Prod.mk.inj (Except.ok.inj h)
      exact Or.inr (Or.inl ⟨bytes, rfl, rfl, rfl⟩)
  | forwarded u =>
      obtain ⟨rfl, rfl⟩ := Prod.mk.inj (Except.ok.inj h)
      exact Or.inr (Or.inr ⟨u, rfl, rfl, rfl⟩)

/-- A task of a client. -/
theorem mem_waits_singleton {t : task} {j : ℕ} (h : j ∈ [some t].filterMap waits) : j = t.peer := by
  simp only [List.filterMap_cons, List.filterMap_nil, waits, Option.bind_some] at h
  split_ifs at h
  · simpa using h
  · exact absurd h (by simp)

theorem waits_singleton_nodup (t : task) : ([some t].filterMap waits).Nodup := by
  simp only [List.filterMap_cons, List.filterMap_nil, waits, Option.bind_some]
  split_ifs
  · simp
  · simp

/-- A client whose request is closed, after some requests to providers were collected. -/
theorem close_spec {r : Cdns.responder} {reqs : List (Option task)} (hd : d.Sound)
    (hsub : (reqs.filterMap waits).Sublist d.pending) (hnew : i ∉ reqs.filterMap waits)
    (h : d' = ({ d with responder := r, upstream_requests := reqs } : daemon).close i) :
    d'.Sound ∧ d'.desk.seen = d.desk.seen ∧ d'.desk.live ⊆ d.desk.live \ {i} := by
  subst h
  refine ⟨sound_of_sublist hd hsub ?_ ?_, ?_, ?_⟩
  · rw [close_length]
  · intro j _ hj
    exact ((close_receives _ _ _).mp hj).1
  · simp only [desk, close_length]
  · rintro j (hj | hj)
    · obtain ⟨hj, hne⟩ := (close_awaits _ _ _).mp hj
      exact ⟨Or.inl hj, hne⟩
    · refine ⟨Or.inr (hsub.subset hj), ?_⟩
      rintro rfl
      exact hnew hj

/-- Processing the message of a client that nothing is under way for. -/
theorem process_moves {env : Env} {p : proto} {q : Query} (hd : d.Sound) (hlt : i < d.peers.length)
    (hnot : ¬ d.receives i) (hnew : i ∉ d.pending) (h : d.process env i p q = .ok (d', out)) :
    d'.Sound ∧ Desk.Moves ⟨d.desk.seen, insert i d.desk.live⟩ (answered out) d'.desk := by
  have hsub := collect_waits env d ⟨p, .of_query q⟩
  have hnone : i ∉ (d.collect env ⟨p, .of_query q⟩).filterMap waits := fun h => hnew (hsub.subset h)
  obtain ⟨r, o, -, h⟩ := process_cases h
  rcases h with ⟨-, rfl, hd'⟩ | ⟨bytes, -, rfl, hd'⟩ | ⟨u, -, rfl, hd'⟩
  · obtain ⟨hsound, hseen, hlive⟩ := close_spec hd hsub hnone hd'
    refine ⟨hsound, .lose hseen ?_⟩
    exact (hlive.trans Set.sdiff_subset).trans (Set.subset_insert i _)
  · obtain ⟨hsound, hseen, hlive⟩ := close_spec hd hsub hnone hd'
    refine ⟨hsound, .answer (Set.mem_insert i _) hseen ?_⟩
    exact hlive.trans (Set.sdiff_subset_sdiff_left (Set.subset_insert i _))
  · have hpending : d'.pending = (d.collect env ⟨p, .of_query q⟩).filterMap waits
        ++ [some ⟨u, i, d.certifier_of env u.provider⟩].filterMap waits := by
      rw [hd', pending, List.filterMap_append]
    have hpeers : d'.peers = d.peers := by rw [hd']
    have hreceives : ∀ j, d'.receives j ↔ d.receives j := by
      intro j
      rw [receives, hpeers]
      rfl
    have hawaits : ∀ j, d'.awaits j ↔ d.awaits j := by
      intro j
      rw [awaits, hreceives, hd']
      rfl
    have hmem : ∀ j ∈ d'.pending, j ∈ d.pending ∨ j = i := by
      intro j hj
      rw [hpending, List.mem_append] at hj
      rcases hj with hj | hj
      · exact Or.inl (hsub.subset hj)
      · exact Or.inr (mem_waits_singleton hj)
    refine ⟨⟨?_, fun j hj => ?_⟩, .lose ?_ ?_⟩
    · rw [hpending, List.nodup_append]
      refine ⟨hd.nodup.sublist hsub, waits_singleton_nodup _, ?_⟩
      intro j hj k hk hjk
      rw [hjk, mem_waits_singleton hk] at hj
      exact hnone hj
    · rw [hreceives, hpeers]
      rcases hmem j hj with hj | rfl
      · exact hd.waiting j hj
      · exact ⟨hlt, hnot⟩
    · simp only [desk, hpeers]
    · rintro j (hj | hj)
      · exact Or.inr (Or.inl ((hawaits j).mp hj))
      · rcases hmem j hj with hj | rfl
        · exact Or.inr (Or.inr hj)
        · exact Set.mem_insert j _

/-! ## The events of clients -/

/-- The daemon with one more request. -/
theorem enter_spec {p : peer} (hd : d.Sound) (hpeers : d'.peers = d.peers ++ [p])
    (hreqs : d'.upstream_requests = d.upstream_requests) :
    d'.Sound ∧ d'.desk.seen = insert d.peers.length d.desk.seen := by
  have hpending : d'.pending = d.pending := by rw [pending, hreqs, pending]
  have hlen : d'.peers.length = d.peers.length + 1 := by
    rw [hpeers, List.length_append, List.length_singleton]
  refine ⟨sound_of_sublist hd ?_ (by omega) ?_, ?_⟩
  · rw [hpending]
  · intro j hj hr
    rcases (enter_receives hpeers j).mp hr with hr | ⟨rfl, -⟩
    · exact hr
    · rw [hpending] at hj
      exact absurd (hd.waiting _ hj).1 (lt_irrefl _)
  · ext j
    simp only [desk, hlen, Set.mem_ofPred_eq, Set.mem_insert_iff]
    omega

/-- **What a datagram can do**: its message is processed as that of a new client. -/
theorem on_datagram_cases {env : Env} {data : Option (List UInt8)}
    (h : d.on_datagram env data address = .ok (d', out)) :
    ∃ q, (d.make_udp_incoming address).process env d.peers.length .udp q = .ok (d', out) := by
  unfold on_datagram at h
  obtain ⟨-, -, h⟩ := Result.bind_eq_ok.mp h
  obtain ⟨m, -, h⟩ := Result.bind_eq_ok.mp h
  obtain ⟨q, -, h⟩ := Result.bind_eq_ok.mp h
  unfold create_response at h
  rw [if_pos (by simp [make_udp_incoming])] at h
  exact ⟨q, h⟩

theorem on_datagram_moves {env : Env} {data : Option (List UInt8)} (hd : d.Sound)
    (h : d.on_datagram env data address = .ok (d', out)) :
    d'.Sound ∧ d.desk.Moves (answered out) d'.desk := by
  obtain ⟨q, h⟩ := on_datagram_cases h
  obtain ⟨hsound, hseen⟩ := @enter_spec d (d.make_udp_incoming address) _ hd rfl rfl
  have hlive : (d.make_udp_incoming address).desk.live = d.desk.live := by
    ext j
    exact or_congr_left (and_congr_left fun _ => make_udp_receives d address j)
  have hrec : ¬ (d.make_udp_incoming address).receives d.peers.length := by
    rw [make_udp_receives]
    exact fun hr => absurd (receives_lt hr) (lt_irrefl _)
  have hproc := process_moves hsound (by simp [make_udp_incoming]) hrec
    (fun hp => absurd (hd.waiting _ hp).1 (lt_irrefl _)) h
  rw [hlive, hseen] at hproc
  refine ⟨hproc.1, ?_⟩
  exact (Desk.Moves.enter d.length_not_seen rfl Set.Subset.rfl).trans hproc.2

/-- **What a connection can do**: it makes a request that awaits its message. -/
theorem on_connection_cases {accepted : Option Cdns.address}
    (h : d.on_connection accepted = .ok (d', out)) :
    ∃ address, accepted = some address ∧ d' = d.make_tcp_incoming address ∧ out = [] := by
  unfold on_connection at h
  obtain ⟨-, -, h⟩ := Result.bind_eq_ok.mp h
  cases accepted with
  | none => exact absurd h (by simp)
  | some address =>
      obtain ⟨rfl, rfl⟩ := Prod.mk.inj (Except.ok.inj h)
      exact ⟨address, rfl, rfl, rfl⟩

theorem on_connection_moves {accepted : Option Cdns.address} (hd : d.Sound)
    (h : d.on_connection accepted = .ok (d', out)) :
    d'.Sound ∧ d.desk.Moves (answered out) d'.desk := by
  obtain ⟨address, -, rfl, rfl⟩ := on_connection_cases h
  obtain ⟨hsound, hseen⟩ := @enter_spec d (d.make_tcp_incoming address) _ hd rfl rfl
  refine ⟨hsound, .enter d.length_not_seen hseen ?_⟩
  rintro j (hj | hj)
  · rcases make_tcp_awaits hj with hj | rfl
    · exact Or.inr (Or.inl hj)
    · exact Set.mem_insert _ _
  · exact Or.inr (Or.inr hj)

/-- **What data of a client can do**: nothing, or the request is closed because nothing can be
received, or its message is processed. -/
theorem on_request_cases {env : Env} {socket : tcp_socket}
    (h : d.on_request env i socket = .ok (d', out)) :
    (d' = d ∧ out = []) ∨
      (d.awaits i ∧ (∃ what, tcp_receive socket new_packet = .error (.net_error what)) ∧
        d' = d.close i ∧ out = []) ∨
      (d.awaits i ∧ ∃ q, (d.stop_receiving i).process env i .tcp q = .ok (d', out)) := by
  unfold on_request at h
  split_ifs at h with hon
  · obtain ⟨hrecv, hlist⟩ := hon
    have hawaits : d.awaits i := ⟨(Option.any_eq_true _ _).mp hrecv, hlist⟩
    split at h
    · next what hwhat =>
      obtain ⟨rfl, rfl⟩ := Prod.mk.inj (Except.ok.inj h)
      exact Or.inr (Or.inl ⟨hawaits, ⟨what, hwhat⟩, rfl, rfl⟩)
    · exact absurd h (by simp)
    · obtain ⟨q, -, h⟩ := Result.bind_eq_ok.mp h
      unfold create_response at h
      rw [if_pos hlist] at h
      exact Or.inr (Or.inr ⟨hawaits, q, h⟩)
  · obtain ⟨rfl, rfl⟩ := Prod.mk.inj (Except.ok.inj h)
    exact Or.inl ⟨rfl, rfl⟩

theorem close_moves (hd : d.Sound) (i : ℕ) :
    (d.close i).Sound ∧ d.desk.Moves [] (d.close i).desk := by
  refine ⟨sound_of_sublist hd (List.Sublist.refl _) (close_length d i).ge ?_, .lose ?_ ?_⟩
  · intro j _ hj
    exact ((close_receives d i j).mp hj).1
  · simp only [desk, close_length]
  · rintro j (hj | hj)
    · exact Or.inl ((close_awaits d i j).mp hj).1
    · exact Or.inr hj

theorem on_request_moves {env : Env} {socket : tcp_socket} (hd : d.Sound)
    (h : d.on_request env i socket = .ok (d', out)) :
    d'.Sound ∧ d.desk.Moves (answered out) d'.desk := by
  rcases on_request_cases h with ⟨rfl, rfl⟩ | ⟨-, -, rfl, rfl⟩ | ⟨hi, q, h⟩
  · exact ⟨hd, .lose rfl Set.Subset.rfl⟩
  · exact close_moves hd i
  · have hlen : (d.stop_receiving i).peers.length = d.peers.length := List.length_modify _ _ _
    have hsound : (d.stop_receiving i).Sound :=
      sound_of_sublist hd (List.Sublist.refl _) hlen.ge fun j _ hj =>
        ((stop_receives d i j).mp hj).1
    have hlt : i < (d.stop_receiving i).peers.length := hlen ▸ receives_lt hi.1
    have hproc := process_moves hsound hlt (fun hr => ((stop_receives d i i).mp hr).2 rfl)
      (fun hp => (hd.waiting i hp).2 hi.1) h
    refine ⟨hproc.1, ?_⟩
    refine Desk.Moves.trans (a := []) (.lose ?_ ?_) hproc.2
    · simp only [desk, hlen]
    · rintro j (rfl | hj | hj)
      · exact Or.inl hi
      · exact Or.inl ((stop_awaits d i j).mp hj).1
      · exact Or.inr hj

/-! ## The events of requests to providers -/

/-- **What an event of a request to a provider can do**: nothing if there is no such request, and
otherwise a step of it, which may answer the client. -/
theorem on_upstream_cases {env : Env} {j : ℕ} {event : Cdns.event}
    (h : d.on_upstream env j event = .ok (d', out)) :
    (d' = d ∧ out = []) ∨
      ∃ t u passed, d.upstream_requests[j]? = some (some t) ∧
        t.upstream.step ⟨env, d.current, none, event⟩ = .ok (u, passed) ∧
        ((passed = none ∧ out = [] ∧ d' = { d with
            upstream_requests := d.upstream_requests.set j (some { t with upstream := u }) }) ∨
          ∃ r bytes, passed = some (r, bytes) ∧ out = [.replied t.peer bytes] ∧
            d' = ({ d with
              responder := r
              upstream_requests := d.upstream_requests.set j
                (some { t with upstream := u }) } : daemon).close t.peer) := by
  unfold on_upstream at h
  split at h
  · next t ht =>
    obtain ⟨⟨u, passed⟩, hstep, h⟩ := Result.bind_eq_ok.mp h
    refine Or.inr ⟨t, u, passed, ht, hstep, ?_⟩
    cases passed with
    | none =>
        obtain ⟨rfl, rfl⟩ := Prod.mk.inj (Except.ok.inj h)
        exact Or.inl ⟨rfl, rfl, rfl⟩
    | some a =>
        obtain ⟨rfl, rfl⟩ := Prod.mk.inj (Except.ok.inj h)
        exact Or.inr ⟨a.1, a.2, rfl, rfl, rfl⟩
  · obtain ⟨rfl, rfl⟩ := Prod.mk.inj (Except.ok.inj h)
    exact Or.inl ⟨rfl, rfl⟩

theorem is_active_eq_false {t : task} : t.is_active = false ↔ t.upstream.stage = .closed := by
  unfold task.is_active
  cases t.upstream.stage with
  | sending => simp
  | receiving => simp
  | stopped => simp
  | closed => simp

/-- An event that leaves the clients' requests alone. -/
theorem quiet_moves (hd : d.Sound) (hpeers : d'.peers = d.peers)
    (htcp : d'.tcp_requests = d.tcp_requests) (hsub : d'.pending.Sublist d.pending) :
    d'.Sound ∧ d.desk.Moves [] d'.desk := by
  have hreceives : ∀ j, d'.receives j ↔ d.receives j := by
    intro j
    rw [receives, hpeers]
    rfl
  have hawaits : ∀ j, d'.awaits j ↔ d.awaits j := by
    intro j
    rw [awaits, hreceives, htcp]
    rfl
  refine ⟨sound_of_sublist hd hsub (by rw [hpeers]) fun j _ hj => (hreceives j).mp hj, .lose ?_ ?_⟩
  · simp only [desk, hpeers]
  · rintro j (hj | hj)
    · exact Or.inl ((hawaits j).mp hj)
    · exact Or.inr (hsub.subset hj)

/-- The requests in front of a request, its client if it is under way, and the requests behind
it. -/
theorem waits_split (a b : List (Option task)) (t : task) :
    (a ++ some t :: b).filterMap waits
      = a.filterMap waits ++ ((waits (some t)).toList ++ b.filterMap waits) := by
  rw [List.filterMap_append, List.filterMap_cons]
  cases waits (some t) with
  | none => rfl
  | some p => rfl

/-- A step of a request that is under way closes it or does not, and one that is closed stays
closed. -/
theorem waits_step {t : task} {u : Cdns.upstream}
    (h : t.upstream.stage = .closed → u.stage = .closed) :
    (waits (some { t with upstream := u })).toList.Sublist (waits (some t)).toList := by
  unfold waits
  dsimp only [Option.bind_some]
  cases hu : ({ t with upstream := u } : task).is_active with
  | false => exact List.nil_sublist _
  | true =>
      have ht : t.is_active = true := by
        by_contra hno
        have hclosed := h (is_active_eq_false.mp (by simpa using hno))
        rw [is_active_eq_false.mpr hclosed] at hu
        exact absurd hu (by simp)
      rw [ht]

theorem on_upstream_moves {env : Env} {j : ℕ} {event : Cdns.event} (hd : d.Sound)
    (h : d.on_upstream env j event = .ok (d', out)) :
    d'.Sound ∧ d.desk.Moves (answered out) d'.desk := by
  rcases on_upstream_cases h with ⟨rfl, rfl⟩ | ⟨t, u, passed, ht, hstep, h⟩
  · exact ⟨hd, .lose rfl Set.Subset.rfl⟩
  · obtain ⟨hclosed, hpassed⟩ := upstream.step_stage hstep
    obtain ⟨a, b, hsplit, hset⟩ := exists_split ht
    have hpending : d.pending = a.filterMap waits ++ ((waits (some t)).toList ++ b.filterMap waits) := by
      rw [pending, hsplit, waits_split]
    have hsub : ((d.upstream_requests.set j (some { t with upstream := u })).filterMap waits).Sublist
        d.pending := by
      rw [hset, waits_split, hpending]
      exact (List.Sublist.refl _).append ((waits_step fun hc => (hclosed hc).1).append (.refl _))
    rcases h with ⟨-, rfl, rfl⟩ | ⟨r, bytes, rfl, rfl, hd'⟩
    · exact quiet_moves hd rfl rfl hsub
    · -- the request was under way, and is closed by what it passes on
      have hactive : t.is_active = true := by
        by_contra hno
        exact absurd (hclosed (is_active_eq_false.mp (by simpa using hno))).2 (by simp)
      have hover : ({ t with upstream := u } : task).is_active = false :=
        is_active_eq_false.mpr (hpassed (by simp))
      have hwaits : waits (some t) = some t.peer := by simp [waits, hactive]
      have hgone : waits (some { t with upstream := u }) = none := by simp [waits, hover]
      have hnodup := hd.nodup
      rw [hpending, hwaits] at hnodup
      have hnew : t.peer ∉ (d.upstream_requests.set j (some { t with upstream := u })).filterMap
          waits := by
        rw [hset, waits_split, hgone]
        have hperm := (List.nodup_middle.mp hnodup)
        exact (List.nodup_cons.mp hperm).1
      obtain ⟨hsound, hseen, hlive⟩ := close_spec hd hsub hnew hd'
      refine ⟨hsound, .answer ?_ hseen hlive⟩
      refine Or.inr ?_
      rw [hpending, hwaits]
      simp

/-! ## The other events -/

theorem renew_waits (s : slot) (t : Option task) : waits (t.map (renew s)) = waits t := by
  cases t with
  | none => rfl
  | some t =>
      rw [Option.map_some, renew]
      split_ifs
      · rfl
      · rfl

/-- **What an event of a certifier can do**: nothing if there is no such certifier, and otherwise
a step of it, which the requests under way see. -/
theorem on_certifier_cases {k : Str} {event : certifier_event}
    (h : d.on_certifier k event = .ok (d', out)) :
    out = [] ∧ (d' = d ∨ ∃ s state, d.certifiers.lookup k = some s ∧
      s.state.step (timed d.options.timeout event) = .ok state ∧
      d' = { d with
        certifiers := d.certifiers.modify k (fun s => { s with state := state }) fun _ => rfl
        upstream_requests := d.upstream_requests.map
          (Option.map (renew { s with state := state })) }) := by
  unfold on_certifier at h
  split at h
  · obtain ⟨rfl, rfl⟩ := Prod.mk.inj (Except.ok.inj h)
    exact ⟨rfl, Or.inl rfl⟩
  · next s hs =>
    obtain ⟨state, hstate, h⟩ := Result.bind_eq_ok.mp h
    obtain ⟨rfl, rfl⟩ := Prod.mk.inj (Except.ok.inj h)
    exact ⟨rfl, Or.inr ⟨s, state, hs, hstate, rfl⟩⟩

theorem on_certifier_moves {k : Str} {event : certifier_event} (hd : d.Sound)
    (h : d.on_certifier k event = .ok (d', out)) :
    d'.Sound ∧ d.desk.Moves (answered out) d'.desk := by
  obtain ⟨rfl, rfl | ⟨s, state, -, -, rfl⟩⟩ := on_certifier_cases h
  · exact ⟨hd, .lose rfl Set.Subset.rfl⟩
  · refine quiet_moves hd rfl rfl ?_
    rw [pending, List.filterMap_map]
    simp only [Function.comp_def, renew_waits]
    exact List.Sublist.refl _

/-- A reload keeps the cache, the counts, and what a `cresponder` adds. -/
theorem reload_keeps {disk : Disk} {params : responder_parameters} {r r' : Cdns.responder}
    (h : r.reload disk params = (r', none)) :
    r'.cache = r.cache ∧ r'.crypt = r.crypt ∧ r'.cache_dir = r.cache_dir ∧
      r'.processed_count = r.processed_count ∧ r'.blacklisted_count = r.blacklisted_count ∧
      r'.cached_count = r.cached_count := by
  rw [responder.reload_eq] at h
  obtain ⟨_, _, -, hr⟩ | ⟨_, _, _, -, -, hr⟩ | ⟨_, _, _, -, -, -, hr⟩ | ⟨_, _, _, _, -, -, -, -, hr⟩ |
    ⟨_, _, _, _, -, -, -, -, hr⟩ := responder.reload_rest_cases disk params
      { r with dns_providers := r.resolvers_after disk params }
  all_goals
    obtain ⟨rfl, -⟩ := Prod.mk.inj (h.symm.trans hr)
    exact ⟨rfl, rfl, rfl, rfl, rfl, rfl⟩

/-- What a reload leaves alone. -/
theorem reload_spec {x : Reading} (h : d.reload x = .ok d') :
    d'.peers = d.peers ∧ d'.upstream_requests = d.upstream_requests ∧
      d'.udp_requests = d.udp_requests ∧ d'.tcp_requests = d.tcp_requests := by
  unfold reload at h
  split at h
  · exact absurd h (by simp)
  · next r hr =>
    split_ifs at h
    · obtain ⟨certifiers, -, h⟩ := Result.bind_eq_ok.mp h
      obtain rfl := Except.ok.inj h
      exact ⟨rfl, rfl, rfl, rfl⟩
    · obtain rfl := Except.ok.inj h
      exact ⟨rfl, rfl, rfl, rfl⟩

/-- The responder behind a reload. -/
theorem reload_responder {x : Reading} (h : d.reload x = .ok d') :
    d.responder.reload x.disk d.options = (d'.responder, none) := by
  unfold reload at h
  split at h
  · exact absurd h (by simp)
  · next r hr =>
    rw [hr]
    split_ifs at h
    · obtain ⟨certifiers, -, h⟩ := Result.bind_eq_ok.mp h
      obtain rfl := Except.ok.inj h
      rfl
    · obtain rfl := Except.ok.inj h
      rfl

theorem on_random_timer_spec {providers_saved cache_saved : Bool}
    (h : d.on_random_timer providers_saved cache_saved = .ok (d', out)) : d' = d ∧ out = [] := by
  unfold on_random_timer at h
  split_ifs at h
  · obtain ⟨rfl, rfl⟩ := Prod.mk.inj (Except.ok.inj h)
    exact ⟨rfl, rfl⟩
  · obtain ⟨rfl, rfl⟩ := Prod.mk.inj (Except.ok.inj h)
    exact ⟨rfl, rfl⟩

/-! ## Every event -/

/-- **Every event is a move of the desk**, and keeps the daemon sound. -/
theorem step_moves {e : daemon_event} (hd : d.Sound) (h : d.step e = .ok (d', out)) :
    d'.Sound ∧ d.desk.Moves (answered out) d'.desk := by
  cases e with
  | datagram env data address => exact on_datagram_moves hd h
  | connection accepted => exact on_connection_moves hd h
  | request env i socket => exact on_request_moves hd h
  | client_timeout i =>
      obtain ⟨rfl, rfl⟩ := Prod.mk.inj (Except.ok.inj h)
      exact close_moves hd i
  | upstream env j event => exact on_upstream_moves hd h
  | certifier k event => exact on_certifier_moves hd h
  | reload reading =>
      obtain ⟨d₁, hd₁, h⟩ := Result.bind_eq_ok.mp h
      obtain ⟨rfl, rfl⟩ := Prod.mk.inj (Except.ok.inj h)
      obtain ⟨hpeers, hreqs, -, htcp⟩ := reload_spec hd₁
      refine quiet_moves hd hpeers htcp ?_
      rw [pending, hreqs, pending]
  | random_timer providers_saved cache_saved =>
      obtain ⟨rfl, rfl⟩ := on_random_timer_spec h
      exact ⟨hd, .lose rfl Set.Subset.rfl⟩

/-- A run keeps the daemon sound, and is a move of the desk. -/
theorem run_moves {es : List daemon_event} (hd : d.Sound) (h : d.run es = .ok (d', out)) :
    d'.Sound ∧ d.desk.Moves (answered out) d'.desk := by
  refine run_rule (I := fun _ s past => s.Sound ∧ d.desk.Moves (answered past) s.desk)
    ⟨hd, .lose rfl Set.Subset.rfl⟩ ?_ h
  intro _ s past e s' new _ hI hstep
  obtain ⟨hsound, hmoves⟩ := step_moves hI.1 hstep
  rw [answered_append]
  exact ⟨hsound, hI.2.trans hmoves⟩

/-! ## Messages that do not come any more -/

/-- Who is answered in processing waits for no message, and nobody begins to wait. -/
theorem process_receives {env : Env} {p : proto} {q : Query} {j : ℕ}
    (h : d.process env i p q = .ok (d', out)) (hj : d'.receives j) :
    d.receives j ∧ j ∉ answered out := by
  obtain ⟨r, o, -, h⟩ := process_cases h
  rcases h with ⟨-, rfl, rfl⟩ | ⟨bytes, -, rfl, rfl⟩ | ⟨u, -, rfl, rfl⟩
  · exact ⟨((close_receives _ _ _).mp hj).1, by simp [answered]⟩
  · obtain ⟨hrec, hne⟩ := (close_receives _ _ _).mp hj
    exact ⟨hrec, by simp [answered, hne]⟩
  · exact ⟨hj, by simp [answered]⟩

/-- **A request that waits for its message has waited since it came**, and is not answered. -/
theorem step_receives {e : daemon_event} (h : d.step e = .ok (d', out)) (hi : d'.receives i) :
    (i < d.peers.length → d.receives i) ∧ i ∉ answered out := by
  have hquiet : ∀ {d' : daemon}, d'.peers = d.peers → d'.receives i → d.receives i := by
    intro d' hpeers hi
    rw [receives, hpeers] at hi
    exact hi
  cases e with
  | datagram env data address =>
      obtain ⟨q, h⟩ := on_datagram_cases h
      obtain ⟨hrec, hno⟩ := process_receives h hi
      exact ⟨fun _ => (make_udp_receives d address i).mp hrec, hno⟩
  | connection accepted =>
      obtain ⟨address, -, rfl, rfl⟩ := on_connection_cases h
      refine ⟨fun hlt => ?_, List.not_mem_nil⟩
      rcases (make_tcp_receives d address i).mp hi with hrec | rfl
      · exact hrec
      · exact absurd hlt (lt_irrefl _)
  | request env j socket =>
      rcases on_request_cases h with ⟨rfl, rfl⟩ | ⟨-, -, rfl, rfl⟩ | ⟨-, q, h⟩
      · exact ⟨fun _ => hi, List.not_mem_nil⟩
      · exact ⟨fun _ => ((close_receives _ _ _).mp hi).1, List.not_mem_nil⟩
      · obtain ⟨hrec, hno⟩ := process_receives h hi
        exact ⟨fun _ => ((stop_receives _ _ _).mp hrec).1, hno⟩
  | client_timeout j =>
      obtain ⟨rfl, rfl⟩ := Prod.mk.inj (Except.ok.inj h)
      exact ⟨fun _ => ((close_receives _ _ _).mp hi).1, List.not_mem_nil⟩
  | upstream env j event =>
      rcases on_upstream_cases h with ⟨rfl, rfl⟩ | ⟨t, u, passed, -, -, h⟩
      · exact ⟨fun _ => hi, List.not_mem_nil⟩
      · rcases h with ⟨-, rfl, rfl⟩ | ⟨r, bytes, -, rfl, rfl⟩
        · exact ⟨fun _ => hi, List.not_mem_nil⟩
        · obtain ⟨hrec, hne⟩ := (close_receives _ _ _).mp hi
          exact ⟨fun _ => hrec, by simp [answered, hne]⟩
  | certifier k event =>
      obtain ⟨rfl, rfl | ⟨s, state, -, -, rfl⟩⟩ := on_certifier_cases h
      · exact ⟨fun _ => hi, List.not_mem_nil⟩
      · exact ⟨fun _ => hi, List.not_mem_nil⟩
  | reload reading =>
      obtain ⟨d₁, hd₁, h⟩ := Result.bind_eq_ok.mp h
      obtain ⟨rfl, rfl⟩ := Prod.mk.inj (Except.ok.inj h)
      exact ⟨fun _ => hquiet (reload_spec hd₁).1 hi, List.not_mem_nil⟩
  | random_timer providers_saved cache_saved =>
      obtain ⟨rfl, rfl⟩ := on_random_timer_spec h
      exact ⟨fun _ => hi, List.not_mem_nil⟩

/-- Who was answered during a run was answered once, and is not live at its end. -/
theorem run_fair {d₀ : daemon} {es : List daemon_event} (h₀ : d₀.Fresh)
    (h : d₀.run es = .ok (d, out)) : d.desk.Fair (answered out) := by
  obtain ⟨-, hmoves⟩ := run_moves h₀.sound h
  have hfair : d₀.desk.Fair [] := ⟨List.nodup_nil, fun _ hi => absurd hi List.not_mem_nil⟩
  exact (hmoves.fair h₀.sound.live_seen).2 hfair

/-- Nor does it wait for a message. -/
theorem run_receives {d₀ : daemon} {es : List daemon_event} (h₀ : d₀.Fresh)
    (h : d₀.run es = .ok (d, out)) (hi : i ∈ answered out) : ¬ d.receives i := by
  refine run_rule (I := fun _ s past => ∀ i ∈ answered past, ¬ s.receives i) (s := d₀) ?_ ?_ h i hi
  · exact fun _ hi => absurd hi List.not_mem_nil
  · intro _ s past e s' new hpast hI hstep j hj hrec
    obtain ⟨hbefore, hno⟩ := step_receives hstep hrec
    rw [answered_append, List.mem_append] at hj
    rcases hj with hj | hj
    · exact hI j hj (hbefore ((run_fair h₀ hpast).closed j hj).1)
    · exact hno hj

end daemon

/-- **No client is answered twice.** In every run of a daemon, whatever its clients, its providers
and the files do, and in whatever order the callbacks come, every request of a client gets at most
one reply; and one that was answered is neither waiting for its message nor being asked about. -/
theorem daemon.answered_once {d₀ d : daemon} {es : List daemon_event} {out : List daemon_output}
    (h₀ : d₀.Fresh) (h : d₀.run es = .ok (d, out)) :
    (answered out).Nodup ∧
      ∀ i ∈ answered out, i < d.peers.length ∧ ¬ d.receives i ∧ i ∉ d.pending := by
  have hend := run_fair h₀ h
  refine ⟨hend.nodup, fun i hi => ?_⟩
  obtain ⟨hseen, hdead⟩ := hend.closed i hi
  exact ⟨hseen, run_receives h₀ h hi, fun hp => hdead (Or.inr hp)⟩

/-- **What is lost stays lost.** A client whose message can not come any more, because it has
come or because its request was closed or destroyed before, and for whom no request to a provider
is under way, is not answered by any continuation of the run. -/
theorem daemon.never_answered {d₀ d d' : daemon} {es es' : List daemon_event}
    {out out' : List daemon_output} (h₀ : d₀.Fresh) (h : d₀.run es = .ok (d, out)) {i : ℕ}
    (hlt : i < d.peers.length) (hawaits : ¬ d.awaits i) (hpending : i ∉ d.pending)
    (h' : d.run es' = .ok (d', out')) : i ∉ answered out' := by
  intro hi
  obtain ⟨hsound, -⟩ := run_moves h₀.sound h
  obtain ⟨-, hmoves⟩ := run_moves hsound h'
  rcases hmoves.answered hi with (ha | hp) | hseen
  · exact hawaits ha
  · exact hpending hp
  · exact hseen hlt

/-! ### A client that is answered, and one that is not -/

/-- A daemon with nothing configured. -/
def sampleDaemon : daemon where
  options := responder.sampleParameters
  dnscrypt_resolvers_file := []
  responder := sampleResponder
  certifiers := KeyedSet.empty
  generation := 0
  peers := []
  udp_requests := []
  tcp_requests := []
  upstream_requests := []
  udp_count := 0
  tcp_count := 0

theorem sampleDaemon_fresh : sampleDaemon.Fresh := ⟨rfl, rfl, rfl, rfl⟩

/-- The question `a.`, as a datagram. -/
def sampleDatagram : daemon_event :=
  .datagram sampleEnv (some [0, 1, 1, 0, 0, 1, 0, 0, 0, 0, 0, 0, 1, 97, 0, 0, 1, 0, 1])
    sampleProvider.address

theorem sampleDaemon_run : ∃ d out, sampleDaemon.run [sampleDatagram] = .ok (d, out) ∧
    daemon.answered out = [0] ∧ d.peers = [(peer.udp_in sampleProvider.address).close] ∧
    d.upstream_requests = [] ∧ d.udp_requests = [some 0] := ⟨_, _, rfl, rfl, rfl, rfl, rfl⟩

/-- The client is answered, and nothing is under way for it. -/
theorem daemon.answered_once_sample : ∃ d out, sampleDaemon.run [sampleDatagram] = .ok (d, out) ∧
    daemon.answered out = [0] ∧ 0 ∉ d.pending := by
  obtain ⟨d, out, h, hout, -⟩ := sampleDaemon_run
  obtain ⟨-, hclosed⟩ := daemon.answered_once sampleDaemon_fresh h
  exact ⟨d, out, h, hout, (hclosed 0 (by simp [hout])).2.2⟩

/-- Three connections, after two of which the first one is closed. -/
def sampleConnections : List daemon_event :=
  [.connection (some sampleProvider.address), .connection (some sampleProvider.address),
    .client_timeout 0, .connection (some sampleProvider.address)]

/-- The daemon behind them. -/
def sampleDropped : daemon :=
  (((sampleDaemon.make_tcp_incoming sampleProvider.address).make_tcp_incoming
    sampleProvider.address).close 0).make_tcp_incoming sampleProvider.address

theorem sampleDropped_run : sampleDaemon.run sampleConnections = .ok (sampleDropped, []) := rfl

/-- The second request is lost with the first one. -/
theorem sampleDropped_requests : sampleDropped.tcp_requests = [some 2] := by
  unfold sampleDropped
  simp only [daemon.make_tcp_incoming, daemon.close, abs_listener.on_message_clean_up,
    clean_up_eq_kept]
  decide

/-- The second client was still open when its request was destroyed, and gets no answer. -/
theorem daemon.never_answered_sample : ∃ d out d' out',
    sampleDaemon.run sampleConnections = .ok (d, out) ∧ d.receives 1 ∧
      d.run [.request sampleEnv 1 []] = .ok (d', out') ∧ 1 ∉ daemon.answered out' := by
  have hdropped : ¬ some 1 ∈ sampleDropped.tcp_requests := by
    rw [sampleDropped_requests]
    decide
  have h' : sampleDropped.run [.request sampleEnv 1 []] = .ok (sampleDropped, []) := by
    have hstep : sampleDropped.step (.request sampleEnv 1 []) = .ok (sampleDropped, []) := by
      rw [daemon.step, daemon.on_request, if_neg fun h => hdropped h.2]
    have hnone : sampleDropped.run [] = .ok (sampleDropped, []) := rfl
    exact run_concat hnone hstep
  refine ⟨sampleDropped, [], _, _, sampleDropped_run, ⟨_, rfl, rfl⟩, h', ?_⟩
  exact daemon.never_answered sampleDaemon_fresh sampleDropped_run (by decide)
    (fun h => hdropped h.2) (by decide) h'

end Cdns
