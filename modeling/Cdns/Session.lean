/-
Sessions: the encrypted questions of a daemon that wait for their answers at the same time.

Each question is encrypted under a nonce of its own, which `nonce::make_random` (`crypt/crypt.cpp`)
makes from a clock and two random numbers, and an answer has to repeat it. The ephemeral key of a
question is made from its nonce as well. So it matters that no two questions that are under way
have the same nonce.

A daemon uses the nonce that it draws in a callback for one question, whatever is renewed, lost or
collected in between: the nonces of the waiting questions are some of those that were drawn, each
as often as it was drawn (`run_sessions`). Two nonces are the same exactly if the clock agrees in 54
bits and the random numbers in 10 and 32 bits (`make_random_inj`).
-/
import Cdns.Exchange
import Cdns.Lib.Endian

set_option autoImplicit false

namespace Cdns

open Lib.Endian Lib.Machine Lib.Storage

/-! ## Nonces -/

/-- What `nonce::make_random` draws: the microseconds of a clock, and two numbers of 32 bits. -/
structure Draw where
  ts : ℕ
  random : ℕ
  suffix : ℕ

/-- `tsn`, a number of 64 bits. -/
def Draw.tsn (x : Draw) : ℕ := ((x.ts <<< 10) % 2 ^ 64) ||| (x.random &&& 0x3ff)

/-- `nonce::make_random`. -/
def nonce.make_random (x : Draw) : nonce where
  bytes := bytes 8 x.tsn ++ bytes 4 x.suffix
  length_eq := by rw [List.length_append, bytes_length, bytes_length]

/-- What is left of a draw in the nonce. -/
def Draw.key (x : Draw) : ℕ × ℕ × ℕ := (x.ts % 2 ^ 54, x.random % 2 ^ 10, x.suffix % 2 ^ 32)

theorem Draw.tsn_eq (x : Draw) : x.tsn = (x.ts % 2 ^ 54) * 2 ^ 10 + x.random % 2 ^ 10 := by
  have hlow : x.random &&& 0x3ff = x.random % 2 ^ 10 := Nat.and_two_pow_sub_one_eq_mod x.random 10
  have hhigh : (x.ts <<< 10) % 2 ^ 64 = (x.ts % 2 ^ 54) <<< 10 := by
    rw [Nat.shiftLeft_eq, Nat.shiftLeft_eq]
    omega
  rw [Draw.tsn, hlow, hhigh, ← Nat.shiftLeft_add_eq_or_of_lt (Nat.mod_lt _ (by decide)),
    Nat.shiftLeft_eq]

/-- **Two draws give the same nonce exactly if that much of them is the same.** -/
theorem make_random_inj (x y : Draw) :
    nonce.make_random x = nonce.make_random y ↔ x.key = y.key := by
  have e₁ : (256 : ℕ) ^ 4 = 2 ^ 32 := rfl
  have hx := x.tsn_eq
  have hy := y.tsn_eq
  constructor
  · intro h
    have hbytes : bytes 8 x.tsn ++ bytes 4 x.suffix = bytes 8 y.tsn ++ bytes 4 y.suffix :=
      congrArg Block.bytes h
    obtain ⟨hfront, hback⟩ := List.append_inj hbytes (by rw [bytes_length, bytes_length])
    have htsn := congrArg value hfront
    have hsuffix := congrArg value hback
    rw [value_bytes, value_bytes] at htsn hsuffix
    rw [Nat.mod_eq_of_lt (by omega), Nat.mod_eq_of_lt (by omega), hx, hy] at htsn
    rw [e₁] at hsuffix
    unfold Draw.key
    rw [Prod.mk.injEq, Prod.mk.injEq]
    refine ⟨?_, ?_, hsuffix⟩
    · omega
    · omega
  · intro h
    obtain ⟨hts, h⟩ := Prod.mk.inj h
    obtain ⟨hrandom, hsuffix⟩ := Prod.mk.inj h
    have htsn : x.tsn = y.tsn := by rw [hx, hy, hts, hrandom]
    apply Block.ext
    show bytes 8 x.tsn ++ bytes 4 x.suffix = bytes 8 y.tsn ++ bytes 4 y.suffix
    have hback : bytes 4 x.suffix = bytes 4 y.suffix := by
      rw [← bytes_mod 4 x.suffix, ← bytes_mod 4 y.suffix, e₁, hsuffix]
    rw [htsn, hback]

/-! ## Waiting questions -/

/-- The nonce that a message under the class `message` remembers. -/
def message_class.nonce : message_class → Option Cdns.nonce
  | .message n => some n
  | _ => none

/-- The nonce under which the question of a request was encrypted, while it waits for the answer. -/
def upstream.session (u : upstream) : Option nonce :=
  if u.stage = .receiving ∧ u.provider.resolver.isSome = true then u.question.cls.nonce else none

namespace upstream

variable {u u' : upstream} {n : nonce}

theorem session_eq_some (h : u.session = some n) :
    u.stage = .receiving ∧ (∃ r, u.provider.resolver = some r) ∧ u.question.cls = .message n := by
  unfold session at h
  split_ifs at h with hwaits
  refine ⟨hwaits.1, Option.isSome_iff_exists.mp hwaits.2, ?_⟩
  unfold message_class.nonce at h
  split at h
  · next m hcls => rw [hcls, Option.some.inj h]
  · exact absurd h (by simp)

theorem session_of_stage (h : u.stage ≠ .receiving) : u.session = none := by
  cases hsession : u.session with
  | none => rfl
  | some n => exact absurd (session_eq_some hsession).1 h

/-- The resolver of a request may adopt another certificate while the answer is under way. -/
theorem session_renew (u : upstream) (x : Option Cdns.resolver) :
    ({ u with provider := u.provider.renew x } : upstream).session = u.session := by
  unfold session
  dsimp only
  rw [provider.renew, Option.isSome_map]

/-- A question that was sent is encrypted under the nonce that was drawn for it. -/
theorem on_send_session {env : Env} {r : responder} {io : Io} {q : Message}
    (h : u.on_send env r io = .ok (.going .receiving q)) :
    ({ u with stage := .receiving, question := q } : upstream).session = none ∨
      ({ u with stage := .receiving, question := q } : upstream).session =
        some io.session_nonce := by
  cases hprov : u.provider.resolver with
  | none =>
      left
      unfold session
      dsimp only
      rw [if_neg (by rw [hprov]; simp)]
  | some R =>
      right
      unfold upstream.on_send network_upstream.on_send at h
      split at h
      · exact absurd (Except.ok.inj h) (by simp)
      · rcases network_upstream.pass_failure_downstream_cases h with h | ⟨m, a, -, h⟩
        · exact absurd h (by simp)
        · exact absurd h (by simp)
      · split_ifs at h
        · obtain ⟨m, hm, h⟩ := Result.bind_eq_ok.mp h
          obtain ⟨folded, -, rfl⟩ := Cdns.provider.fold_resolver hprov hm
          split at h
          · rcases network_upstream.pass_failure_downstream_cases h with h | ⟨m, a, -, h⟩
            · exact absurd h (by simp)
            · exact absurd h (by simp)
          · exact absurd h (by simp)
          · obtain ⟨-, rfl⟩ := progress.going.inj (Except.ok.inj h)
            unfold session
            dsimp only
            rw [if_pos ⟨rfl, by rw [hprov]; rfl⟩]
            rfl
        · exact absurd (Except.ok.inj h) (by simp)

/-- **What a moment does to the session of a request**: it ends it, leaves it or, with a nonce that
was drawn then, begins it. -/
theorem step_session {t : moment} {passed : Option (responder × List UInt8)}
    (h : u.step t = .ok (u', passed)) :
    u'.session = none ∨ u'.session = u.session ∨
      (u.session = none ∧ ∃ io, t.event = .ready io ∧ u'.session = some io.session_nonce) := by
  unfold step at h
  dsimp only at h
  split at h
  · obtain ⟨rfl, -⟩ := Prod.mk.inj (Except.ok.inj h)
    exact Or.inl (session_of_stage (by simp))
  · next io hio =>
    obtain ⟨next, hnext, h⟩ := Result.bind_eq_ok.mp h
    rcases next with ⟨s, q⟩ | passed'
    · obtain ⟨rfl, -⟩ := Prod.mk.inj (Except.ok.inj h)
      unfold callback at hnext
      split at hnext
      · next hstage =>
        have hbefore : u.session = none := session_of_stage (by rw [hstage]; simp)
        cases s with
        | receiving =>
            rcases on_send_session hnext with h | h
            · exact Or.inl h
            · exact Or.inr (Or.inr ⟨hbefore, io, hio, h⟩)
        | sending => exact Or.inl (session_of_stage (by simp))
        | stopped => exact Or.inl (session_of_stage (by simp))
        | closed => exact Or.inl (session_of_stage (by simp))
      · next hstage =>
        right
        left
        rcases network_upstream.on_receive_progress hnext with h | ⟨passed, h⟩
        · obtain ⟨rfl, rfl⟩ := progress.going.inj h
          rw [← session_renew u t.renewed, ← hstage]
        · exact absurd h (by simp)
      · obtain ⟨rfl, -⟩ := progress.going.inj (Except.ok.inj hnext)
        exact Or.inl (session_of_stage (by simp))
      · exact absurd (Except.ok.inj hnext) (by simp)
    · obtain ⟨rfl, -⟩ := Prod.mk.inj (Except.ok.inj h)
      exact Or.inl (session_of_stage (by simp))

end upstream

namespace daemon

variable {d d' d₀ : daemon} {e : daemon_event} {es : List daemon_event}
  {out : List daemon_output}

/-- The nonce of the question of a task that waits for its answer. -/
def session (t : Option task) : Option nonce := t.bind fun t => t.upstream.session

/-- The nonces of all such questions. -/
def sessions (d : daemon) : List nonce := d.upstream_requests.filterMap session

/-- The nonces that are there for the callbacks of the requests to providers. -/
def drawn (es : List daemon_event) : List nonce :=
  es.filterMap fun e =>
    match e with
    | .upstream _ _ (.ready io) => some io.session_nonce
    | _ => none

@[simp] theorem drawn_append (es es' : List daemon_event) : drawn (es ++ es') = drawn es ++ drawn es' :=
  List.filterMap_append

theorem renew_session (s : slot) (t : Option task) : session (t.map (renew s)) = session t := by
  cases t with
  | none => rfl
  | some t =>
      show (renew s t).upstream.session = t.upstream.session
      unfold renew
      split_ifs
      · exact upstream.session_renew t.upstream _
      · rfl

/-- A step of one request changes one entry. -/
theorem set_sessions {l : List (Option task)} {j : ℕ} {t t' : task} {new : List nonce}
    (ht : l[j]? = some (some t))
    (h : (session (some t')).toList.Subperm ((session (some t)).toList ++ new)) :
    ((l.set j (some t')).filterMap session).Subperm (l.filterMap session ++ new) := by
  obtain ⟨a, b, hsplit, hset⟩ := exists_split ht
  have hcut : ∀ x : Option task, (a ++ x :: b).filterMap session =
      a.filterMap session ++ ((session x).toList ++ b.filterMap session) := by
    intro x
    rw [List.filterMap_append, List.filterMap_cons]
    cases session x with
    | none => rfl
    | some n => rfl
  rw [hset, hcut, hsplit, hcut, List.append_assoc, List.append_assoc]
  rw [List.subperm_append_left]
  -- behind `a`, what the step adds moves in front of the rest
  have hmove : ((session (some t)).toList ++ new ++ b.filterMap session).Perm
      ((session (some t)).toList ++ (b.filterMap session ++ new)) := by
    rw [List.append_assoc]
    exact List.Perm.append_left _ List.perm_append_comm
  exact ((List.subperm_append_right _).mpr h).trans hmove.subperm

/-- **What an event does to the waiting questions**: some are over, and one may be sent under the
nonce that was drawn then. -/
theorem step_sessions (h : d.step e = .ok (d', out)) :
    d'.sessions.Subperm (d.sessions ++ drawn [e]) := by
  have hless : ∀ {l : List (Option task)}, l.Sublist d.upstream_requests →
      (l.filterMap session).Subperm (d.sessions ++ drawn [e]) := by
    intro l hl
    exact (hl.filterMap session).subperm.trans (List.sublist_append_left _ _).subperm
  rcases step_cases h with ⟨env, i, p, q, d₁, -, hcurrent, hreqs, h⟩ | ⟨env, j, event, rfl, h⟩ |
    ⟨-, -, h⟩
  · have hcollect : (d₁.collect env ⟨p, .of_query q⟩).Sublist d.upstream_requests := by
      rw [← hreqs]
      exact collect_sublist env d₁ _
    obtain ⟨r, o, hr, h⟩ := process_cases h
    rcases h with ⟨-, -, rfl⟩ | ⟨bytes, -, -, rfl⟩ | ⟨u, rfl, -, rfl⟩
    · exact hless hcollect
    · exact hless hcollect
    · -- a request that was just made has not sent its question
      obtain ⟨-, m, prov, -, -, -, rfl⟩ := responder.forwarded_cases hr
      unfold sessions
      dsimp only
      rw [List.filterMap_append]
      have hnone : [some (⟨upstream.create prov ⟨p, m⟩, i,
          d₁.certifier_of env prov⟩ : task)].filterMap session = [] := by
        rw [List.filterMap_cons]
        rfl
      show ((d₁.collect env ⟨p, .of_query q⟩).filterMap session ++
        [some (⟨upstream.create prov ⟨p, m⟩, i, d₁.certifier_of env prov⟩ : task)].filterMap
          session).Subperm _
      rw [hnone, List.append_nil]
      exact hless hcollect
  · rcases on_upstream_cases h with ⟨rfl, -⟩ | ⟨t, u, passed, ht, hstep, h⟩
    · exact hless (List.Sublist.refl _)
    · have hset : ((d.upstream_requests.set j (some { t with upstream := u })).filterMap
          session).Subperm (d.sessions ++ drawn [.upstream env j event]) := by
        refine set_sessions ht ?_
        show u.session.toList.Subperm (t.upstream.session.toList ++ _)
        rcases upstream.step_session hstep with hu | hu | ⟨hbefore, io, hio, hu⟩
        · rw [hu]
          exact List.nil_subperm
        · rw [hu]
          exact (List.sublist_append_left _ _).subperm
        · have hevent : event = .ready io := hio
          rw [hu, hbefore, hevent]
          exact List.Subperm.refl _
      rcases h with ⟨-, -, rfl⟩ | ⟨r, bytes, -, -, rfl⟩
      · exact hset
      · exact hset
  · rcases h with h | ⟨s, h⟩
    · rw [sessions, h]
      exact hless (List.Sublist.refl _)
    · have hsame : d'.sessions = d.sessions := by
        rw [sessions, h, List.filterMap_map]
        congr 1
        funext t
        exact renew_session s t
      rw [hsame]
      exact (List.sublist_append_left _ _).subperm

/-- **The waiting questions have nonces of their own among those that were drawn.** -/
theorem run_sessions (h₀ : d₀.Fresh) (h : d₀.run es = .ok (d, out)) :
    d.sessions.Subperm (drawn es) := by
  refine run_rule (I := fun past s _ => s.sessions.Subperm (drawn past)) (s := d₀) ?_ ?_ h
  · rw [sessions, h₀.upstream_requests]
    exact List.nil_subperm
  · intro past s seen e s' new _ hI hstep
    rw [drawn_append]
    exact (step_sessions hstep).trans ((List.subperm_append_right _).mpr hI)

end daemon

/-! ### Two of many -/

section Pair

variable {α β : Type}

theorem pair_subperm {l : List α} {a b : α} {i j : ℕ} (hi : l[i]? = some a) (hj : l[j]? = some b)
    (hij : i ≠ j) : [a, b].Subperm l := by
  obtain ⟨hlt, ha⟩ := List.getElem?_eq_some_iff.mp hi
  have hrest : b ∈ l.eraseIdx i := List.mem_eraseIdx_iff_getElem?.mpr ⟨j, hij.symm, hj⟩
  have hperm := List.getElem_cons_eraseIdx_perm hlt
  rw [ha] at hperm
  have hpair : [a, b].Subperm (a :: l.eraseIdx i) :=
    (List.subperm_cons a).mpr (List.singleton_subperm_iff.mpr hrest)
  exact hpair.trans hperm.subperm

theorem filterMap_subperm {f : α → Option β} {l l' : List α} (h : l.Subperm l') :
    (l.filterMap f).Subperm (l'.filterMap f) := by
  obtain ⟨m, hperm, hsub⟩ := h
  exact ⟨m.filterMap f, hperm.filterMap f, hsub.filterMap f⟩

/-- Two of the images come from two places. -/
theorem exists_pair [DecidableEq β] {f : α → β} {l : List α} {a b : β}
    (h : [a, b].Subperm (l.map f)) :
    ∃ (k m : ℕ) (x y : α), k ≠ m ∧ l[k]? = some x ∧ l[m]? = some y ∧ a = f x ∧ b = f y := by
  have hplace : ∀ (i : Fin [a, b].length), ∃ x, l[(h.idxInj i : ℕ)]? = some x ∧ [a, b][i] = f x := by
    intro i
    have hget := h.getElem_idxInj_eq_getElem (i := i)
    have hlt : (h.idxInj i : ℕ) < l.length := by
      have hle : (l.map f).length = l.length := List.length_map f
      have := (h.idxInj i).isLt
      omega
    refine ⟨l[(h.idxInj i : ℕ)], List.getElem?_eq_getElem hlt, ?_⟩
    rw [List.getElem_map] at hget
    exact hget.symm
  obtain ⟨x, hx, ha⟩ := hplace ⟨0, by simp⟩
  obtain ⟨y, hy, hb⟩ := hplace ⟨1, by simp⟩
  refine ⟨_, _, x, y, ?_, hx, hy, ha, hb⟩
  intro heq
  have hne := h.idxInj_injective (Fin.ext heq)
  exact absurd (congrArg Fin.val hne) (by simp)

end Pair

/-! ## Answers -/

section Answer

variable {S : Sodium} {n : nonce}

/-- An output of the server's `curve` repeats the nonce of the client. -/
theorem curve_client_nonce {keys : server_encryptor_data} {sn : nonce} {key : pubkey} {m c : Query}
    (h : keys.curve S sn n key m = .ok c) : slice c.bytes 8 12 = n.bytes := by
  unfold server_encryptor_data.curve at h
  dsimp only at h
  obtain ⟨b₁, -, h⟩ := Result.bind_eq_ok.mp h
  obtain ⟨⟨b₂, len⟩, -, h⟩ := Result.bind_eq_ok.mp h
  dsimp only at h
  split at h
  · exact absurd h (by simp)
  · obtain ⟨b₃, -, h⟩ := Result.bind_eq_ok.mp h
    obtain ⟨b₄, hput, h⟩ := Result.bind_eq_ok.mp h
    have hn : n.bytes.length = 12 := n.length_eq
    have hmagic : detail.magic_response.bytes.length = 8 := detail.magic_response.length_eq
    have hhead := slice_write_same b₃ 0 (detail.magic_response.bytes ++ n.bytes ++ sn.bytes)
    rw [List.append_assoc] at hhead
    obtain ⟨-, hrest⟩ := slice_eq_append hhead
    obtain ⟨hnonce, -⟩ := slice_eq_append hrest
    rw [(eq_of_set_size h).1, eq_write_of_put hput, List.append_assoc]
    rw [hmagic, hn] at hnonce
    exact hnonce

/-- An answer that the client opens has its nonce. -/
theorem nonce_of_uncurve {client : encryptor_data} {a a' : Query}
    (h : client.uncurve S n a = .ok a') : slice a.bytes 8 12 = n.bytes := by
  unfold encryptor_data.uncurve at h
  dsimp only at h
  split_ifs at h with hshort hmagic hnonce
  exact (not_not.mp hnonce).symm

/-- **A client opens no answer to another nonce.** -/
theorem nonce_of_sealed {keys : server_encryptor_data} {S' : Sodium} {key : pubkey} {n' : nonce}
    {client : encryptor_data} {a a' : Query} (hsealed : Sealed S' keys key n' a.wire)
    (h : client.uncurve S n a = .ok a') : n' = n := by
  obtain ⟨sn, m, c, hc, hwire⟩ := hsealed
  have hlong := (qdcount_of_uncurve h).1
  apply Block.ext
  rw [← curve_client_nonce hc, ← Query.slice_of_wire hwire (by omega), nonce_of_uncurve h]

end Answer

namespace daemon

variable {d d' : daemon} {out : List daemon_output}

/-- A callback of a request whose answer has arrived decrypts the answer. -/
theorem step_opens {env : Env} {j : ℕ} {t : task} {n : nonce} {io : Io} {a : Query}
    (ht : d.upstream_requests[j]? = some (some t)) (hn : t.upstream.session = some n)
    (hlink : io.link_over t.upstream.provider.net_proto = .connected)
    (hreceive : io.receive t.upstream.provider.net_proto t.upstream.question.query = .ok a)
    (h : d.step (.upstream env j (.ready io)) = .ok (d', out)) :
    ∃ R a', t.upstream.provider.resolver = some R ∧
      R.dnscrypt_client_.uncurve env.S n a = .ok a' := by
  obtain ⟨hstage, ⟨R, hR⟩, hcls⟩ := upstream.session_eq_some hn
  refine ⟨R, ?_⟩
  have hopened : ∃ next, t.upstream.on_receive env d.current io = .ok next := by
    have hevent : d.on_upstream env j (.ready io) = .ok (d', out) := h
    unfold on_upstream at hevent
    rw [ht] at hevent
    obtain ⟨⟨u, passed⟩, hstep, -⟩ := Result.bind_eq_ok.mp hevent
    unfold upstream.step at hstep
    dsimp only at hstep
    obtain ⟨next, hnext, -⟩ := Result.bind_eq_ok.mp hstep
    unfold upstream.callback at hnext
    rw [provider.renew_none, hstage] at hnext
    exact ⟨next, hnext⟩
  obtain ⟨next, hnext⟩ := hopened
  have hview := on_receive_eq (d.current.pass_answer_downstream env t.upstream.client)
    (S := env.S) hR hcls hlink hreceive
  obtain ⟨a', ha', -⟩ := Result.bind_eq_ok.mp (hview.symm.trans hnext)
  exact ⟨a', hR, ha'⟩

end daemon

/-- **Sessions are kept apart.** In every run of a daemon, any two encrypted questions that wait for
their answers have the nonces of two different draws. These are the same nonce exactly if the two
draws agree in 54 bits of the clock and in 10 and 32 random bits; otherwise the answer to the one
question, should it arrive at the other, is not opened there, and what is thrown ends the daemon. -/
theorem daemon.sessions_apart {d₀ d : daemon} {es : List daemon_event} {out : List daemon_output}
    (h₀ : d₀.Fresh) (h : d₀.run es = .ok (d, out)) {draws : List Draw}
    (hdraws : drawn es = draws.map nonce.make_random) {i j : ℕ} {t t' : task} {n n' : nonce}
    (hi : d.upstream_requests[i]? = some (some t)) (hj : d.upstream_requests[j]? = some (some t'))
    (hij : i ≠ j) (hn : t.upstream.session = some n) (hn' : t'.upstream.session = some n') :
    ∃ (k l : ℕ) (x y : Draw), k ≠ l ∧ draws[k]? = some x ∧ draws[l]? = some y ∧
      n = nonce.make_random x ∧ n' = nonce.make_random y ∧ (n = n' ↔ x.key = y.key) ∧
      (x.key ≠ y.key → ∀ (env : Env) (S : Sodium) (keys : server_encryptor_data) (key : pubkey)
        (io : Io) (a : Query), Sealed S keys key n a.wire →
          io.link_over t'.upstream.provider.net_proto = .connected →
          io.receive t'.upstream.provider.net_proto t'.upstream.question.query = .ok a →
          ¬ (d.step (.upstream env j (.ready io))).returns) := by
  have hpair : [n, n'].Subperm d.sessions := by
    have hsessions := filterMap_subperm (f := session) (pair_subperm hi hj hij)
    have htwo : [some t, some t'].filterMap session = [n, n'] := by
      rw [List.filterMap_cons_some (show session (some t) = some n from hn),
        List.filterMap_cons_some (show session (some t') = some n' from hn'), List.filterMap_nil]
    rw [htwo] at hsessions
    exact hsessions
  have hdrawn := hpair.trans (run_sessions h₀ h)
  rw [hdraws] at hdrawn
  obtain ⟨k, l, x, y, hkl, hx, hy, hnx, hny⟩ := exists_pair hdrawn
  have hiff : n = n' ↔ x.key = y.key := by rw [hnx, hny, make_random_inj]
  refine ⟨k, l, x, y, hkl, hx, hy, hnx, hny, hiff, ?_⟩
  rintro hne env S keys key io a hsealed hlink hreceive ⟨⟨d', new⟩, hstep⟩
  obtain ⟨R, a', -, hopen⟩ := step_opens hj hn' hlink hreceive hstep
  exact hne (hiff.mp (nonce_of_sealed hsealed hopen))

/-! ### Two questions at a time -/

/-- What the callbacks below draw: the clock goes on. -/
def sampleDraws : List Draw := [⟨1, 0, 0⟩, ⟨2, 0, 0⟩]

/-- The callback that sends a question. -/
def sampleSend (j : ℕ) (x : Draw) : daemon_event :=
  .upstream sampleEnv j (.ready { sampleIo [] with session_nonce := nonce.make_random x })

/-- The certificate is obtained, two clients ask, and both questions are sent. -/
def sampleTwo : List daemon_event :=
  sampleCertified ++ [sampleDatagram, sampleSend 0 ⟨1, 0, 0⟩, sampleSend 1 ⟨2, 0, 0⟩]

/-- The two draws differ in what is left of them. -/
theorem sampleDraws_key {k l : ℕ} {x y : Draw} (hkl : k ≠ l) (hx : sampleDraws[k]? = some x)
    (hy : sampleDraws[l]? = some y) : x.key ≠ y.key := by
  intro hkey
  have hnodup : (sampleDraws.map Draw.key).Nodup := by decide
  obtain ⟨hk, -⟩ := List.getElem?_eq_some_iff.mp hx
  apply hkl
  apply (List.getElem?_inj (by rw [List.length_map]; exact hk) hnodup).mp
  rw [List.getElem?_map, List.getElem?_map, hx, hy]
  exact congrArg some hkey

/-- A datagram that fits is received as it is. -/
theorem sampleIo_receive {l : List UInt8} (storage : Query) (hpos : 0 < l.length)
    (hle : l.length ≤ max_size) :
    ∃ a, (sampleIo l).receive .udp storage = .ok a ∧ a.wire = l := by
  have e₁ : max_size = 55535 := rfl
  have hreserved : (⟨storage.bytes, max_size, 0, Nat.zero_le _⟩ : packet).reserved_size =
      max_size := rfl
  refine ⟨⟨write storage.bytes 0 l, l.length, hle⟩, ?_, slice_write_same _ _ _⟩
  show (udp_receive (some l) _ >>= fun m => set_size m.bytes m.size) = _
  unfold udp_receive
  simp only [hreserved, List.take_of_length_le hle]
  rw [if_neg (by omega), Result.ok_bind, set_size_eq_ok _ hle]

/-- Both questions wait, the second one on UDP. -/
theorem sampleTwo_run : ∃ d out t t' n n',
    sampleCryptDaemon.run sampleTwo = .ok (d, out) ∧ d.upstream_requests = [some t, some t'] ∧
      t.upstream.session = some n ∧ t'.upstream.session = some n' ∧
      t'.upstream.provider.net_proto = .udp := by
  have hrun : (sampleCryptDaemon.run sampleTwo).map (fun x => x.1.upstream_requests.map fun t =>
      (daemon.session t).bind fun _ => t.map fun t => t.upstream.provider.net_proto) =
        .ok [some .udp, some .udp] := by
    decide +kernel
  cases h : sampleCryptDaemon.run sampleTwo with
  | error e =>
      rw [h] at hrun
      exact absurd hrun (by simp [Except.map])
  | ok x =>
      obtain ⟨d, out⟩ := x
      rw [h] at hrun
      obtain ⟨t, l, hreqs, ht, hl⟩ := List.map_eq_cons_iff.mp (Except.ok.inj hrun)
      obtain ⟨t', l', rfl, ht', hl'⟩ := List.map_eq_cons_iff.mp hl
      obtain rfl := List.map_eq_nil_iff.mp hl'
      obtain ⟨n, hn, ht⟩ := Option.bind_eq_some_iff.mp ht
      obtain ⟨n', hn', ht'⟩ := Option.bind_eq_some_iff.mp ht'
      obtain ⟨t, rfl, -⟩ := Option.map_eq_some_iff.mp ht
      obtain ⟨t', rfl, hudp⟩ := Option.map_eq_some_iff.mp ht'
      exact ⟨d, out, t, t', n, n', rfl, hreqs, hn, hn', hudp⟩

/-- Both questions wait, and the answer to the first of them ends the daemon if it arrives at the
second. -/
theorem daemon.sessions_apart_sample : ∃ d out t t' n n' answer,
    sampleCryptDaemon.run sampleTwo = .ok (d, out) ∧
      d.upstream_requests = [some t, some t'] ∧ t.upstream.session = some n ∧
      t'.upstream.session = some n' ∧ n ≠ n' ∧
      sampleServer.curve Sodium.tagged (Block.zero 12) n (Block.zero 32)
        (sampleTyped 1).query.mark_servfail = .ok answer ∧
      ¬ (d.step (.upstream sampleEnv 1 (.ready (sampleIo answer.wire)))).returns := by
  obtain ⟨d, out, t, t', n, n', h, hd, hn, hn', hudp⟩ := sampleTwo_run
  have hdraws : daemon.drawn sampleTwo = sampleDraws.map nonce.make_random := by decide +kernel
  obtain ⟨k, l, x, y, hkl, hx, hy, -, -, hiff, hapart⟩ := daemon.sessions_apart
    sampleCryptDaemon_started.fresh h hdraws (i := 0) (j := 1) (by rw [hd]; rfl)
    (by rw [hd]; rfl) (by decide) hn hn'
  have hkey := sampleDraws_key hkl hx hy
  -- the server seals an answer to the first question
  have hshort : (sampleTyped 1).query.mark_servfail.size ≤ 55487 := by decide
  obtain ⟨p, answer, hanswer, -, -⟩ := server_curve_spec Sodium.tagged_lawful
    (Sodium.tagged_seals sampleServer.is_chacha) (Block.zero 12) n (Block.zero 32) hshort
  have hlong := (curve_head hanswer).1
  obtain ⟨a, hreceive, ha⟩ := sampleIo_receive t'.upstream.question.query
    (by rw [Query.wire_length]; omega) (answer.wire_length.trans_le answer.size_le)
  refine ⟨d, out, t, t', n, n', answer, h, hd, hn, hn', fun heq => hkey (hiff.mp heq), hanswer, ?_⟩
  apply hapart hkey sampleEnv Sodium.tagged sampleServer (Block.zero 32) (sampleIo answer.wire) a
    ⟨_, _, _, hanswer, ha⟩
  · rw [hudp]
    rfl
  · rw [hudp]
    exact hreceive

end Cdns
