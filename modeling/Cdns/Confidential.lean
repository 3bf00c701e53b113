/-
The replies to encrypted requests.

`cresponder::respond` encrypts a reply when the message it is given is an `emessage`,
so a session lives in the class of an object. `responder::process` copies the request
as a plain `query` for the filters, the cache and the hosts file, and a resolver
makes a `message` of it, and on these ways the session is lost.

A request to a provider is followed over its whole life: `upstream.Carries` is what
every callback keeps (`step_carries`), whatever other requests do to the responder in
between, and `replies_carry` is what a whole run makes of it. Each reply is then
sealed on exactly the ways that keep the class (`reply_sealed_iff`).
-/
import Cdns.UpstreamSpec

set_option autoImplicit false

namespace Cdns

open Lib.Storage

/-! ## Sealed replies -/

/-- The bytes are an output of `server::encryptor::curve` for a session. -/
def Sealed (S : Sodium) (keys : server_encryptor_data) (key : pubkey) (n : nonce)
    (b : List UInt8) : Prop :=
  ∃ server_nonce m c, keys.curve S server_nonce n key m = .ok c ∧ b = c.wire

section Shape

variable {S : Sodium} {keys : server_encryptor_data} {key : pubkey} {n sn : nonce} {m c q : Query}

/-- An output of `curve` starts with `magic_response`. -/
theorem curve_head (h : keys.curve S sn n key m = .ok c) :
    48 ≤ c.size ∧ ∀ i, i < 8 → c.bytes i = detail.magic_response.bytes.getD i 0 := by
  have e₁ : detail.response_head_size = 48 := rfl
  unfold server_encryptor_data.curve at h
  dsimp only at h
  obtain ⟨b₁, -, h⟩ := Result.bind_eq_ok.mp h
  obtain ⟨⟨b₂, len⟩, -, h⟩ := Result.bind_eq_ok.mp h
  dsimp only at h
  split at h
  · exact absurd h (by simp)
  · obtain ⟨b₃, -, h⟩ := Result.bind_eq_ok.mp h
    obtain ⟨b₄, hput, h⟩ := Result.bind_eq_ok.mp h
    obtain ⟨hbytes, hsize⟩ := eq_of_set_size h
    refine ⟨by omega, fun i hi => ?_⟩
    have hmagic : detail.magic_response.bytes.length = 8 := detail.magic_response.length_eq
    rw [hbytes, eq_write_of_put hput, write_apply_inside _ (Nat.zero_le _)
      (by rw [List.length_append, List.length_append]; omega), List.append_assoc]
    simp only [Nat.sub_zero]
    rw [List.getD_append _ _ _ _ (by omega)]

/-- What a sealed reply would be as a DNS message: it counts 30295 questions. -/
theorem Sealed.qdcount (h : Sealed S keys key n q.wire) :
    48 ≤ q.size ∧ q.header.qdcount = 30295 := by
  obtain ⟨sn, m, c, hc, hwire⟩ := h
  obtain ⟨hlong, hhead⟩ := curve_head hc
  have hsize : q.size = c.size := by
    have := congrArg List.length hwire
    rwa [Query.wire_length, Query.wire_length] at this
  have hbyte : ∀ i, i < 8 → q.bytes i = detail.magic_response.bytes.getD i 0 := by
    intro i hi
    have hi' := congrArg (fun l => List.getD l i 0) hwire
    dsimp only [Query.wire] at hi'
    rw [slice_getD _ _ _ (by omega), slice_getD _ _ _ (by omega), Nat.zero_add] at hi'
    rw [hi', hhead i hi]
  refine ⟨by omega, ?_⟩
  show be16 q.bytes 4 = 30295
  rw [be16, hbyte 4 (by omega), hbyte 5 (by omega)]
  rfl

/-- **A DNS message is not sealed**: it has no room for so many questions. -/
theorem not_sealed_of_questions (h : q.questions.returns) : ¬ Sealed S keys key n q.wire := by
  intro hs
  have hcount := Query.questions_count h
  have hq := hs.qdcount.2
  have hle := q.size_le
  have e₁ : max_size = 55535 := rfl
  omega

theorem not_sealed_of_single (h : q.header.qdcount = 1) : ¬ Sealed S keys key n q.wire := by
  intro hs
  have hq := hs.qdcount.2
  omega

end Shape

namespace responder

variable {env : Env} {r : responder} {req : incoming} {s : server_responder} {key : pubkey}
  {n : nonce} {b : List UInt8}

/-- An `emessage` is sent sealed. -/
theorem respond_sealed (hserver : r.crypt.bind crypt_part.server = some s)
    (hcls : req.message.cls = .emessage key n) (h : r.respond env req = .ok b) :
    Sealed env.S s.decryptor key n b := by
  obtain ⟨c, hc, h⟩ := Result.bind_eq_ok.mp h
  obtain ⟨-, -, h⟩ := Result.bind_eq_ok.mp h
  rw [encrypt, hserver, hcls] at hc
  exact ⟨env.server_nonce, req.message.query, c, hc, (Except.ok.inj h).symm⟩

/-- Every other message is sent as it is. -/
theorem respond_plain (hcls : ∀ key n, req.message.cls ≠ .emessage key n)
    (h : r.respond env req = .ok b) : b = req.message.query.wire := by
  obtain ⟨c, hc, h⟩ := Result.bind_eq_ok.mp h
  obtain ⟨-, -, h⟩ := Result.bind_eq_ok.mp h
  have hplain : r.encrypt env req.message = .ok req.message.query := by
    unfold encrypt
    split
    · next hemsg => exact absurd hemsg (hcls _ _)
    · rfl
  rw [hplain] at hc
  rw [← Except.ok.inj h, Except.ok.inj hc]

/-- What `finish` sends. -/
theorem respond_of_finish {res : responder × outcome} (h : r.finish env req = .ok res) :
    ∃ b, r.respond env req = .ok b ∧ res = (r, .responded b) := by
  obtain ⟨b, hb, h⟩ := Result.bind_eq_ok.mp h
  exact ⟨b, hb, (Except.ok.inj h).symm⟩

end responder

/-! ## The class of a request -/

/-- The classes that encryption and decryption by a provider stay in. -/
def provider.Stable (C : message_class → Prop) (p : provider) : Prop :=
  p.resolver ≠ none → ∀ n, C (.message n)

section Provider

variable {C : message_class → Prop} {p : provider} {S : Sodium} {io : Io} {m m' : Message}

theorem provider.fold_cls (hp : p.Stable C) (hm : C m.cls) (h : p.fold S io m = .ok m') :
    C m'.cls := by
  unfold fold at h
  split at h
  · rw [← Except.ok.inj h]
    exact hm
  · next r hr =>
    split at h
    · obtain ⟨q, -, h⟩ := Result.bind_eq_ok.mp h
      rw [← Except.ok.inj h]
      exact hp (by rw [hr]; simp) _
    · exact absurd h (by simp)

theorem provider.unfold_cls (hp : p.Stable C) (hm : C m.cls) (h : p.unfold S m = .ok m') :
    C m'.cls := by
  unfold unfold at h
  split at h
  · rw [← Except.ok.inj h]
    exact hm
  · next r hr =>
    split at h
    · obtain ⟨q, -, h⟩ := Result.bind_eq_ok.mp h
      rw [← Except.ok.inj h]
      exact hp (by rw [hr]; simp) _
    · exact absurd h (by simp)

theorem provider.renew_resolver (p : provider) (renewed : Option Cdns.resolver) :
    (p.renew renewed).resolver = none ↔ p.resolver = none := Option.map_eq_none_iff

end Provider

/-- After a callback the question, or the message that was passed on, has a class in
`C`. -/
def progress.In {α : Type} (pass : Message → Result α) (C : message_class → Prop) :
    progress α → Prop
  | .going _ question => C question.cls
  | .over none => True
  | .over (some a) => ∃ m : Message, C m.cls ∧ pass m = .ok a

namespace network_upstream

variable {α : Type} {pass : Message → Result α} {C : message_class → Prop} {S : Sodium}
  {provider_ptr : provider} {p : proto} {io : Io} {question : Message} {next : progress α}

theorem pass_failure_downstream_in (hq : C question.cls)
    (h : pass_failure_downstream pass question = .ok next) : next.In pass C := by
  unfold pass_failure_downstream at h
  split_ifs at h
  · obtain ⟨a, ha, h⟩ := Result.bind_eq_ok.mp h
    rw [← Except.ok.inj h]
    exact ⟨question.mark_servfail, hq, ha⟩
  · rw [← Except.ok.inj h]
    trivial

/-- **`on_send` keeps the class.** -/
theorem on_send_in (hp : provider_ptr.Stable C) (hq : C question.cls)
    (h : on_send pass S provider_ptr p io question = .ok next) : next.In pass C := by
  unfold on_send at h
  split at h
  · rw [← Except.ok.inj h]
    exact hq
  · exact pass_failure_downstream_in hq h
  · split_ifs at h
    · obtain ⟨m, hm, h⟩ := Result.bind_eq_ok.mp h
      have hm' : C m.cls := provider.fold_cls hp hq hm
      split at h
      · exact pass_failure_downstream_in hm' h
      · exact absurd h (by simp)
      · rw [← Except.ok.inj h]
        exact hm'
    · rw [← Except.ok.inj h]
      exact hq

/-- **`on_receive` keeps the class.** -/
theorem on_receive_in (hp : provider_ptr.Stable C) (hq : C question.cls)
    (h : on_receive pass S provider_ptr p io question = .ok next) : next.In pass C := by
  unfold on_receive at h
  split at h
  · rw [← Except.ok.inj h]
    exact hq
  · exact pass_failure_downstream_in hq h
  · split at h
    · exact @pass_failure_downstream_in _ pass C question.clear next hq h
    · exact absurd h (by simp)
    · next q _ =>
      obtain ⟨m, hm, h⟩ := Result.bind_eq_ok.mp h
      obtain ⟨a, ha, h⟩ := Result.bind_eq_ok.mp h
      have hq' : C ({ question with query := q } : Message).cls := hq
      rw [← Except.ok.inj h]
      exact ⟨m, provider.unfold_cls hp hq' hm, ha⟩

end network_upstream

/-! ## The life of a request -/

/-- The invariant of a request: its question has a class in `C`, and so has all that
its provider makes of it. -/
structure upstream.Carries (C : message_class → Prop) (u : upstream) : Prop where
  question : C u.question.cls
  stable : u.provider.Stable C

namespace upstream

variable {C : message_class → Prop} {u u' : upstream} {t : moment}
  {passed : Option (responder × List UInt8)}

/-- **One moment keeps the invariant**, and what is passed on has a class in `C`. -/
theorem step_carries (hu : u.Carries C) (h : u.step t = .ok (u', passed)) :
    u'.Carries C ∧ u'.client = u.client ∧ ∀ a, passed = some a → ∃ m : Message, C m.cls ∧
      t.responder.pass_answer_downstream t.env u.client m = .ok a := by
  -- a renewed resolver is a resolver, and nothing else becomes one
  have hstable : (u.provider.renew t.renewed).Stable C := by
    intro hne
    exact hu.stable fun hnone => hne ((provider.renew_resolver _ _).mpr hnone)
  unfold step at h
  dsimp only at h
  split at h
  · obtain ⟨rfl, rfl⟩ := Prod.mk.inj (Except.ok.inj h)
    refine ⟨⟨hu.question, hstable⟩, rfl, ?_⟩
    intro a ha
    exact absurd ha (by simp)
  · next io hio =>
    obtain ⟨next, hnext, h⟩ := Result.bind_eq_ok.mp h
    -- the callback of the stage keeps the class
    have hin : next.In (t.responder.pass_answer_downstream t.env u.client) C := by
      unfold callback at hnext
      split at hnext
      · exact network_upstream.on_send_in hstable hu.question hnext
      · exact network_upstream.on_receive_in hstable hu.question hnext
      · rw [← Except.ok.inj hnext]
        exact hu.question
      · rw [← Except.ok.inj hnext]
        trivial
    split at h
    · obtain ⟨rfl, rfl⟩ := Prod.mk.inj (Except.ok.inj h)
      refine ⟨⟨hin, hstable⟩, rfl, ?_⟩
      intro a ha
      exact absurd ha (by simp)
    · obtain ⟨rfl, rfl⟩ := Prod.mk.inj (Except.ok.inj h)
      refine ⟨⟨hu.question, hstable⟩, rfl, ?_⟩
      intro a ha
      rw [ha] at hin
      exact hin

/-- **A whole life.** Every reply was passed on at some moment, with a class in `C`. -/
theorem replies_carry (ts : List moment) : ∀ {u : upstream}, u.Carries C → ∀ b ∈ u.replies ts,
    ∃ t ∈ ts, ∃ (m : Message) (r' : responder), C m.cls ∧
      t.responder.pass_answer_downstream t.env u.client m = .ok (r', b) := by
  -- over the moments, for every state that carries `C`
  induction ts with
  | nil =>
      intro u _ b hb
      exact absurd hb (by simp [replies])
  | cons t ts ih =>
      intro u hu b hb
      rw [replies] at hb
      split at hb
      · exact absurd hb (by simp)
      · next u' passed hstep =>
        obtain ⟨hu', hclient, hpass⟩ := step_carries hu hstep
        rcases List.mem_append.mp hb with hb | hb
        · -- a reply of this moment
          rw [Option.mem_toList] at hb
          obtain ⟨⟨r', b'⟩, ha, rfl⟩ := Option.map_eq_some_iff.mp hb
          obtain ⟨m, hm, heq⟩ := hpass _ ha
          exact ⟨t, by simp, m, r', hm, heq⟩
        · -- a reply of a later one
          obtain ⟨t', ht', m, r', hm, heq⟩ := ih hu' b hb
          rw [hclient] at heq
          exact ⟨t', by simp [ht'], m, r', hm, heq⟩

end upstream

/-! ## Replies to encrypted requests -/

/-- The bytes are handed to `incoming::respond`: at once, or at some moment in the life
of a request to a provider. The library and the server stay the same. -/
def outcome.Reply (S : Sodium) (s : server_responder) (out : outcome) (b : List UInt8) : Prop :=
  match out with
  | .dropped => False
  | .responded bytes => b = bytes
  | .forwarded u => ∃ ts : List moment,
      (∀ t ∈ ts, t.env.S = S ∧ t.responder.crypt.bind crypt_part.server = some s) ∧
        b ∈ u.replies ts

namespace responder

/-- The ways that keep a session: the question is not refused, not in the cache and
not in the hosts file, and a provider it goes to is not a resolver. -/
def Confined (env : Env) (r : responder) (q : Query) : Prop :=
  q.is_dns = true → ∃ owner class_ type, q.get_question = .ok (owner, class_, type) ∧
    r.route_of env owner type = .upstream ∧
    ∀ prov, r.random_provider env q = .ok (some prov) → env.created = none → prov.resolver = none

variable {env : Env} {r r' : responder} {s : server_responder} {key : pubkey} {n : nonce}
  {b : List UInt8}

/-- What an answer that was passed on says about it. -/
theorem pass_answer_downstream_spec {inptr : incoming} {m : Message}
    (h : r.pass_answer_downstream env inptr m = .ok (r', b)) :
    m.query.questions.returns ∧ ∃ r₁ : responder, r₁.crypt = r.crypt ∧
      r₁.respond env { inptr with message := m } = .ok b := by
  obtain ⟨text, htext, h⟩ := Result.bind_eq_ok.mp h
  obtain ⟨r₁, hr₁, h⟩ := Result.bind_eq_ok.mp h
  obtain ⟨b', hb', h⟩ := Result.bind_eq_ok.mp h
  obtain ⟨-, qs, off, -, -, hqs, -⟩ := (Query.short_info_returns _ _ _).mp ⟨text, htext⟩
  refine ⟨⟨_, hqs⟩, r₁, store_answer_crypt hr₁, ?_⟩
  rw [hb', (Prod.mk.inj (Except.ok.inj h)).2]

section Forwarded

variable {S : Sodium} {p : provider} {req : incoming}

/-- **A plain provider keeps the session**: every reply of a whole life is sealed. -/
theorem forwarded_sealed (hp : p.resolver = none) (hcls : req.message.cls = .emessage key n)
    (hb : (outcome.forwarded (upstream.create p req)).Reply S s b) :
    Sealed S s.decryptor key n b := by
  obtain ⟨ts, hts, hb⟩ := hb
  have hadapt : p.adapt_message req.message = req.message := by
    rw [provider.adapt_message, hp]
  have hu : (upstream.create p req).Carries (· = .emessage key n) := by
    refine ⟨?_, fun hne => absurd hp hne⟩
    show (p.adapt_message req.message).cls = _
    rw [hadapt, hcls]
  obtain ⟨t, ht, m, r', hm, h⟩ := upstream.replies_carry ts hu b hb
  obtain ⟨-, r₁, hcrypt, h⟩ := pass_answer_downstream_spec h
  obtain ⟨hS, hserver⟩ := hts t ht
  rw [← hcrypt] at hserver
  rw [← hS]
  exact @respond_sealed t.env r₁ { req with message := m } s key n b hserver hm h

/-- **A resolver loses it**: no reply is sealed. -/
theorem forwarded_plain (hp : p.resolver ≠ none)
    (hb : (outcome.forwarded (upstream.create p req)).Reply S s b) :
    ¬ Sealed S s.decryptor key n b := by
  obtain ⟨ts, hts, hb⟩ := hb
  obtain ⟨res, hres⟩ := Option.ne_none_iff_exists'.mp hp
  have hu : (upstream.create p req).Carries fun c => ∃ n, c = .message n := by
    refine ⟨⟨Block.zero 12, ?_⟩, fun _ n => ⟨n, rfl⟩⟩
    show (p.adapt_message req.message).cls = _
    rw [provider.adapt_message, hres]
  obtain ⟨t, ht, m, r', ⟨n', hm⟩, h⟩ := upstream.replies_carry ts hu b hb
  obtain ⟨hqs, r₁, -, h⟩ := pass_answer_downstream_spec h
  have hplain : b = m.query.wire := by
    refine @respond_plain t.env r₁ { req with message := m } b ?_ h
    intro key' n''
    show m.cls ≠ _
    rw [hm]
    simp
  rw [hplain]
  exact not_sealed_of_questions hqs

end Forwarded

/-! ### Replies that are made at once -/

/-- The marks of a failure leave the questions alone. -/
theorem mark_refused_qdcount (q : Query) : q.mark_refused.header.qdcount = q.header.qdcount := by
  rw [Query.mark_refused, Query.mark_header]

/-- What comes out of the cache has the questions that went in. -/
theorem retrieve_not_sealed {c : Cache} {tnow : ℤ} {q m : Query} {owner : Str} {class_ type : ℕ}
    {e : cache_entry} {hit : Bool} {S : Sodium} {keys : server_encryptor_data}
    (hq : q.get_question = .ok (owner, class_, type)) (hlive : c.live tnow owner type = some e)
    (h : c.retrieve tnow q = .ok (hit, m)) : ¬ Sealed S keys key n m.wire := by
  obtain ⟨hlen, heq⟩ := Cache.retrieve_hit hq hlive
  have hrec := (Cache.retrieve_hit_returns hq hlive).mp ⟨_, h⟩ hlen
  obtain ⟨rs, hrs⟩ := hrec
  obtain ⟨m', hm', hrew⟩ := Query.adjust_id_and_ttl_rewritten
    (message_header.read_valid q.bytes).id (Query.int32 (Query.uint32 (e.deadline - tnow))) hrs
  have hm₁ : (Query.of_bytes e.response hlen).adjust_id_and_ttl q.header.id
      (Query.int32 (Query.uint32 (e.deadline - tnow))) = .ok m' := hm'
  rw [heq, hm₁, Result.ok_bind] at h
  obtain ⟨-, rfl⟩ := Prod.mk.inj (Except.ok.inj h)
  intro hs
  obtain ⟨hlong, hcount⟩ := hs.qdcount
  have hsize := hrew.size_eq
  -- no TTL is in the header, so the two bytes of the count are those of the entry
  have hkeep : ∀ i, 2 ≤ i → i < 12 → m'.bytes i = (Query.of_bytes e.response hlen).bytes i := by
    intro i h₂ h₁₂
    refine hrew.rest_eq rs hrs i h₂ (by omega) ?_
    rintro ⟨r, hr, -, hlow, -⟩
    have := ((Query.records_bounds hrs).1 r hr).1
    omega
  have hcount' : (Query.of_bytes e.response hlen).header.qdcount = 30295 := by
    rw [← hcount]
    exact (be16_congr (hkeep 4 (by omega) (by omega)) (hkeep 5 (by omega) (by omega))).symm
  have hqs : (Query.of_bytes e.response hlen).questions.returns := by
    rw [Query.records, Result.bind_eq_ok] at hrs
    obtain ⟨⟨off, x⟩, hskip, -⟩ := hrs
    obtain ⟨qs, hqs⟩ := (Query.skip_questions_returns _ off).mp ⟨x, hskip⟩
    exact ⟨_, hqs⟩
  have hroom := Query.questions_count hqs
  have hle := (Query.of_bytes e.response hlen).size_le
  have e₁ : max_size = 55535 := rfl
  omega

/-- A hosts answer keeps the count of the questions. -/
theorem set_answer_qdcount {net : Inet} {q m : Query} {ip : Str} (h : q.set_answer net ip = .ok m) :
    m.header.qdcount = q.header.qdcount := by
  obtain ⟨a, -, h⟩ := Result.bind_eq_ok.mp h
  rw [Query.add_answer_header h]
  rfl

section Routes

variable {p : proto} {q : Query} {owner : Str} {class_ type : ℕ} {out : outcome}

/-- A plain copy of the request is answered without encryption. -/
theorem finish_plain {m : Query} (h : r.finish env ⟨p, .of_query m⟩ = .ok (r', out)) :
    out = .responded m.wire := by
  obtain ⟨b', hb', h⟩ := respond_of_finish h
  have hplain : b' = m.wire := by
    refine @respond_plain env r ⟨p, .of_query m⟩ b' ?_ hb'
    intro key' n'
    simp [Message.of_query]
  rw [(Prod.mk.inj h).2, hplain]

/-- The failure of a request is answered with its session. -/
theorem finish_sealed {m : Message} (hserver : r.crypt.bind crypt_part.server = some s)
    (hm : m.cls = .emessage key n) (h : r.finish env ⟨p, m⟩ = .ok (r', out)) :
    ∃ b, out = .responded b ∧ Sealed env.S s.decryptor key n b := by
  obtain ⟨b', hb', h⟩ := respond_of_finish h
  exact ⟨b', (Prod.mk.inj h).2, @respond_sealed env r ⟨p, m⟩ s key n b' hserver hm hb'⟩

/-- **On the way to a provider** replies are sealed unless the provider is a resolver. -/
theorem ask_sealed_iff (hserver : r.crypt.bind crypt_part.server = some s)
    (h : r.ask env ⟨p, ⟨.emessage key n, q⟩⟩ = .ok (r', out)) (hb : out.Reply env.S s b) :
    Sealed env.S s.decryptor key n b ↔ ∀ prov, r.random_provider env q = .ok (some prov) →
      env.created = none → prov.resolver = none := by
  obtain ⟨prov, hprov, h⟩ := Result.bind_eq_ok.mp h
  dsimp only at hprov h
  rw [hprov]
  -- failures are answered with the clone of the request, which has its class
  have hfail : ∀ {r₂ : responder}, r.finish env ⟨p, (⟨.emessage key n, q⟩ : Message).mark_servfail⟩ =
      .ok (r₂, out) → Sealed env.S s.decryptor key n b := by
    intro r₂ h
    obtain ⟨b', rfl, hs⟩ := finish_sealed hserver rfl h
    have hb' : b = b' := hb
    rw [hb']
    exact hs
  cases prov with
  | none =>
      refine iff_of_true (hfail h) ?_
      intro prov hnone
      exact absurd (Except.ok.inj hnone) (by simp)
  | some pr =>
      dsimp only at h
      have hone : ∀ {prov}, (.ok (some pr) : Result (Option provider)) = .ok (some prov) →
          prov = pr := fun h => (Option.some.inj (Except.ok.inj h)).symm
      cases hcreated : env.created with
      | none =>
          rw [hcreated] at h
          obtain ⟨-, rfl⟩ := Prod.mk.inj (Except.ok.inj h)
          by_cases hpr : pr.resolver = none
          · refine iff_of_true (forwarded_sealed hpr rfl hb) ?_
            intro prov hp _
            rw [hone hp]
            exact hpr
          · refine iff_of_false (forwarded_plain hpr hb) ?_
            intro hall
            exact hpr (hall pr rfl rfl)
      | some e =>
          rw [hcreated] at h
          have hvac : ∀ prov, (.ok (some pr) : Result (Option provider)) = .ok (some prov) →
              some e = none → prov.resolver = none := fun _ _ h => absurd h (by simp)
          cases e with
          | net_error what => exact iff_of_true (hfail h) hvac
          | _ => exact absurd h (by simp)

/-- **On every way** replies are sealed exactly when the way keeps the session. -/
theorem follow_sealed_iff (hserver : r.crypt.bind crypt_part.server = some s)
    (hq : q.get_question = .ok (owner, class_, type))
    (h : r.follow env ⟨p, ⟨.emessage key n, q⟩⟩ (r.route_of env owner type) = .ok (r', out))
    (hb : out.Reply env.S s b) :
    Sealed env.S s.decryptor key n b ↔ r.route_of env owner type = .upstream ∧
      ∀ prov, r.random_provider env q = .ok (some prov) → env.created = none →
        prov.resolver = none := by
  have hone := (Query.get_question_walk hq).1
  -- the other ways answer with a copy that has none
  have hplain : ∀ {r₁ r₂ : responder} {m : Query}, ¬ Sealed env.S s.decryptor key n m.wire →
      r₁.finish env ⟨p, .of_query m⟩ = .ok (r₂, out) → ¬ Sealed env.S s.decryptor key n b := by
    intro r₁ r₂ m hm h
    rw [finish_plain h] at hb
    have hb' : b = m.wire := hb
    rw [hb']
    exact hm
  cases hroute : r.route_of env owner type with
  | refused =>
      rw [hroute] at h
      refine iff_of_false ?_ (by simp)
      refine hplain (not_sealed_of_single ?_) h
      exact (mark_refused_qdcount q).trans hone
  | cached e =>
      rw [hroute] at h
      refine iff_of_false ?_ (by simp)
      obtain ⟨⟨hit, m⟩, hm, h⟩ := Result.bind_eq_ok.mp h
      exact hplain (retrieve_not_sealed hq (live_of_route hroute) hm) h
  | hosts ip =>
      rw [hroute] at h
      refine iff_of_false ?_ (by simp)
      obtain ⟨m, hm, h⟩ := Result.bind_eq_ok.mp h
      obtain ⟨r₁, -, h⟩ := Result.bind_eq_ok.mp h
      refine hplain (not_sealed_of_single ?_) h
      exact (set_answer_qdcount hm).trans hone
  | upstream =>
      rw [hroute] at h
      rw [ask_sealed_iff hserver h hb]
      exact (and_iff_right rfl).symm

end Routes

end responder

/-- **The replies to an encrypted request.** For every request that `process` decrypts,
every way it takes, and every run of the request to a provider that may follow, a reply
is an output of the server's encryption for the session of the request exactly when the
way keeps the session. -/
theorem reply_sealed_iff {env : Env} {r r' : responder} {p : proto} {s : server_responder}
    {q q' : Query} {key : pubkey} {n : nonce} {out : outcome} {b : List UInt8}
    (hserver : r.crypt.bind crypt_part.server = some s)
    (hmagic : s.certificate.is_dnscrypt_message q = true)
    (hdecrypt : s.decryptor.uncurve env.S q = .ok (q', key, n))
    (hprocess : r.process env ⟨p, .of_query q⟩ = .ok (r', out)) (hb : out.Reply env.S s b) :
    Sealed env.S s.decryptor key n b ↔ r.Confined env q' := by
  -- the request that was decrypted goes on as an `emessage`
  have hdns : r.process_dns env ⟨p, ⟨.emessage key n, q'⟩⟩ = .ok (r', out) := by
    rw [responder.process, hserver] at hprocess
    dsimp only [Message.of_query] at hprocess
    rwa [if_pos hmagic, hdecrypt, Result.ok_bind] at hprocess
  by_cases his : q'.is_dns = true
  · obtain ⟨owner, class_, type, pass, hq, hpass, hlog⟩ :=
      @responder.process_dns_walk env r ⟨p, ⟨.emessage key n, q'⟩⟩ his ⟨_, hdns⟩
    rw [@responder.process_dns_eq env r ⟨p, ⟨.emessage key n, q'⟩⟩ owner class_ type his hq pass
      hpass hlog] at hdns
    have hfollow := @responder.follow_sealed_iff env { r with processed_count := r.processed_count + 1 }
      r' s key n b p q' owner class_ type out hserver hq hdns hb
    rw [hfollow]
    constructor
    · intro h _
      exact ⟨owner, class_, type, hq, h⟩
    · intro h
      obtain ⟨o, c, t, hq', h⟩ := h his
      obtain ⟨rfl, -, rfl⟩ := Query.get_question_unique hq hq'
      exact h
  · -- a request that is not DNS is dropped
    rw [responder.process_dns, if_pos (by simpa using his)] at hdns
    rw [← (Prod.mk.inj (Except.ok.inj hdns)).2] at hb
    exact absurd hb fun h => h

/-! ### A session that is kept, and one that is lost -/

/-- A DNSCrypt server that asks a plain provider and refuses IPv6 questions. -/
def sampleCresponder : responder :=
  { sampleResponder with
      noipv6 := true
      dns_providers := [sampleProvider]
      crypt := some ⟨[], some ⟨sampleServer, sampleCert 1, "a".toList⟩⟩ }

/-- The question `a.` of a type below 256, padded and sealed. -/
def sampleEncrypted (type : UInt8) : Query :=
  Query.of_bytes (List.replicate 52 0 ++
    [0, 1, 1, 0, 0, 1, 0, 0, 0, 0, 0, 0, 1, 97, 0, 0, type, 0, 1, 0x80] ++ List.replicate 16 1)
    (by
      have e₁ : max_size = 55535 := rfl
      simp only [List.length_append, List.length_replicate, List.length_cons, List.length_nil]
      omega)

/-- A callback that finds one datagram. -/
def sampleMoment (datagram : List UInt8) : moment :=
  ⟨sampleEnv, sampleCresponder, none, .ready (sampleIo datagram)⟩

theorem sample_forwarded : ∃ q' key r' u b,
    sampleServer.uncurve Sodium.tagged (sampleEncrypted 1) = .ok (q', key, Block.zero 12) ∧
    q'.get_question = .ok ("a.".toList, 1, 1) ∧
    sampleCresponder.process sampleEnv ⟨.udp, .of_query (sampleEncrypted 1)⟩ =
      .ok (r', .forwarded u) ∧
    u.replies [sampleMoment [], sampleMoment (sampleReply 5)] = [b] := by
  exact ⟨_, _, _, _, _, rfl, rfl, rfl, rfl⟩

/-- The refusal of a plain provider is passed on sealed. -/
theorem reply_sealed_iff_forwarded : ∃ key r' u b,
    sampleCresponder.process sampleEnv ⟨.udp, .of_query (sampleEncrypted 1)⟩ =
      .ok (r', .forwarded u) ∧
    u.replies [sampleMoment [], sampleMoment (sampleReply 5)] = [b] ∧
    Sealed Sodium.tagged sampleServer key (Block.zero 12) b := by
  obtain ⟨q', key, r', u, b, hdecrypt, hq, hprocess, hreplies⟩ := sample_forwarded
  refine ⟨key, r', u, b, hprocess, hreplies, ?_⟩
  have hb : (outcome.forwarded u).Reply Sodium.tagged ⟨sampleServer, sampleCert 1, "a".toList⟩ b := by
    refine ⟨[sampleMoment [], sampleMoment (sampleReply 5)], ?_, by rw [hreplies]; simp⟩
    intro t ht
    rcases List.mem_pair.mp ht with rfl | rfl
    · exact ⟨rfl, rfl⟩
    · exact ⟨rfl, rfl⟩
  refine (@reply_sealed_iff sampleEnv sampleCresponder r' .udp
    ⟨sampleServer, sampleCert 1, "a".toList⟩ (sampleEncrypted 1) q' key (Block.zero 12) _ b rfl
    (by decide) hdecrypt hprocess hb).mpr ?_
  intro _
  refine ⟨"a.".toList, 1, 1, hq, by rfl, ?_⟩
  intro prov hprov _
  have hplain : sampleCresponder.random_provider sampleEnv q' = .ok (some sampleProvider) := by rfl
  rw [hplain] at hprov
  rw [← Option.some.inj (Except.ok.inj hprov)]
  rfl

/-- The refusal of an IPv6 question goes out in plaintext. -/
theorem refused_in_plaintext : ∃ q' key r',
    sampleServer.uncurve Sodium.tagged (sampleEncrypted 28) = .ok (q', key, Block.zero 12) ∧
    sampleCresponder.process sampleEnv ⟨.udp, .of_query (sampleEncrypted 28)⟩ =
      .ok (r', .responded q'.mark_refused.wire) ∧
    ¬ Sealed Sodium.tagged sampleServer key (Block.zero 12) q'.mark_refused.wire := by
  refine ⟨_, _, _, rfl, rfl, ?_⟩
  apply not_sealed_of_single
  exact (responder.mark_refused_qdcount _).trans rfl

end Cdns
