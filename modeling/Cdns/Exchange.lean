/-
Two of these programs that talk to each other: one has a DNSCrypt provider, the other is the
DNSCrypt server behind it.

The two are `Linked` when the resolver of the one has the keys and the magic of the other. A
certificate brings that about (`linked_of_adopt`); how a client comes to it is in `Handshake`.

What a linked client sends is opened by the server, byte by byte what the client folded. The server
then deals with it as with any message, and not all of its replies come back: one that is made from
the lists, the cache or the hosts file is sent in plain text, and so is one that the server itself
had from a DNSCrypt provider. The client takes no plain text for an answer, and nothing catches what
it throws (`exchange`).
-/
import Cdns.Builder
import Cdns.Rewrite
import Cdns.Trust

set_option autoImplicit false

namespace Cdns

open Lib.Storage

/-! ## Packets

A message on the wire is received into other storage, where other bytes lie behind its end. -/

namespace Query

/-- Messages that are the same on the wire agree. -/
theorem agree_of_wire {q q' : Query} (h : q.wire = q'.wire) : Agree q q' 0 := by
  have hsize : q.size = q'.size := by
    have := congrArg List.length h
    rwa [wire_length, wire_length] at this
  refine ⟨hsize, ?_⟩
  intro i _ hi
  have hbyte := congrArg (fun l => List.getD l i 0) h
  dsimp only [wire] at hbyte
  rw [slice_getD _ _ _ hi, slice_getD _ _ _ (hsize ▸ hi), Nat.zero_add] at hbyte
  exact hbyte

/-- Bytes inside of two such messages. -/
theorem slice_of_wire {q q' : Query} (h : q.wire = q'.wire) {a n : ℕ} (hfit : a + n ≤ q.size) :
    slice q.bytes a n = slice q'.bytes a n := by
  obtain ⟨-, hbytes⟩ := agree_of_wire h
  refine slice_congr ?_
  intro i h₁ h₂
  exact hbytes i (Nat.zero_le _) (by omega)

end Query

/-! ## Linked programs -/

/-- **The resolver of a client has the keys and the magic of a server.** -/
structure Linked (S : Sodium) (R : resolver) (s : server_responder) : Prop where
  paired : Paired S R.dnscrypt_client_ s.decryptor
  magic : R.dnscrypt_client_.magic_query = s.certificate.magic_query

section Link

variable {S : Sodium} {R : resolver} {s : server_responder} {n : nonce} {key : pubkey}

/-- A resolver that adopts the certificate of a server is linked to it, when the certificate has
the first version and the public key that goes with the secret key of the server. -/
theorem linked_of_adopt {pk : pubkey} {sk : secretkey}
    (heph : R.dnscrypt_client_.ephemeral_keys = true) (hkeys : s.decryptor = .of_keys pk sk)
    (hcipher : s.certificate.cipher = .xsalsa20poly1305)
    (hpublic : s.certificate.server_publickey = S.scalarmult_base sk) :
    Linked S (R.adopt s.certificate) s := by
  have hclient : (R.dnscrypt_client_.set_magic_query s.certificate.magic_query
      .xsalsa20poly1305).set_resolver_publickey S (S.scalarmult_base sk) =
        some (R.adopt s.certificate).dnscrypt_client_ := by
    unfold encryptor_data.set_resolver_publickey encryptor_data.set_magic_query resolver.adopt
    dsimp only
    rw [if_neg (by rw [heph]; simp), hcipher, hpublic]
  refine ⟨?_, rfl⟩
  rw [hkeys]
  exact paired_of_adopt (Or.inl heph) hclient

/-- The key that the server finds in a query is the one the client has for the nonce. -/
theorem session_key_of_uncurve (hS : S.Lawful) (hlink : Linked S R s) {p : List UInt8}
    {q q' : Query} (hq : SealedQuery S R.dnscrypt_client_ n p q)
    (h : s.decryptor.uncurve S q = .ok (q', key, n)) :
    R.dnscrypt_client_.session_key S n = some key := by
  have hpk : Block.ofList 32 (slice q.bytes 8 32) = R.dnscrypt_client_.header_key S n := by
    apply Block.ext
    rw [Block.ofList_bytes (slice_length _ _ _), hq.key_eq]
  unfold server_encryptor_data.uncurve at h
  dsimp only at h
  rw [hpk, hlink.paired.session_key_eq hS] at h
  split_ifs at h
  split at h
  · exact absurd h (by simp)
  · next k hk =>
    split at h
    · exact absurd h (by simp)
    · obtain ⟨b, -, h⟩ := Result.bind_eq_ok.mp h
      obtain ⟨d, -, h⟩ := Result.bind_eq_ok.mp h
      split_ifs at h
      obtain ⟨q₁, -, h⟩ := Result.bind_eq_ok.mp h
      obtain ⟨-, h⟩ := Prod.mk.inj (Except.ok.inj h)
      rw [hk, (Prod.mk.inj h).1]

end Link

/-! ## Questions -/

section Question

variable {S : Sodium} {R : resolver} {s : server_responder} {n : nonce}

/-- A query on the wire is a query in any storage. -/
theorem SealedQuery.of_wire {client : encryptor_data} {p : List UInt8} {q q' : Query}
    (h : SealedQuery S client n p q) (hwire : q'.wire = q.wire) :
    SealedQuery S client n p q' := by
  have hsize := (Query.agree_of_wire hwire).1
  have hq := h.size_eq
  obtain ⟨key, hkey, hbox⟩ := h.boxed
  refine ⟨hsize.trans hq, ?_, ?_, ?_, key, hkey, ?_⟩
  · rw [Query.slice_of_wire hwire (by omega), h.magic_eq]
  · rw [Query.slice_of_wire hwire (by omega), h.key_eq]
  · rw [Query.slice_of_wire hwire (by omega), h.nonce_eq]
  · rw [Query.slice_of_wire hwire (by omega), hbox]

/-- **The server opens what the client sends**: it finds the message, the nonce and the key of the
client. -/
theorem server_opens (hS : S.Lawful) (hlink : Linked S R s) {rnd : ℕ → ℕ} {m sent q : Query}
    (hm : 12 ≤ m.size) (hle : m.size ≤ 55457)
    (hsent : R.dnscrypt_client_.curve S rnd n m = .ok sent) (hwire : q.wire = sent.wire) :
    s.certificate.is_dnscrypt_message q = true ∧
      ∃ q' key, s.decryptor.uncurve S q = .ok (q', key, n) ∧ q'.wire = m.wire ∧
        R.dnscrypt_client_.session_key S n = some key := by
  have e₁ : detail.query_header_size = 52 := rfl
  have e₂ : crypto_box_MACBYTES = 16 := rfl
  obtain ⟨p, hp, hcurved⟩ := client_curve_spec hS hlink.paired.defined hsent
  have hsealed : SealedQuery S R.dnscrypt_client_ n p q := hcurved.of_wire hwire
  have hlong : 12 ≤ p.length := by
    have := hp.length_le
    rw [Query.wire_length] at this
    omega
  have hsize := hsealed.size_eq
  refine ⟨?_, ?_⟩
  · rw [certificate.is_dnscrypt_message, if_neg (by omega), hsealed.magic_eq, hlink.magic]
    exact beq_self_eq_true _
  · obtain ⟨q', key, hopen, hq'⟩ := (server_restores_iff hS hlink.paired
      (by rw [Query.wire_length]; exact hm) hp hsealed).mpr (by rw [Query.wire_length]; exact hle)
    exact ⟨q', key, hopen, hq', session_key_of_uncurve hS hlink hsealed hopen⟩

end Question

/-! ## Replies -/

section Reply

variable {S : Sodium} {R : resolver} {s : server_responder} {n sn : nonce} {key : pubkey}

/-- A response on the wire is a response in any storage. -/
theorem SealedResponse.of_wire {B : Box} {p : List UInt8} {a a' : Query}
    (h : SealedResponse B n sn key p a) (hwire : a'.wire = a.wire) :
    SealedResponse B n sn key p a' := by
  have hsize := (Query.agree_of_wire hwire).1
  have ha := h.size_eq
  refine ⟨hsize.trans ha, ?_, ?_, ?_, ?_⟩
  · rw [Query.slice_of_wire hwire (by omega), h.magic_eq]
  · rw [Query.slice_of_wire hwire (by omega), h.client_nonce_eq]
  · rw [Query.slice_of_wire hwire (by omega), h.server_nonce_eq]
  · rw [Query.slice_of_wire hwire (by omega), h.boxed]

/-- **The client opens what the server encrypts for it.** -/
theorem client_opens (hS : S.Lawful) (hseals : ∀ chacha, (S.box chacha).Seals)
    (hlink : Linked S R s) (hkey : R.dnscrypt_client_.session_key S n = some key)
    {answer sent a : Query} (hlong : 12 ≤ answer.size) (hle : answer.size ≤ 55457)
    (hsent : s.decryptor.curve S sn n key answer = .ok sent) (hwire : a.wire = sent.wire) :
    ∃ a', R.dnscrypt_client_.uncurve S n a = .ok a' ∧ a'.wire = answer.wire := by
  have e₁ : max_size = 55535 := rfl
  obtain ⟨p, sent', hsent', hp, hsealed⟩ :=
    server_curve_spec hS (hseals _) sn n key (r := answer) (by omega)
  obtain rfl := Except.ok.inj (hsent'.symm.trans hsent)
  rw [← hlink.paired.box_eq] at hsealed
  have ha := hsealed.of_wire hwire
  have hplong := hp.length_le
  have hsize := ha.size_eq
  have hfit := a.size_le
  rw [Query.wire_length] at hplong
  rw [client_uncurve_eq hS hlink.paired.defined hkey (by omega) ha]
  exact (cut_iff (by rw [Query.wire_length]; exact hlong) hp a.bytes (by omega) _).mpr
    (by rw [Query.wire_length]; exact hle)

/-- What the client opens is marked as a response, so it would be a message with 30295
questions. -/
theorem qdcount_of_uncurve {client : encryptor_data} {a a' : Query}
    (h : client.uncurve S n a = .ok a') : 48 < a.size ∧ a.header.qdcount = 30295 := by
  have e₁ : detail.response_header_size = 32 := rfl
  have e₂ : crypto_box_MACBYTES = 16 := rfl
  unfold encryptor_data.uncurve at h
  dsimp only at h
  split_ifs at h with hshort hmagic hnonce
  have hmark := not_not.mp hmagic
  have hbyte : ∀ i, i < 8 → a.bytes i = detail.magic_response.bytes.getD i 0 := by
    intro i hi
    have hi' := congrArg (fun l => List.getD l i 0) hmark
    rwa [slice_getD _ _ _ hi, Nat.zero_add] at hi'
  refine ⟨by omega, ?_⟩
  show be16 a.bytes 4 = 30295
  rw [be16, hbyte 4 (by omega), hbyte 5 (by omega)]
  rfl

/-- **A reply in plain text**, with fewer questions than the mark of a response would count. -/
def PlainReply (b : List UInt8) : Prop :=
  ∃ answer : Query, b = answer.wire ∧ answer.header.qdcount < 30295

/-- **The client does not open it.** -/
theorem client_rejects {client : encryptor_data} {a : Query} (h : PlainReply a.wire) :
    ¬ (client.uncurve S n a).returns := by
  rintro ⟨a', ha'⟩
  obtain ⟨answer, hwire, hcount⟩ := h
  obtain ⟨hlong, hmark⟩ := qdcount_of_uncurve ha'
  rw [Query.header_congr (Query.agree_of_wire hwire) (by omega)] at hmark
  omega

/-- A message that parses has room for its questions. -/
theorem plainReply_of_questions {answer : Query} (h : answer.questions.returns) :
    PlainReply answer.wire := by
  have hcount := Query.questions_count h
  have hfit := answer.size_le
  have e₁ : max_size = 55535 := rfl
  exact ⟨answer, rfl, by omega⟩

theorem plainReply_of_single {answer : Query} (h : answer.header.qdcount = 1) :
    PlainReply answer.wire := by
  refine ⟨answer, rfl, ?_⟩
  rw [h]
  decide

/-- What comes out of the cache has the questions that went in. -/
theorem plainReply_of_retrieve {c : Cache} {tnow : ℤ} {q answer : Query} {owner : Str}
    {class_ type : ℕ} {e : cache_entry} {hit : Bool}
    (hq : q.get_question = .ok (owner, class_, type)) (hlive : c.live tnow owner type = some e)
    (h : c.retrieve tnow q = .ok (hit, answer)) : PlainReply answer.wire := by
  obtain ⟨hlen, heq⟩ := Cache.retrieve_hit hq hlive
  rw [heq] at h
  obtain ⟨q', hadjust, h⟩ := Result.bind_eq_ok.mp h
  obtain ⟨-, rfl⟩ := Prod.mk.inj (Except.ok.inj h)
  obtain ⟨rs, hrs, -⟩ :=
    Result.bind_eq_ok.mp ((Query.adjust_id_and_ttl_eq _ _ _).symm.trans hadjust)
  have hheader := Query.header_adjust (message_header.read_valid q.bytes).id hrs hadjust
  -- the records were parsed, and the questions before them
  have hstored : (Query.of_bytes e.response hlen).questions.returns := by
    obtain ⟨⟨off, x⟩, hskip, -⟩ := Result.bind_eq_ok.mp hrs
    obtain ⟨qs, hqs⟩ := (Query.skip_questions_returns _ off).mp ⟨x, hskip⟩
    exact ⟨_, hqs⟩
  obtain ⟨answer', hwire, hcount⟩ := plainReply_of_questions hstored
  have hroom := Query.questions_count hstored
  have hfit := (Query.of_bytes e.response hlen).size_le
  have e₁ : max_size = 55535 := rfl
  refine ⟨q', rfl, ?_⟩
  rw [hheader]
  dsimp only
  omega

end Reply

namespace responder

variable {env : Env} {r r' : responder} {s : server_responder} {key : pubkey} {n : nonce}
  {p : proto} {q : Query} {out : outcome} {b : List UInt8}

/-- A message that a resolver got for the server is passed on in plain text. -/
theorem forwarded_plainReply {prov : provider} {req : incoming} {S : Sodium}
    (hprov : prov.resolver ≠ none)
    (hb : (outcome.forwarded (upstream.create prov req)).Reply S s b) : PlainReply b := by
  obtain ⟨ts, hts, hb⟩ := hb
  obtain ⟨res, hres⟩ := Option.ne_none_iff_exists'.mp hprov
  have hu : (upstream.create prov req).Carries fun c => ∃ n, c = .message n := by
    refine ⟨⟨Block.zero 12, ?_⟩, fun _ n => ⟨n, rfl⟩⟩
    show (prov.adapt_message req.message).cls = _
    rw [provider.adapt_message, hres]
  obtain ⟨t, -, m, r', ⟨n', hm⟩, h⟩ := upstream.replies_carry ts hu b hb
  obtain ⟨hqs, r₁, -, h⟩ := pass_answer_downstream_spec h
  have hplain : b = m.query.wire := by
    refine @respond_plain t.env r₁ { req with message := m } b ?_ h
    intro key' n''
    show m.cls ≠ _
    rw [hm]
    simp
  rw [hplain]
  exact plainReply_of_questions hqs

/-- **A reply to an encrypted message is sealed for its session, or in plain text.** -/
theorem sealed_or_plain (hserver : r.crypt.bind crypt_part.server = some s)
    (h : r.process_dns env ⟨p, ⟨.emessage key n, q⟩⟩ = .ok (r', out)) (hb : out.Reply env.S s b) :
    Sealed env.S s.decryptor key n b ∨ PlainReply b := by
  by_cases hdns : q.is_dns = true
  · obtain ⟨owner, class_, type, pass, hq, -, -⟩ :=
      @process_dns_walk env r ⟨p, ⟨.emessage key n, q⟩⟩ hdns ⟨_, h⟩
    have hone : q.header.qdcount = 1 := (Query.get_question_walk hq).1
    cases process_dns_cases h with
    | dropped hother => exact absurd (hdns.symm.trans hother) (by simp)
    | refused =>
        right
        rw [show b = q.mark_refused.wire from hb]
        exact plainReply_of_single ((mark_refused_qdcount q).trans hone)
    | @cached owner class_ type e hit answer hquestion hlive hret =>
        right
        rw [show b = answer.wire from hb]
        exact plainReply_of_retrieve hquestion hlive hret
    | @hosts owner class_ type answer r' hquestion haddress hanswer hstored =>
        right
        rw [show b = answer.wire from hb]
        exact plainReply_of_single ((set_answer_qdcount hanswer).trans hone)
    | @failed sent hsent =>
        left
        rw [show b = sent.wire from hb]
        have hserver' : r.counted.crypt.bind crypt_part.server = some s := hserver
        rw [encrypt, hserver'] at hsent
        exact ⟨env.server_nonce, _, sent, hsent, rfl⟩
    | @forwarded prov hcreated hchosen =>
        by_cases hprov : prov.resolver = none
        · exact Or.inl (forwarded_sealed hprov rfl hb)
        · exact Or.inr (forwarded_plainReply hprov hb)
  · rw [process_dns, if_pos (by simpa using hdns)] at h
    rw [← (Prod.mk.inj (Except.ok.inj h)).2] at hb
    exact absurd hb fun h => h

/-- The replies of `process_dns` to an encrypted message, by the way that the message takes. -/
theorem process_dns_sealed_iff (hserver : r.crypt.bind crypt_part.server = some s)
    (h : r.process_dns env ⟨p, ⟨.emessage key n, q⟩⟩ = .ok (r', out)) (hb : out.Reply env.S s b) :
    Sealed env.S s.decryptor key n b ↔ r.Confined env q := by
  by_cases hdns : q.is_dns = true
  · obtain ⟨owner, class_, type, pass, hq, hpass, hlog⟩ :=
      @process_dns_walk env r ⟨p, ⟨.emessage key n, q⟩⟩ hdns ⟨_, h⟩
    rw [@process_dns_eq env r ⟨p, ⟨.emessage key n, q⟩⟩ owner class_ type hdns hq pass hpass
      hlog] at h
    have hserver' : r.counted.crypt.bind crypt_part.server = some s := hserver
    have hfollow : Sealed env.S s.decryptor key n b ↔
        r.counted.route_of env owner type = .upstream ∧ ∀ prov,
          r.counted.random_provider env q = .ok (some prov) → env.created = none →
            prov.resolver = none := follow_sealed_iff hserver' hq h hb
    rw [hfollow]
    constructor
    · intro hway _
      exact ⟨owner, class_, type, hq, hway⟩
    · intro hconfined
      obtain ⟨owner', class', type', hq', hway⟩ := hconfined hdns
      obtain ⟨rfl, -, rfl⟩ := Query.get_question_unique hq hq'
      exact hway
  · rw [process_dns, if_pos (by simpa using hdns)] at h
    rw [← (Prod.mk.inj (Except.ok.inj h)).2] at hb
    exact absurd hb fun h => h

end responder

/-! ## The exchange -/

/-- A resolver folds into a `message` with the nonce that it drew. -/
theorem provider.fold_resolver {S : Sodium} {p : provider} {R : Cdns.resolver} {io : Io}
    {m sent : Message}
    (hprov : p.resolver = some R) (h : p.fold S io m = .ok sent) :
    ∃ folded, R.dnscrypt_client_.curve S io.rnd io.session_nonce m.query = .ok folded ∧
      sent = ⟨.message io.session_nonce, folded⟩ := by
  unfold fold at h
  rw [hprov] at h
  dsimp only at h
  split at h
  · obtain ⟨folded, hcurve, h⟩ := Result.bind_eq_ok.mp h
    exact ⟨folded, hcurve, (Except.ok.inj h).symm⟩
  · exact absurd h (by simp)

section Exchange

variable {α : Type} (pass : Message → Result α) {S : Sodium} {prov : provider} {R : resolver}
  {io : Io} {p : proto} {question : Message} {n : nonce} {a : Query}

/-- What the client does with a packet that it has received. -/
theorem on_receive_eq (hprov : prov.resolver = some R) (hcls : question.cls = .message n)
    (hlink : io.link_over p = .connected) (hreceive : io.receive p question.query = .ok a) :
    network_upstream.on_receive pass S prov p io question =
      (R.dnscrypt_client_.uncurve S n a >>= fun a' =>
        pass ⟨.message (Block.zero 12), a'⟩ >>= fun x => .ok (.over (some x))) := by
  have hunfold : prov.unfold S { question with query := a } =
      (R.dnscrypt_client_.uncurve S n a >>= fun a' => .ok ⟨.message (Block.zero 12), a'⟩) := by
    unfold provider.unfold
    rw [hprov]
    dsimp only
    rw [hcls]
  unfold network_upstream.on_receive
  rw [hlink]
  dsimp only
  rw [hreceive]
  dsimp only
  rw [hunfold, bind_assoc]
  rfl

end Exchange

/-- **An exchange of two linked programs.** Whatever message of 12 to 55457 bytes a provider folds
with the resolver of the client, and in whatever storage the packet arrives, the server deals with
the same message. Every reply to it, at once or at some moment in the life of the request that the
server makes of it, is of one of two kinds, by the way that the message takes at the server. On a
way that keeps the session it is an answer encrypted for the client, and the client passes on that
answer, if it has 12 to 55457 bytes. On any other way the client throws when it receives the
reply. -/
theorem exchange {env : Env} (hS : env.S.Lawful) (hseals : ∀ chacha, (env.S.box chacha).Seals)
    {prov : provider} {R : resolver} {s : server_responder} (hprov : prov.resolver = some R)
    (hlink : Linked env.S R s) {io : Io} {m sent : Message} (hm : 12 ≤ m.query.size)
    (hle : m.query.size ≤ 55457) (hfold : prov.fold env.S io m = .ok sent) {r : responder}
    (hserver : r.crypt.bind crypt_part.server = some s) {q : Query}
    (hwire : q.wire = sent.query.wire) (p : proto) :
    ∃ q' key, q'.wire = m.query.wire ∧
      r.process env ⟨p, .of_query q⟩ =
        r.process_dns env ⟨p, ⟨.emessage key io.session_nonce, q'⟩⟩ ∧
      ∀ r' out, r.process env ⟨p, .of_query q⟩ = .ok (r', out) →
        ∀ (a : Query), out.Reply env.S s a.wire →
          ∀ (α : Type) (pass : Message → Result α) (io' : Io) (p' : proto),
            io'.link_over p' = .connected → io'.receive p' sent.clear.query = .ok a →
              (r.Confined env q' → ∃ server_nonce answer encrypted,
                s.decryptor.curve env.S server_nonce io.session_nonce key answer = .ok encrypted ∧
                a.wire = encrypted.wire ∧
                (12 ≤ answer.size → answer.size ≤ 55457 → ∃ a', a'.wire = answer.wire ∧
                  network_upstream.on_receive pass env.S prov p' io' sent.clear =
                    (pass ⟨.message (Block.zero 12), a'⟩ >>= fun x => .ok (.over (some x))))) ∧
              (¬ r.Confined env q' →
                ¬ (network_upstream.on_receive pass env.S prov p' io' sent.clear).returns) := by
  obtain ⟨folded, hcurve, hcls⟩ := provider.fold_resolver hprov hfold
  rw [hcls] at hwire ⊢
  obtain ⟨hmagic, q', key, hopen, hq', hkey⟩ := server_opens hS hlink hm hle hcurve hwire
  have hprocess : r.process env ⟨p, .of_query q⟩ =
      r.process_dns env ⟨p, ⟨.emessage key io.session_nonce, q'⟩⟩ := by
    rw [responder.process, hserver]
    dsimp only [Message.of_query]
    rw [if_pos hmagic, hopen, Result.ok_bind]
  refine ⟨q', key, hq', hprocess, ?_⟩
  intro r' out hout a ha α pass io' p' hconnected hreceive
  rw [hprocess] at hout
  have hiff := responder.process_dns_sealed_iff hserver hout ha
  have hview : network_upstream.on_receive pass env.S prov p' io'
      (⟨.message io.session_nonce, folded⟩ : Message).clear =
        (R.dnscrypt_client_.uncurve env.S io.session_nonce a >>= fun a' =>
          pass ⟨.message (Block.zero 12), a'⟩ >>= fun x => .ok (.over (some x))) :=
    on_receive_eq pass hprov rfl hconnected hreceive
  rw [hview]
  refine ⟨?_, ?_⟩
  · intro hconfined
    obtain ⟨server_nonce, answer, encrypted, henc, heq⟩ := hiff.mpr hconfined
    refine ⟨server_nonce, answer, encrypted, henc, heq, ?_⟩
    intro hlong hshort
    obtain ⟨a', ha', hanswer⟩ := client_opens hS hseals hlink hkey hlong hshort henc heq
    refine ⟨a', hanswer, ?_⟩
    rw [ha', Result.ok_bind]
  · intro hconfined hreturns
    obtain ⟨x, hx⟩ := hreturns
    obtain ⟨a', ha', -⟩ := Result.bind_eq_ok.mp hx
    rcases responder.sealed_or_plain hserver hout ha with hsealed | hplain
    · exact hconfined (hiff.mp hsealed)
    · exact client_rejects hplain ⟨a', ha'⟩

/-! ### A refusal -/

/-- The provider of a client that has adopted the certificate of `sampleCresponder`. -/
def sampleLinked : provider := { sampleProvider with resolver := some (sampleAdopted 1) }

/-- The question `a.` of a type below 256. -/
def sampleTyped (type : UInt8) : Message :=
  ⟨.message (Block.zero 12),
    Query.of_bytes [0, 1, 1, 0, 0, 1, 0, 0, 0, 0, 0, 0, 1, 97, 0, 0, type, 0, 1] (by
      have e₁ : max_size = 55535 := rfl
      simp only [List.length_cons, List.length_nil]
      omega)⟩

theorem sample_refused : ∃ sent r' b,
    sampleLinked.fold Sodium.tagged (sampleIo []) (sampleTyped 28) = .ok sent ∧
    sampleCresponder.process sampleEnv ⟨.udp, .of_query sent.query⟩ = .ok (r', .responded b) ∧
    ∃ a, (sampleIo b).receive .udp sent.clear.query = .ok a ∧ a.wire = b := by
  exact ⟨_, _, _, rfl, rfl, _, rfl, rfl⟩

theorem sample_linked :
    Linked Sodium.tagged (sampleAdopted 1) ⟨sampleServer, sampleCert 1, "a".toList⟩ :=
  ⟨sample_paired, rfl⟩

/-- The server refuses a question for an IPv6 address, and the client throws. -/
theorem exchange_refused : ∃ sent r' b,
    sampleLinked.fold Sodium.tagged (sampleIo []) (sampleTyped 28) = .ok sent ∧
    sampleCresponder.process sampleEnv ⟨.udp, .of_query sent.query⟩ = .ok (r', .responded b) ∧
    ¬ (network_upstream.on_receive (fun m => .ok m) Sodium.tagged sampleLinked .udp (sampleIo b)
      sent.clear).returns := by
  obtain ⟨sent, r', b, hfold, hprocess, a, hreceive, ha⟩ := sample_refused
  refine ⟨sent, r', b, hfold, hprocess, ?_⟩
  obtain ⟨q', key, hq', -, hreply⟩ := @exchange sampleEnv Sodium.tagged_lawful Sodium.tagged_seals
    sampleLinked (sampleAdopted 1) ⟨sampleServer, sampleCert 1, "a".toList⟩ rfl sample_linked
    (sampleIo []) (sampleTyped 28) sent (by decide) (by decide) hfold sampleCresponder rfl
    sent.query rfl .udp
  refine (hreply r' _ hprocess a ha Message (fun m => .ok m) (sampleIo b) .udp rfl hreceive).2 ?_
  -- the question is refused on the way
  intro hconfined
  have hagree := Query.agree_of_wire hq'
  have hdns : q'.is_dns = true := by
    rw [Query.is_dns_congr hagree (by rw [hagree.1]; decide)]
    decide
  have hquestion : q'.get_question = .ok ("a.".toList, 1, 28) := by
    rw [Query.get_question_congr hagree (by rw [hagree.1]; decide)]
    rfl
  obtain ⟨owner, class_, type, hq, hway, -⟩ := hconfined hdns
  obtain ⟨rfl, -, rfl⟩ := Query.get_question_unique hquestion hq
  have hrefused : sampleCresponder.route_of sampleEnv "a.".toList 28 = .refused := by rfl
  rw [hrefused] at hway
  exact absurd hway (by simp)

end Cdns
