/-
How a client comes to the certificate of a server.

A certifier asks for the texts of the name of the provider, in plain text. A server that has this
name knows the question by its name, type and class, and answers with the certificate as it is
signed. The client finds the text in the answer, checks the signature and adopts the certificate.

The three programs that take part, the builder of the question, the server and the parser of the
answer, are followed through `Query.Built`, which says of a message what it asks and what its
answers are, in whatever storage it lies. After three callbacks the resolver is ready and linked to
the server (`handshake`).
-/
import Cdns.Exchange

set_option autoImplicit false

namespace Cdns

open Lib.Storage

namespace Query

/-! ## Built messages -/

/-- A built message on the wire is a built message in any storage. -/
theorem Built.of_wire {q q' : Query} {id typ : ℕ} {name : Str} {calls : List Call}
    (h : Built q id name typ calls) (hsize : 12 ≤ q.size) (hwire : q'.wire = q.wire) :
    Built q' id name typ calls := by
  obtain ⟨r, off, rs, hr, howner, htype, hclass, hrs, hcontent⟩ := h.walk
  have hagree := (agree_of_wire hwire).symm
  have hoff := (get_rr_question_bounds hr).1
  refine ⟨?_, r, off, rs, ?_, howner, htype, hclass, ?_, hcontent⟩
  · rw [← header_congr hagree hsize]
    exact h.header
  · rw [← get_rr_question_congr (hagree.mono (Nat.zero_le _))]
    exact hr
  · rw [← hagree.1, ← hrs]
    apply Eq.symm
    apply collect_congr
    · intro o _
      exact get_rr_congr (hagree.mono (Nat.zero_le _))
    · intro o r o' ho
      have := get_rr_bounds ho
      omega

section Parts

variable {q : Query} {id typ : ℕ} {name : Str} {calls : List Call}

theorem Built.qdcount (h : Built q id name typ calls) : q.header.qdcount = 1 := by
  rw [h.header]
  rfl

/-- A built message asks what it was made to ask. -/
theorem Built.get_question (h : Built q id name typ calls) :
    q.get_question = .ok (name, rr_class.internet.code, typ) := by
  obtain ⟨r, off, rs, hr, howner, htype, hclass, -, -⟩ := h.walk
  rw [get_question_of_rr_question h.qdcount hr, howner, htype, hclass]

/-- And its texts are those that were given. -/
theorem Built.get_txt_answer (h : Built q id name typ calls)
    (htxt : ∀ c ∈ calls, c.typ = rr_type.txt.code → c.text.isSome = true) :
    q.get_txt_answer = .ok (calls.filterMap Call.text) := by
  obtain ⟨r, off, rs, hr, -, -, -, hrs, hcontent⟩ := h.walk
  have hcount : q.header.ancount = calls.length := by
    rw [h.header]
    rfl
  rw [← hcount] at hrs
  rw [Query.get_txt_answer, find_txt_answers_eq h.qdcount hr hrs, Result.ok_bind,
    txt_data_of_calls hcontent htxt]

theorem Built.host_type_info (h : Built q id name typ calls) : q.host_type_info.returns := by
  obtain ⟨r, off, rs, hr, -⟩ := h.walk
  exact (host_type_info_returns q).mpr ⟨_, questions_of_rr_question h.qdcount hr⟩

/-- The header of a built message is that of a DNS message. -/
theorem Built.is_dns (h : Built q id name typ calls) : q.is_dns = true := by
  obtain ⟨r, off, rs, hr, -⟩ := h.walk
  obtain ⟨hlow, hhigh⟩ := get_rr_question_bounds hr
  have hqd : (q.bytes 4).toNat * 256 + (q.bytes 5).toNat = 1 := h.qdcount
  have har : (q.bytes 10).toNat * 256 + (q.bytes 11).toNat = 0 := by
    have := congrArg message_header.arcount h.header
    exact this
  have h₄ : q.bytes 4 = 0 := UInt8.toNat_inj.mp (by rw [UInt8.toNat_zero]; omega)
  have h₅ : q.bytes 5 = 1 := UInt8.toNat_inj.mp (by rw [UInt8.toNat_one]; omega)
  have h₁₀ : q.bytes 10 = 0 := UInt8.toNat_inj.mp (by rw [UInt8.toNat_zero]; omega)
  have h₁₁ : q.bytes 11 = 0 := UInt8.toNat_inj.mp (by rw [UInt8.toNat_zero]; omega)
  rw [Query.is_dns, h₄, h₅, h₁₀, h₁₁, decide_eq_false (by omega : ¬ q.size < 15)]
  rfl

end Parts

/-- However a name is given, it is compared with a final dot. -/
theorem HostName.with_dot (name : HostName) (dot : Bool) :
    (if (name.given dot).getLast? ≠ some '.' then name.given dot ++ ['.'] else name.given dot) =
      name.text ++ ['.'] := by
  cases dot with
  | true =>
      have hlast : (name.given true).getLast? = some '.' := List.getLast?_concat
      rw [if_neg (by rw [hlast]; simp)]
      rfl
  | false =>
      obtain ⟨ls, l, hl, hne⟩ := name.exists_concat
      have hdot : '.' ∉ l := (name.isLabel l (by rw [hl]; simp)).no_dot
      have htext : name.given false = dotted ls ++ l := by
        rw [← intercalate_concat, ← hl]
        rfl
      have hlast : (name.given false).getLast? ≠ some '.' := by
        intro hlast
        rw [htext, List.getLast?_append_of_ne_nil _ hne] at hlast
        exact hdot (List.mem_of_getLast? hlast)
      rw [if_pos hlast]
      rfl

theorem HostName.given_ne_nil (name : HostName) (dot : Bool) : name.given dot ≠ [] := by
  intro h
  have hdot := name.with_dot dot
  rw [h] at hdot
  obtain ⟨ls, l, hl, hne⟩ := name.exists_concat
  have hnil : name.text = [] := by
    have hlen := congrArg List.length hdot
    rw [List.length_append, List.length_singleton] at hlen
    exact List.eq_nil_of_length_eq_zero (by simpa using hlen.symm)
  have hconcat : name.text = dotted ls ++ l := by
    rw [← intercalate_concat, ← hl]
    rfl
  exact hne (List.append_eq_nil_iff.mp (hconcat.symm.trans hnil)).2

/-- **A server knows the request for its certificate.** -/
theorem is_dnscrypt_certificate_request_built {q : Query} {id : ℕ} {name : HostName}
    {calls : List Call} (dot : Bool)
    (h : Built q id (name.text ++ ['.']) rr_type.txt.code calls) :
    q.is_dnscrypt_certificate_request (name.given dot) = .ok true := by
  obtain ⟨r, off, rs, hr, howner, htype, hclass, -⟩ := h.walk
  have hr' : q.get_rr_question message_header.wire_size = .ok (r, off) := hr
  unfold is_dnscrypt_certificate_request
  rw [if_neg (name.given_ne_nil dot), if_neg (by rw [h.qdcount]; simp)]
  dsimp only
  rw [name.with_dot dot, hr', Result.ok_bind]
  dsimp only
  rw [howner, htype, hclass]
  simp

end Query

/-! ## The server -/

/-- The call that answers a request for the certificate. -/
def server_responder.call (s : server_responder) : Query.Call :=
  .set_txt_answer s.certificate.raw_signed 10

/-- The certificate of the server is not mistaken for a message, and fits into a text. -/
structure server_responder.Presentable (s : server_responder) : Prop where
  /-- the magic is not the start of a message with one question -/
  magic : be16 (ofList s.certificate.magic_query.bytes) 4 ≠ 1
  short : s.certificate.raw_signed.length ≤ 255
  nonempty : 1 ≤ s.certificate.raw_signed.length

namespace server_responder

variable {s : server_responder}

theorem Presentable.call_valid (hs : s.Presentable) : s.call.Valid := by
  have htype : rr_type.txt.code < 65536 := by decide
  have httl : -2147483648 ≤ (10 : ℤ) ∧ (10 : ℤ) < 2147483648 := by decide
  refine ⟨htype, httl.1, httl.2, ?_⟩
  intro t ht
  rw [← Option.some.inj ht]
  exact ⟨hs.nonempty, hs.short⟩

/-- A message with one question does not have the magic of the server. -/
theorem Presentable.not_dnscrypt (hs : s.Presentable) {q : Query} (hq : q.header.qdcount = 1) :
    s.certificate.is_dnscrypt_message q = false := by
  unfold certificate.is_dnscrypt_message
  split_ifs
  · rfl
  · rw [beq_eq_false_iff_ne]
    intro heq
    apply hs.magic
    rw [← heq, ← hq]
    have hbyte : ∀ i, i < 8 → ofList (slice q.bytes 0 8) i = q.bytes i := by
      intro i hi
      have := slice_getD q.bytes 0 8 hi 0
      rwa [Nat.zero_add] at this
    exact be16_congr (hbyte 4 (by omega)) (hbyte 5 (by omega))

end server_responder

/-- **The server answers with its certificate.** -/
theorem responder.process_certificate_request {env : Env} {r : responder} {s : server_responder}
    {p : proto} {q : Query} {id : ℕ} {name : Query.HostName} {dot : Bool}
    (hserver : r.crypt.bind crypt_part.server = some s) (hs : s.Presentable)
    (hname : s.hostname = name.given dot) (hsends : Sends env p)
    (hq : q.Built id (name.text ++ ['.']) rr_type.txt.code [])
    (hfit : q.size + s.call.size ≤ max_size) :
    ∃ answer : Query, r.process env ⟨p, .of_query q⟩ = .ok (r, .responded answer.wire) ∧
      answer.Built id (name.text ++ ['.']) rr_type.txt.code [s.call] ∧
      answer.size = q.size + s.call.size := by
  have hrequest : q.is_dnscrypt_certificate_request s.hostname = .ok true := by
    rw [hname]
    exact Query.is_dnscrypt_certificate_request_built dot hq
  obtain ⟨answer, hanswer, hbuilt, hsize⟩ := Query.Call.run_built hq hs.call_valid hfit
  have hset : q.set_txt_answer s.certificate.raw_signed 10 = .ok answer := hanswer
  obtain ⟨x, hx⟩ := (respond_returns env p (.of_query q) answer).mpr hsends
  refine ⟨answer, ?_, hbuilt, hsize⟩
  rw [process, hserver]
  dsimp only [Message.of_query]
  rw [if_neg (by rw [hs.not_dnscrypt hq.qdcount]; simp), if_pos hq.is_dns, hrequest, Result.ok_bind,
    if_pos rfl, certify]
  dsimp only
  rw [hq.get_question, Result.ok_bind, hset, Result.ok_bind]
  dsimp only [Message.of_query] at hx
  rw [hx, Result.ok_bind]

/-! ## The client -/

namespace certifier

variable {S : Sodium} {now : ℕ} {c : certifier} {s : server_responder}

/-- **The client adopts the certificate in the answer.** -/
theorem process_response_adopts (pending : Bool) (jitter : ℕ) {q : Query} {id : ℕ} {name : Str}
    (hq : q.Built id name rr_type.txt.code [s.call])
    (hmake : certificate.make S now c.resolver.pubkey_ s.certificate.raw_signed =
      .ok s.certificate) :
    ∃ c', c.process_response S now pending jitter q = .ok c' ∧
      c'.resolver = c.resolver.adopt s.certificate := by
  obtain ⟨text, htext⟩ := hq.host_type_info
  have htxt : q.get_txt_answer = .ok [s.certificate.raw_signed] := by
    apply hq.get_txt_answer
    intro call hcall _
    rw [List.mem_singleton.mp hcall]
    rfl
  have hfind : c.resolver.find_valid_certificate S now [s.certificate.raw_signed] =
      .ok (true, c.resolver.adopt s.certificate) := by
    have hvalid : resolver.valid S now c.resolver.pubkey_ [s.certificate.raw_signed] =
        [s.certificate] := by
      rw [resolver.valid, List.filterMap_cons, hmake]
      rfl
    rcases resolver.find_valid_certificate_cases S now c.ephemeral [s.certificate.raw_signed] with
      ⟨hnone, -⟩ | ⟨cert, hcert, h⟩
    · rw [hvalid] at hnone
      exact absurd hnone (by simp)
    · rw [hvalid] at hcert
      rw [h, List.mem_singleton.mp hcert.mem]
  unfold process_response
  rw [htext, Result.ok_bind, htxt, Result.ok_bind]
  split
  · next e he =>
    rw [hfind] at he
    exact absurd he (by simp)
  · next found R hR =>
    obtain ⟨rfl, rfl⟩ := Prod.mk.inj (Except.ok.inj (hfind.symm.trans hR))
    refine ⟨_, rfl, ?_⟩
    rw [if_pos rfl, reschedule_query_after_success_resolver]

end certifier

namespace certifier_state

variable {s : certifier_state} {S : Sodium} {now : ℕ} {question : Query}

/-- `start` makes a request for the texts of the name of the provider. -/
theorem step_start {a : attempt} (hidle : s.alive = false) (hfew : s.attempts_ ≤ 4)
    (hmade : a.thrown = none) (hquestion : Query.of_hostname (Str.c_str s.hostname)
      rr_type.txt.code (1 + a.rand % 65500) = .ok question) :
    s.step (.start a) = .ok { s with
      upstream_ := some ⟨.sending, .of_query question⟩
      attempts_ := s.attempts_ + 1 } := by
  have hupdate : s.update a = ({ s with
      upstream_ := some ⟨.sending, .of_query question⟩
      attempts_ := s.attempts_ + 1 }, .ok ()) := by
    unfold update
    rw [if_neg (by rw [hidle]; simp), if_neg (by omega), hquestion]
    dsimp only
    rw [hmade]
  show s.start a = _
  unfold start
  rw [hupdate]

/-- The question is sent. -/
theorem step_sends {m : Message} (pending : Bool) (jitter : ℕ) {io : Io}
    (hreq : s.upstream_ = some ⟨.sending, m⟩) (hsize : 0 < m.query.size)
    (hconnected : io.link_over s.certifier.tcp_only = .connected)
    (hsent : io.send s.certifier.tcp_only m.query = .ok ()) :
    s.step (.ready S now pending jitter io) =
      .ok { s with upstream_ := some ⟨.receiving, m.clear⟩ } := by
  have hsend : network_upstream.on_send
      (fun m => s.certifier.process_response S now pending jitter m.query) S
      s.certifier.provider_copy s.certifier.tcp_only io m = .ok (.going .receiving m.clear) := by
    unfold network_upstream.on_send
    rw [hconnected]
    dsimp only
    rw [if_pos hsize, fold_copy, Result.ok_bind, hsent]
  have hcallback : s.callback (fun m => s.certifier.process_response S now pending jitter m.query) S
      io ⟨.sending, m⟩ = .ok (.going .receiving m.clear) := by
    unfold callback
    dsimp only
    unfold certifier.on_send
    rw [hsend]
  have hactive : (⟨.sending, m⟩ : request).is_active = true := rfl
  show s.on_ready S now pending jitter io = _
  unfold on_ready
  rw [hreq]
  dsimp only
  rw [if_pos hactive, hcallback, Result.ok_bind]

/-- The answer is processed. -/
theorem step_receives {m : Message} {pending : Bool} {jitter : ℕ} {io : Io} {packet : Query}
    {c : Cdns.certifier} (hreq : s.upstream_ = some ⟨.receiving, m⟩)
    (hconnected : io.link_over s.certifier.tcp_only = .connected)
    (hreceive : io.receive s.certifier.tcp_only m.query = .ok packet)
    (hprocess : s.certifier.process_response S now pending jitter packet = .ok c) :
    s.step (.ready S now pending jitter io) =
      .ok { s with certifier := c, upstream_ := none, ended := c.resolver.ready_ :: s.ended } := by
  have hcallback : s.callback (fun m => s.certifier.process_response S now pending jitter m.query) S
      io ⟨.receiving, m⟩ = .ok (.over (some c)) := by
    have hunfold : s.certifier.provider_copy.unfold S { m with query := packet } =
        .ok { m with query := packet } := rfl
    unfold callback
    dsimp only
    unfold network_upstream.on_receive
    rw [hconnected]
    dsimp only
    rw [hreceive]
    dsimp only
    rw [hunfold, Result.ok_bind, hprocess, Result.ok_bind]
  have hactive : (⟨.receiving, m⟩ : request).is_active = true := rfl
  show s.on_ready S now pending jitter io = _
  unfold on_ready
  rw [hreq]
  dsimp only
  rw [if_pos hactive, hcallback, Result.ok_bind]

end certifier_state

/-! ## The handshake -/

/-- The question of a certifier, with the name of its provider. -/
theorem Query.certificate_request_built (name : Query.HostName) (dot : Bool) (rand : ℕ) :
    ∃ q, Query.of_hostname (Str.c_str (name.given dot)) rr_type.txt.code (1 + rand % 65500) = .ok q ∧
      q.Built (1 + rand % 65500) (name.text ++ ['.']) rr_type.txt.code [] ∧
      q.size = 18 + name.text.length := by
  have e₁ : max_host_name_length = 256 := rfl
  have hlen : name.text.length ≤ 255 := name.length_le
  have hlabels := name.labels_given dot
  -- there is no zero byte in a host name
  have hnul : '\x00' ∉ name.given dot := by
    intro hnul
    have hmem : '\x00' ∈ name.text ++ ['.'] := by
      unfold HostName.given at hnul
      split_ifs at hnul
      · exact hnul
      · exact List.mem_append_left _ hnul
    rcases HostName.mem_text hmem with h | h
    · exact absurd h (by decide)
    · exact absurd h (by decide)
  rw [Str.c_str_of_no_nul hnul]
  obtain ⟨q, hq⟩ := name.of_hostname_returns dot rr_type.txt.code (1 + rand % 65500)
  have hbuilt := of_hostname_built (by decide) (by omega) hq
    (fun l hl => by
      rw [hlabels] at hl
      exact List.length_pos_iff.mp (name.isLabel l hl).1)
    (by rw [hlabels, name.dotted_labels, List.length_append, List.length_singleton]; omega)
  have hsize := (of_hostname_wire hq).1
  rw [hlabels, name.dotted_labels] at hbuilt hsize
  rw [List.length_append, List.length_singleton] at hsize
  exact ⟨q, hq, hbuilt, by omega⟩

/-- **The handshake.** A certifier without a request, that has not given up, starts with the name of
a provider. The server of that name, in whatever storage it gets the question, answers with its
certificate. When the answer arrives, however it is stored, and the certificate is valid for the key
in the list, the resolver of the client is ready, and it is linked to the server. -/
theorem handshake {S : Sodium} {env : Env} {r : responder} {s : server_responder}
    {name : Query.HostName} {dot dot' : Bool} {pk : pubkey} {sk : secretkey}
    {client : certifier_state} {a : attempt}
    (hserver : r.crypt.bind crypt_part.server = some s) (hs : s.Presentable)
    (hname : s.hostname = name.given dot) (hkeys : s.decryptor = .of_keys pk sk)
    (hpublic : s.certificate.server_publickey = S.scalarmult_base sk)
    (hcipher : s.certificate.cipher = .xsalsa20poly1305) (hhost : client.hostname = name.given dot')
    (hidle : client.alive = false) (hfew : client.attempts_ ≤ 4) (hmade : a.thrown = none) :
    ∃ question, Query.of_hostname (Str.c_str client.hostname) rr_type.txt.code
        (1 + a.rand % 65500) = .ok question ∧
      ∀ (q : Query) (p : proto), q.wire = question.wire → Sends env p →
        ∃ answer : Query, r.process env ⟨p, .of_query q⟩ = .ok (r, .responded answer.wire) ∧
          ∀ (now₁ now : ℕ) (pending₁ pending : Bool) (jitter₁ jitter : ℕ) (io₁ io : Io)
            (packet : Query), io₁.link_over client.certifier.tcp_only = .connected →
            io₁.send client.certifier.tcp_only question = .ok () →
            io.link_over client.certifier.tcp_only = .connected →
            io.receive client.certifier.tcp_only (Message.of_query question).clear.query =
              .ok packet → packet.wire = answer.wire →
            certificate.make S now client.certifier.resolver.pubkey_ s.certificate.raw_signed =
              .ok s.certificate →
            ∃ client', client.run [.start a, .ready S now₁ pending₁ jitter₁ io₁,
                .ready S now pending jitter io] = .ok client' ∧
              client'.certifier.resolver.ready_ = true ∧
              Linked S client'.certifier.resolver s := by
  have e₁ : max_size = 55535 := rfl
  obtain ⟨question, hquestion, hbuilt, hsize⟩ :=
    Query.certificate_request_built name dot' a.rand
  have hlen : name.text.length ≤ 255 := name.length_le
  rw [← hhost] at hquestion
  refine ⟨question, hquestion, ?_⟩
  intro q p hwire hsends
  -- the server answers
  have hq := hbuilt.of_wire (by omega) hwire
  have hqsize := (Query.agree_of_wire hwire).1
  have hcall : s.call.size = 12 + (s.certificate.raw_signed.length + 1) := rfl
  have hshort := hs.short
  obtain ⟨answer, hprocess, hanswer, hasize⟩ := responder.process_certificate_request hserver hs
    hname hsends hq (by omega)
  refine ⟨answer, hprocess, ?_⟩
  intro now₁ now pending₁ pending jitter₁ jitter io₁ io packet hlink₁ hsent hlink hreceive hpacket
    hmake
  -- the client asks, sends, and adopts what it receives
  have hstart := certifier_state.step_start hidle hfew hmade hquestion
  obtain ⟨c', hc', hadopt⟩ := certifier.process_response_adopts pending jitter
    (hanswer.of_wire (by omega) hpacket) hmake
  have hsend := @certifier_state.step_sends { client with
      upstream_ := some ⟨.sending, .of_query question⟩
      attempts_ := client.attempts_ + 1 } S now₁ (.of_query question) pending₁ jitter₁ io₁ rfl
    (show 0 < question.size by omega) hlink₁ hsent
  have hadopted := @certifier_state.step_receives { client with
      upstream_ := some ⟨.receiving, (Message.of_query question).clear⟩
      attempts_ := client.attempts_ + 1 } S now (Message.of_query question).clear pending jitter io
    packet c' rfl hlink hreceive hc'
  refine ⟨{ client with
      certifier := c'
      upstream_ := none
      attempts_ := client.attempts_ + 1
      ended := c'.resolver.ready_ :: client.ended }, ?_, ?_, ?_⟩
  · unfold certifier_state.run
    rw [List.foldlM_cons, hstart, Result.ok_bind, List.foldlM_cons, hsend, Result.ok_bind,
      List.foldlM_cons, hadopted, Result.ok_bind]
    rfl
  · show c'.resolver.ready_ = true
    rw [hadopt]
    rfl
  · show Linked S c'.resolver s
    rw [hadopt]
    exact linked_of_adopt client.certifier.ephemeral hkeys hcipher hpublic

/-- The name of the server of `sampleCresponder`. -/
def sampleServerName : Query.HostName where
  labels := ["a".toList]
  labels_ne := by decide
  isLabel := by decide
  length_le := by decide

set_option maxRecDepth 4000 in
theorem sample_certificate_request : ∃ question b packet,
    Query.of_hostname (Str.c_str certifier_state.sampleFresh.hostname) rr_type.txt.code 1 =
      .ok question ∧ (sampleIo []).send .udp question = .ok () ∧
    sampleCresponder.process sampleEnv ⟨.udp, .of_query question⟩ =
      .ok (sampleCresponder, .responded b) ∧
    (sampleIo b).receive .udp (Message.of_query question).clear.query = .ok packet ∧
    packet.wire = b := by
  exact ⟨_, _, _, rfl, rfl, rfl, rfl, rfl⟩

/-- The client asks `sampleCresponder` for its certificate. -/
theorem handshake_sample : ∃ question b client',
    sampleCresponder.process sampleEnv ⟨.udp, .of_query question⟩ =
      .ok (sampleCresponder, .responded b) ∧
    certifier_state.sampleFresh.run [.start ⟨false, 0, none⟩,
      .ready Sodium.tagged 1 false 0 (sampleIo []),
      .ready Sodium.tagged 1 false 0 (sampleIo b)] = .ok client' ∧
    client'.certifier.resolver.ready_ = true ∧
    Linked Sodium.tagged client'.certifier.resolver ⟨sampleServer, sampleCert 1, "a".toList⟩ := by
  obtain ⟨question, b, packet, hquestion, hsent, hprocess, hreceive, hpacket⟩ :=
    sample_certificate_request
  obtain ⟨question', hquestion', hanswers⟩ := @handshake Sodium.tagged sampleEnv sampleCresponder
    ⟨sampleServer, sampleCert 1, "a".toList⟩ sampleServerName false false (Block.zero 32)
    (Block.zero 32) certifier_state.sampleFresh ⟨false, 0, none⟩ rfl
    ⟨by decide, by decide +kernel, by decide +kernel⟩ (by decide) rfl rfl rfl (by decide) rfl (by decide) rfl
  obtain rfl := Except.ok.inj (hquestion.symm.trans hquestion')
  obtain ⟨answer, hanswer, hrun⟩ := hanswers question .udp rfl (Or.inl rfl)
  have hb : b = answer.wire := by
    have h := (Prod.mk.inj (Except.ok.inj (hprocess.symm.trans hanswer))).2
    exact outcome.responded.inj h
  obtain ⟨client', hclient', hready, hlinked⟩ := hrun 1 1 false false 0 0 (sampleIo [])
    (sampleIo b) packet rfl hsent rfl hreceive (hpacket.trans hb) (sample_make (Or.inl rfl))
  exact ⟨question, b, client', hprocess, hclient', hready, hlinked⟩

end Cdns
