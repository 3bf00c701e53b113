/-
Requests to providers: `network::upstream` (`network/srcz/upstream.cpp`) and the two
classes that override its `pass_answer_downstream`, `_upstream_incoming_`
(`dns/srcz/responder.cpp`), which passes the answer on to a client, and `request`
(`dns/crypt/srcz/certifier.cpp`), which looks for certificates in it.

The event loop calls `on_send` while a request waits to be sent and `on_receive`
while it waits for an answer, and the timer closes it. What the socket answers
during a call is in `Io`. Closing a socket and asking it for its error succeed here.

Both callbacks handle `net_error` and nothing else. In the source the handlers
enclose `fold`, `unfold` and `pass_answer_downstream` as well. No `net_error` comes
from there (`callback_uncaught`, `on_send_uncaught`), so here they enclose the calls on
the socket.
-/
import Cdns.CertificateChoice
import Cdns.Responder

set_option autoImplicit false

namespace Cdns

open Lib.Storage

/-! ## The timer -/

/-- `timeout::timeout`. A `double` is a `Float`, and `std::to_string` of one is its `toString`. -/
def timeout.make (secs : Float) : Result Unit :=
  if 1e-6 > secs then
    .error (.logic_error ("Too low timeout: " ++ toString secs ++ " seconds"))
  else .ok ()

/-! ## The connection -/

/-- What `socket::is_connected` finds: it returns `true` or `false`, or it throws. -/
inductive link where
  | connected
  | in_progress
  | failed
  deriving Repr, DecidableEq

/-- What the system answers during one callback. -/
structure Io where
  link : Cdns.link
  /-- how the question is taken -/
  sent : send_answer
  /-- what a UDP socket has -/
  datagram : Option (List UInt8)
  /-- what a TCP socket has -/
  socket : tcp_socket
  /-- the padding that `encryptor::curve` draws -/
  rnd : ℕ → ℕ
  /-- the nonce that `encryptor::curve` draws -/
  session_nonce : nonce

/-- Only a TCP connection is asked whether it is connected. -/
def Io.link_over (io : Io) : proto → Cdns.link
  | .udp => .connected
  | .tcp => io.link

/-- `udp_connection::send` and `tcp_connection::send`. -/
def Io.send (io : Io) (p : proto) (msg : Query) : Result Unit :=
  match p with
  | .udp =>
      match io.sent.count msg.wire with
      | none => .error (.net_error s!"Failed send[UDP] {msg.size} bytes")
      | some n =>
          if n = 0 then .error (.net_error "Connection reset by peer? [UDP send]") else .ok ()
  | .tcp => tcp_send io.sent.count (packet.of_bytes msg.wire)

/-- `udp_connection::receive` and `tcp_connection::receive` into a query that was
set to size 0. -/
def Io.receive (io : Io) (p : proto) (msg : Query) : Result Query :=
  let message : packet := ⟨msg.bytes, max_size, 0, Nat.zero_le _⟩
  match p with
  | .udp => do
      let m ← udp_receive io.datagram message
      set_size m.bytes m.size
  | .tcp => do
      let (m, _) ← tcp_receive io.socket message
      set_size m.bytes m.size

/-! ## Encryption of questions and answers -/

/-- `provider::fold` and `resolver::fold`. -/
def provider.fold (S : Sodium) (p : provider) (io : Io) (q : Message) : Result Message :=
  match p.resolver with
  | none => .ok q
  | some r =>
      match q.cls with
      | .message _ => do
          let msg ← r.dnscrypt_client_.curve S io.rnd io.session_nonce q.query
          .ok ⟨.message io.session_nonce, msg⟩
      | _ => .error .bad_cast

/-- `provider::unfold` and `resolver::unfold`. -/
def provider.unfold (S : Sodium) (p : provider) (q : Message) : Result Message :=
  match p.resolver with
  | none => .ok q
  | some r =>
      match q.cls with
      | .message session_nonce => do
          let msg ← r.dnscrypt_client_.uncurve S session_nonce q.query
          .ok ⟨.message (Block.zero 12), msg⟩
      | _ => .error .bad_cast

/-! ## The callbacks -/

/-- `question_mod().set_size (0)`. -/
def Message.clear (m : Message) : Message :=
  { m with query := { m.query with size := 0, size_le := Nat.zero_le _ } }

/-- How a request stands after a callback: it goes on, or it is closed and something
may have been passed downstream. -/
inductive progress (α : Type) where
  | going (stage : Cdns.stage) (question : Message)
  | over (passed : Option α)

namespace network_upstream

variable {α : Type} (pass_answer_downstream : Message → Result α)

/-- `upstream::pass_failure_downstream`. The question may be encrypted here, then
it is hardly DNS. -/
def pass_failure_downstream (question : Message) : Result (progress α) :=
  if question.query.size > 0 ∧ question.query.is_dns = true then do
    let a ← pass_answer_downstream question.mark_servfail
    .ok (.over (some a))
  else .ok (.over none)

/-- `upstream::on_send`. A request with nothing to send just stops sending, and waits
for its timer. A question is not empty after `fold`, so the request is not set to
receive after a failure. -/
def on_send (S : Sodium) (provider_ptr : provider) (p : proto) (io : Io) (question : Message) :
    Result (progress α) :=
  match io.link_over p with
  | .in_progress => .ok (.going .sending question)
  | .failed => pass_failure_downstream pass_answer_downstream question
  | .connected =>
      if question.query.size > 0 then do
        let question ← provider_ptr.fold S io question
        match io.send p question.query with
        | .error (.net_error _) => pass_failure_downstream pass_answer_downstream question
        | .error e => .error e
        | .ok () => .ok (.going .receiving question.clear)
      else .ok (.going .stopped question)

/-- `upstream::on_receive`. -/
def on_receive (S : Sodium) (provider_ptr : provider) (p : proto) (io : Io) (question : Message) :
    Result (progress α) :=
  match io.link_over p with
  | .in_progress => .ok (.going .receiving question)
  | .failed => pass_failure_downstream pass_answer_downstream question
  | .connected =>
      match io.receive p question.query with
      | .error (.net_error _) => pass_failure_downstream pass_answer_downstream question.clear
      | .error e => .error e
      | .ok q => do
          let answer ← provider_ptr.unfold S { question with query := q }
          let a ← pass_answer_downstream answer
          .ok (.over (some a))

end network_upstream

/-! ## Requests on behalf of clients -/

/-- The answers that go into the cache. -/
def responder.store_answer (env : Env) (r : responder) (answer : Query) : Result responder :=
  if answer.rcode = pkt_rcode.noerror.code ∨ answer.rcode = pkt_rcode.nxdomain.code then
    r.store env answer
  -- failures are not stored in the cache
  else .ok r

/-- `_upstream_incoming_::pass_answer_downstream`: the bytes that are sent to the
client. The text of the answer is made before it is known whether it is logged. -/
def responder.pass_answer_downstream (env : Env) (r : responder) (inptr : incoming) (m : Message) :
    Result (responder × List UInt8) := do
  let _ ← m.query.short_info env.net env.stack
  let r ← r.store_answer env m.query
  let bytes ← r.respond env { inptr with message := m }
  .ok (r, bytes)

namespace upstream

/-- `on_send` of a request on behalf of a client. -/
def on_send (env : Env) (r : responder) (u : upstream) (io : Io) :
    Result (progress (responder × List UInt8)) :=
  network_upstream.on_send (r.pass_answer_downstream env u.client) env.S u.provider
    u.provider.net_proto io u.question

/-- `on_receive` of a request on behalf of a client. -/
def on_receive (env : Env) (r : responder) (u : upstream) (io : Io) :
    Result (progress (responder × List UInt8)) :=
  network_upstream.on_receive (r.pass_answer_downstream env u.client) env.S u.provider
    u.provider.net_proto io u.question

end upstream

/-- What the event loop does to a request: a callback, or the timer. -/
inductive event where
  | ready (io : Io)
  | timeout

/-- A moment in the life of a request. Other requests have changed the responder
since the last one, and the resolver may have adopted another certificate. -/
structure moment where
  env : Env
  responder : Cdns.responder
  renewed : Option Cdns.resolver
  event : Cdns.event

/-- The provider with what its resolver has become. -/
def provider.renew (p : provider) (renewed : Option Cdns.resolver) : provider :=
  { p with resolver := p.resolver.map fun r => renewed.getD r }

namespace upstream

/-- The callback whose watcher is active. -/
def callback (env : Env) (r : responder) (u : upstream) (io : Io) :
    Result (progress (responder × List UInt8)) :=
  match u.stage with
  | .sending => u.on_send env r io
  | .receiving => u.on_receive env r io
  | .stopped => .ok (.going .stopped u.question)
  | .closed => .ok (.over none)

/-- One moment: what becomes of the request, and what was passed downstream. -/
def step (u : upstream) (t : moment) : Result (upstream × Option (responder × List UInt8)) :=
  let u := { u with provider := u.provider.renew t.renewed }
  match t.event with
  | .timeout => .ok ({ u with stage := .closed }, none)
  | .ready io => do
      let next ← u.callback t.env t.responder io
      match next with
      | .going s q => .ok ({ u with stage := s, question := q }, none)
      | .over passed => .ok ({ u with stage := .closed }, passed)

/-- The replies to the client over a whole life, up to an exception that nothing
catches. -/
def replies (u : upstream) : List moment → List (List UInt8)
  | [] => []
  | t :: ts =>
      match u.step t with
      | .error _ => []
      | .ok (u', passed) => (passed.map Prod.snd).toList ++ replies u' ts

end upstream

/-! ## Requests for certificates -/

/-- `dns::crypt::certifier`. A resolver is constructed with ephemeral keys. -/
structure certifier where
  address : Cdns.address
  net_proto : proto
  tcp_only : proto
  resolver : Cdns.resolver
  ephemeral : resolver.dnscrypt_client_.ephemeral_keys = true
  query_retry_step : ℕ
  /-- the seconds the timer was set to -/
  timer : ℕ

namespace certifier

/-- `certifier::reschedule_query`. -/
def reschedule_query (pending : Bool) (c : certifier) (query_retry_delay : ℕ) : certifier :=
  if pending then c else { c with timer := query_retry_delay }

/-- `certifier::reschedule_query_after_failure`, with `retry::min_delay`, `max_delay`
and `steps`. -/
def reschedule_query_after_failure (pending : Bool) (c : certifier) : certifier :=
  if pending then c
  else
    let query_retry_delay := 17 + c.query_retry_step * (300 - 17) / 100
    let c := if c.query_retry_step < 100 then { c with query_retry_step := c.query_retry_step + 1 }
      else c
    c.reschedule_query pending query_retry_delay

/-- `certifier::reschedule_query_after_success`; `jitter` is drawn below
`retry::delay_after_success_jitter`. -/
def reschedule_query_after_success (pending : Bool) (jitter : ℕ) (c : certifier) : certifier :=
  if pending then c else c.reschedule_query pending (60 * 60 + jitter % 100)

/-- `certifier::process_response`. The name and type of the question are printed
whatever the level of the log is. -/
def process_response (S : Sodium) (now : ℕ) (pending : Bool) (jitter : ℕ) (c : certifier)
    (q : Query) : Result certifier := do
  let _ ← q.host_type_info
  let txt_data ← q.get_txt_answer
  match h : c.resolver.find_valid_certificate S now txt_data with
  | .error e => .error e
  | .ok (found, r) =>
      let c := { c with
        resolver := r
        ephemeral := resolver.find_valid_certificate_ephemeral h c.ephemeral }
      .ok (if found then
          reschedule_query_after_success pending jitter { c with query_retry_step := 0 }
        else c.reschedule_query_after_failure pending)

/-- The provider a certificate is asked for: a copy that neither encrypts nor
decrypts. -/
def provider_copy (c : certifier) : provider := ⟨c.address, c.net_proto, none⟩

/-- `on_send` of a `request`, with what it passes a failure on to. That resets `upstream_`, which
destroys the request. Behind the handler around `send` the request looks at its question all the
same; behind the handler around the test of the connection it does not. -/
def on_send {α : Type} (pass : Message → Result α) (S : Sodium) (c : certifier) (io : Io)
    (question : Message) : Result (progress α) :=
  match network_upstream.on_send pass S c.provider_copy c.tcp_only io question with
  | .ok (.over (some a)) =>
      if io.link_over c.tcp_only = .connected then .error .overrun else .ok (.over (some a))
  | next => next

/-- `on_receive` of a `request`. -/
def on_receive (S : Sodium) (now : ℕ) (pending : Bool) (jitter : ℕ) (c : certifier) (io : Io)
    (question : Message) : Result (progress certifier) :=
  network_upstream.on_receive (fun m => c.process_response S now pending jitter m.query) S
    c.provider_copy c.tcp_only io question

end certifier

end Cdns
