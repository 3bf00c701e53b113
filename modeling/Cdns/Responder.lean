/-
The responders: `dns::responder` (`dns/srcz/responder.cpp`) and
`dns::crypt::cresponder` (`dns/crypt/srcz/cresponder.cpp`), with the providers they
ask (`network/srcz/provider.cpp`, `dns/crypt/srcz/resolver.cpp`).

A message travels as a pointer to a `packet`, and what is done with it at the end
depends on the class of the object: a plain `query`, an `emessage` that carries the
session of an encrypted request, or a `message` that carries the nonce of an
encrypted question. `Message` is an object with its class. `clone` keeps the class,
`std::make_unique <query> (msg)` and `resolver::adapt_message` do not.

A responder with a part `crypt` is a `cresponder`, and the virtual functions look at
that part. Everything the functions ask the system for during one call is in `Env`.
-/
import Cdns.AnswerSpec
import Cdns.Cache
import Cdns.Certificate
import Cdns.Connection
import Cdns.Filter

set_option autoImplicit false

namespace Cdns

open Lib.Storage

/-! ## Messages -/

/-- The classes of messages. -/
inductive message_class where
  /-- `dns::query` -/
  | query
  /-- `dns::crypt::emessage`, with its session -/
  | emessage (key : pubkey) (client_nonce : nonce)
  /-- `dns::crypt::message`, with its session nonce -/
  | message (session_nonce : nonce)
  deriving DecidableEq

/-- A message object. -/
structure Message where
  cls : message_class
  query : Query

namespace Message

/-- `std::make_unique <query> (msg)`: a copy of the `query` part. -/
def of_query (q : Query) : Message := ⟨.query, q⟩

/-- `query::mark_servfail` on an object of any class. -/
def mark_servfail (m : Message) : Message := { m with query := m.query.mark_servfail }

end Message

/-! ## The system -/

/-- How the system takes a reply on a stream. -/
inductive send_answer where
  | failed
  | closed
  | part
  | whole
  deriving Repr, DecidableEq

/-- The number of bytes `tcp::send` returns. -/
def send_answer.count (a : send_answer) (bytes : List UInt8) : Option ℕ :=
  match a with
  | failed => none
  | closed => some 0
  | part => some (bytes.length - 1)
  | whole => some bytes.length

/-- What the system and the libraries answer during one call. -/
structure Env where
  S : Sodium
  net : Inet
  /-- the contents of uninitialised locals, see `address.of_bytes` -/
  stack : Buffer
  /-- `log::get_severity` -/
  severity : ℕ
  /-- `std::time` -/
  tnow : ℤ
  /-- `std::rand` -/
  rand : ℕ
  /-- the nonce that `server::encryptor::curve` draws -/
  server_nonce : nonce
  /-- how the reply is taken, when it goes over TCP -/
  reply : send_answer
  /-- whether the file of the cache can be written -/
  saved : Bool
  /-- what the connection to a provider cannot be created for -/
  created : Option Exn

/-- `log::severity::info`. -/
def severity_info : ℕ := 6

/-- `log::info (…, class, …)`: the class is printed, when anything is. -/
def log_class (env : Env) (class_ : ℕ) : Result Unit :=
  if severity_info ≤ env.severity then do
    let _ ← rr_class_cstr class_
    .ok ()
  else .ok ()

/-! ## Peers -/

/-- `network::incoming`: a request and the connection it came on. -/
structure incoming where
  proto : Cdns.proto
  message : Message

/-- `udp::in::respond` and `tcp::in::respond`. A `net_error` is logged. -/
def incoming.respond (env : Env) (req : incoming) (message : Query) : Result Unit :=
  match req.proto with
  | .udp => .ok ()
  | .tcp =>
      match tcp_send env.reply.count (packet.of_bytes message.wire) with
      | .error (.net_error _) => .ok ()
      | r => r

/-- `network::provider`; a `dns::crypt::resolver` has a part of its own. -/
structure provider where
  address : Cdns.address
  net_proto : proto
  resolver : Option Cdns.resolver

/-- `provider::adapt_message` and `resolver::adapt_message`. -/
def provider.adapt_message (p : provider) (other : Message) : Message :=
  match p.resolver with
  | none => other
  | some _ =>
      ⟨.message (Block.zero 12), Query.of_bytes other.query.wire (by
        rw [Query.wire_length]
        exact other.query.size_le)⟩

/-- The stages of an upstream request: which of its two watchers is active. -/
inductive stage where
  | sending
  | receiving
  /-- neither, but its timer runs -/
  | stopped
  | closed
  deriving Repr, DecidableEq

/-- `_upstream_incoming_`: a request to a provider on behalf of a client. -/
structure upstream where
  provider : Cdns.provider
  question : Message
  client : incoming
  stage : Cdns.stage

/-- `_upstream_incoming_::_upstream_incoming_`. -/
def upstream.create (p : Cdns.provider) (req : incoming) : upstream :=
  { provider := p, question := p.adapt_message req.message, client := req, stage := .sending }

/-! ## State -/

/-- `server::responder`. -/
structure server_responder where
  decryptor : server_encryptor_data
  certificate : Cdns.certificate
  hostname : Str

/-- What a `cresponder` adds to a responder. -/
structure crypt_part where
  dnscrypt_providers : List (Str × provider)
  server : Option server_responder

/-- `dns::responder`. -/
structure responder where
  whitelist : Filter
  blacklist : Filter
  cache : Cache
  hosts : List (Str × Str)
  dns_providers : List provider
  onion_provider : Option provider
  cache_dir : Str
  noipv6 : Bool
  processed_count : ℕ
  blacklisted_count : ℕ
  cached_count : ℕ
  crypt : Option crypt_part

/-- What becomes of a request. -/
inductive outcome where
  | dropped
  /-- the bytes handed to `incoming::respond` -/
  | responded (bytes : List UInt8)
  | forwarded (request : upstream)

/-- `filter::empty`. -/
def Filter.is_empty (f : Filter) : Bool :=
  f.suffix_.elems.isEmpty && f.prefix_.elems.isEmpty && f.substrings_.elems.isEmpty
    && f.exact_.elems.isEmpty

/-- `certificate::is_dnscrypt_message`. -/
def certificate.is_dnscrypt_message (c : certificate) (q : Query) : Bool :=
  if q.size ≤ detail.query_header_size + crypto_box_MACBYTES then false
  else slice q.bytes 0 8 == c.magic_query.bytes

namespace responder

/-! ## Filtering -/

/-- `hosts::response`. -/
def hosts_response (r : responder) (name : Str) : Str := (r.hosts.lookup name).getD []

/-- Whether the lists and the `noipv6` option let a question pass. The operands
are evaluated from the left, so the black list is not asked about a name that is
missing from the white list. -/
def passes (r : responder) (owner : Str) (type : ℕ) : Result Bool := do
  let white ← if r.whitelist.is_empty then .ok true else r.whitelist.match_ owner
  if white = false then .ok false
  else do
    let black ← r.blacklist.match_ owner
    .ok (!black && !(r.noipv6 && type == rr_type.aaaa.code))

/-- The results of `pre_filter`. -/
inductive action where
  /-- 0: ask upstream -/
  | ask
  /-- 1: respond directly -/
  | respond
  /-- 2: store and respond -/
  | store
  deriving Repr, DecidableEq

/-- `pre_filter` from the lookup in the cache on. -/
def pre_filter_passed (env : Env) (r : responder) (dns_query : Query) (owner : Str) :
    Result (action × Query × responder) := do
  let (cr, dns_query) ← r.cache.retrieve env.tnow dns_query
  if cr then .ok (.respond, dns_query, { r with cached_count := r.cached_count + 1 })
  else
    let ip := r.hosts_response owner
    if ip ≠ [] then do
      let dns_query ← dns_query.set_answer env.net ip
      .ok (.store, dns_query, r)
    else .ok (.ask, dns_query, r)

/-- `responder::pre_filter`. -/
def pre_filter (env : Env) (r : responder) (dns_query : Query) :
    Result (action × Query × responder) := do
  let (owner, class_, type) ← dns_query.get_question
  let owner := Query.drop_dot owner
  let pass ← r.passes owner type
  let _ ← log_class env class_
  if pass then r.pre_filter_passed env dns_query owner
  else
    .ok (.respond, dns_query.mark_refused, { r with blacklisted_count := r.blacklisted_count + 1 })

/-- `responder::store`. -/
def store (env : Env) (r : responder) (msg : Query) : Result responder := do
  let c ← r.cache.store env.tnow msg
  if r.cache_dir ≠ [] ∧ c.entries.elems.length % 16 = 0 ∧ env.saved = false then
    .error (.runtime_error ("Failed to save DNS cache into: " ++ String.ofList r.cache_dir
      ++ "/dnscache.bin"))
  else .ok { r with cache := c }

/-! ## Responding -/

/-- What a `cresponder` does to the message before it is sent. -/
def encrypt (env : Env) (r : responder) (m : Message) : Result Query :=
  match r.crypt.bind crypt_part.server, m.cls with
  | some s, .emessage key client_nonce =>
      s.decryptor.curve env.S env.server_nonce client_nonce key m.query
  | _, _ => .ok m.query

/-- `responder::respond` and `cresponder::respond`: the bytes that are sent. -/
def respond (env : Env) (r : responder) (req : incoming) : Result (List UInt8) := do
  let msg ← r.encrypt env req.message
  req.respond env msg
  .ok msg.wire

/-! ## Providers -/

/-- `RAND_MAX`. -/
def RAND_MAX : ℕ := 2147483647

/-- `std::rand() % mx`, where `mx` is the size as an `unsigned`, kept between 1 and
`RAND_MAX`. -/
def random_index (env : Env) (size : ℕ) : ℕ := env.rand % max 1 (min (size % 2 ^ 32) RAND_MAX)

/-- `responder::zone_provider`. -/
def zone_provider (r : responder) (dns_query : Query) : Result (Option provider) :=
  match r.onion_provider with
  | none => .ok none
  | some p => do
      let owner ← dns_query.hostname
      .ok (if owner.length > 6 ∧ owner.drop (owner.length - 6) = ".onion".toList then some p
        else none)

/-- `responder::random_provider` behind the zones. -/
def random_dns_provider (env : Env) (r : responder) : Result (Option provider) :=
  if r.dns_providers = [] then .ok none
  else
    match r.dns_providers[random_index env r.dns_providers.length]? with
    | none => .error (.logic_error "random DNS provider is not in the list")
    | some p => .ok (some p)

/-- `cresponder::select_random_provider` and the lookup after it. -/
def random_dnscrypt_provider (env : Env) (providers : List (Str × provider)) : Option provider :=
  let ready := (providers.filter fun p => p.2.resolver.any fun r => r.ready_).map Prod.fst
  match ready[random_index env ready.length]? with
  | none => none
  | some name => if name = [] then none else providers.lookup name

/-- `responder::random_provider` and `cresponder::random_provider`. -/
def random_provider (env : Env) (r : responder) (dns_query : Query) :
    Result (Option provider) := do
  let zone ← r.zone_provider dns_query
  match zone with
  | some p => .ok (some p)
  | none =>
      match r.crypt with
      | some c =>
          if c.dnscrypt_providers = [] then r.random_dns_provider env
          else .ok (random_dnscrypt_provider env c.dnscrypt_providers)
      | none => r.random_dns_provider env

/-! ## Processing -/

/-- Respond, and be done with the request. -/
def finish (env : Env) (r : responder) (req : incoming) : Result (responder × outcome) := do
  let bytes ← r.respond env req
  .ok (r, .responded bytes)

/-- The end of `process`: a request to a provider, or a failure. -/
def ask (env : Env) (r : responder) (req : incoming) : Result (responder × outcome) := do
  let prov ← r.random_provider env req.message.query
  let failed := { req with message := req.message.mark_servfail }
  match prov with
  | none => r.finish env failed
  | some p =>
      match env.created with
      | none => .ok (r, .forwarded (upstream.create p req))
      | some (.net_error _) => r.finish env failed
      | some e => .error e

/-- `responder::process`. -/
def process_dns (env : Env) (r : responder) (req : incoming) : Result (responder × outcome) :=
  let origmsg := req.message.query
  if origmsg.is_dns = false then .ok (r, .dropped)
  else do
    let r := { r with processed_count := r.processed_count + 1 }
    let (fr, fmsg, r) ← r.pre_filter env origmsg
    match fr with
    | .respond => r.finish env { req with message := .of_query fmsg }
    | .store => do
        let r ← r.store env fmsg
        r.finish env { req with message := .of_query fmsg }
    | .ask => r.ask env req

/-- The answer to a request for the certificate. -/
def certify (env : Env) (r : responder) (s : server_responder) (req : incoming) :
    Result (responder × outcome) := do
  let cert := req.message.query
  let _ ← cert.get_question
  let cert ← cert.set_txt_answer s.certificate.raw_signed 10
  req.respond env cert
  .ok (r, .responded cert.wire)

/-- `cresponder::process`, and `responder::process` without a server. -/
def process (env : Env) (r : responder) (req : incoming) : Result (responder × outcome) :=
  match r.crypt.bind crypt_part.server with
  | none => r.process_dns env req
  | some s =>
      let msg := req.message.query
      if s.certificate.is_dnscrypt_message msg then do
        let (q, key, client_nonce) ← s.decryptor.uncurve env.S msg
        r.process_dns env { req with message := ⟨.emessage key client_nonce, q⟩ }
      else if msg.is_dns then do
        let cert_request ← msg.is_dnscrypt_certificate_request s.hostname
        if cert_request then r.certify env s req else r.process_dns env req
      else r.process_dns env req

end responder

end Cdns
