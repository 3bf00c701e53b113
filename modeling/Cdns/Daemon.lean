/-
The daemon: `dns::daemon` (`dns/srcz/daemon.cpp`) and `dns::crypt::cdaemon`
(`dns/crypt/srcz/daemon.cpp`), with the listeners (`network/srcz/listener.cpp`) and the clients'
requests (`network/srcz/incoming.cpp`).

Everything happens in one thread, in callbacks of the event loop. A callback runs to its end
before the next one, and an exception that leaves it ends the daemon. So the daemon is a machine
whose events are the callbacks, and what the system answers during a callback is part of the
event. Any event may come at any time; one for an object that is gone, or whose watcher is
stopped, does nothing.

A client's request is an object that the listener and the request to a provider both point to.
`peers` are all of these objects, in the order in which they were made, and a pointer is a
number. The objects that nothing points to any more have been destroyed, and with them their
watchers. The message of a request is not kept here: nothing looks at it between the callbacks.

The resolver of a DNSCrypt provider belongs to its certifier, and the requests that are under way
point to it. A task therefore remembers the certifier, and follows what that does to its resolver
for as long as it is in the table.
-/
import Cdns.CacheFile
import Cdns.Certifier
import Cdns.Config
import Cdns.Lib.Machine
import Cdns.Requests

set_option autoImplicit false

namespace Cdns

open Lib.Keyed

/-! ## Objects -/

/-- A client's request. -/
structure peer where
  proto : Cdns.proto
  address : Cdns.address
  /-- its timer runs -/
  active : Bool
  /-- it waits for its message -/
  receiving : Bool
  /-- closing the request stops that as well -/
  timed : receiving = true → active = true

namespace peer

/-- `udp::in::in`: the message comes with the request. -/
def udp_in (address : Cdns.address) : peer :=
  ⟨.udp, address, true, false, fun h => absurd h Bool.false_ne_true⟩

/-- `tcp::in::in`. -/
def tcp_in (address : Cdns.address) : peer := ⟨.tcp, address, true, true, fun _ => rfl⟩

/-- `receive_event_.stop ()`; the timer of the request goes on. -/
def stop_receiving (p : peer) : peer :=
  { p with receiving := false, timed := fun h => absurd h Bool.false_ne_true }

/-- `incoming::close` and `tcp::in::close`. -/
def close (p : peer) : peer := { p.stop_receiving with active := false, timed := fun h => h }

end peer

/-- An entry of `dnscrypt_providers_`. An entry that comes back after it was erased is another
one: it is made by a later `load`. -/
structure slot where
  ip_port : Str
  generation : ℕ
  state : certifier_state

/-- `certifier::provider_ptr`. -/
def slot.provider (s : slot) : provider :=
  ⟨s.state.certifier.address, s.state.certifier.net_proto, some s.state.certifier.resolver⟩

/-- What `load` looks at. -/
def slot.entry (s : slot) : provider_entry := ⟨s.ip_port, s.state.hostname, s.state.certifier⟩

/-- A request to a provider, the client's request it is for, and the certifier of the provider. -/
structure task where
  upstream : Cdns.upstream
  peer : ℕ
  certifier : Option (Str × ℕ)

/-- `timeout::is_active`: the timer of a request runs until the request is closed. -/
def task.is_active (t : task) : Bool :=
  match t.upstream.stage with
  | .closed => false
  | _ => true

/-- `dns::daemon` with its options, its responder and its two listeners. The responder was
constructed with the `timeout` of the options. -/
structure daemon where
  options : responder_parameters
  dnscrypt_resolvers_file : Str
  responder : Cdns.responder
  /-- `dnscrypt_providers_`, and how often it was loaded -/
  certifiers : KeyedSet slot.ip_port
  generation : ℕ
  peers : List peer
  /-- `requests_` of the UDP listener, and of the TCP listener -/
  udp_requests : List (Option ℕ)
  tcp_requests : List (Option ℕ)
  upstream_requests : List (Option task)
  udp_count : ℕ
  tcp_count : ℕ

/-- What is seen of the daemon from outside. -/
inductive daemon_output where
  /-- a whole message came from a client -/
  | received (peer : ℕ) (message : Query)
  /-- the bytes that were handed to `respond` of a client's request -/
  | replied (peer : ℕ) (bytes : List UInt8)

namespace daemon

/-- The responder, with what the certifiers have made of the providers by now. -/
def current (d : daemon) : Cdns.responder :=
  { d.responder with
    crypt := d.responder.crypt.map fun c =>
      { c with dnscrypt_providers := d.certifiers.elems.map fun s => (s.ip_port, s.provider) } }

/-- `incoming::is_closed`. -/
def is_closed (d : daemon) (i : ℕ) : Bool := d.peers[i]?.all fun p => !p.active

/-- `incoming::close`. -/
def close (d : daemon) (i : ℕ) : daemon := { d with peers := d.peers.modify i peer.close }

/-! ## Processing -/

/-- Whether `process` gets as far as `collect_garbage`: it finds a provider to ask. -/
def asks (env : Env) (r : Cdns.responder) (req : incoming) : Bool :=
  match r.process { env with created := none } req with
  | .ok (_, .forwarded _) => true
  | _ => false

/-- `upstream_requests_` after `process` has collected garbage, or has not. -/
def collect (env : Env) (d : daemon) (req : incoming) : List (Option task) :=
  if asks env d.current req then responder.collect_garbage task.is_active d.upstream_requests
  else d.upstream_requests

/-- The certifier that the resolver of a provider belongs to: `select_random_provider` drew it from
those whose resolvers are ready. -/
def certifier_of (env : Env) (d : daemon) (p : provider) : Option (Str × ℕ) :=
  if p.resolver.isSome then
    let ready :=
      (d.certifiers.elems.filter fun s => s.state.certifier.resolver.ready_).map slot.ip_port
    (ready[responder.random_index env ready.length]?.bind d.certifiers.lookup).map
      fun s => (s.ip_port, s.generation)
  else none

/-- `responder::process` and `cresponder::process` on the message of a client. -/
def process (env : Env) (d : daemon) (i : ℕ) (p : proto) (q : Query) :
    Result (daemon × List daemon_output) := do
  let req : incoming := ⟨p, .of_query q⟩
  let (r, out) ← d.current.process env req
  let reqs := d.collect env req
  let d' := { d with responder := r, upstream_requests := reqs }
  match out with
  | .dropped => .ok (d'.close i, [.received i q])
  | .responded bytes => .ok (d'.close i, [.received i q, .replied i bytes])
  | .forwarded u =>
      .ok ({ d' with upstream_requests := reqs ++ [some ⟨u, i, d.certifier_of env u.provider⟩] },
        [.received i q])

/-! ## Listeners -/

/-- `responder::new_packet`, into which a message is received. -/
def new_packet : packet := ⟨fun _ => 0, max_size, 0, Nat.zero_le _⟩

/-- `abs_listener::create_response`. -/
def create_response (env : Env) (d : daemon) (requests : List (Option ℕ)) (i : ℕ) (p : proto)
    (q : Query) : Result (daemon × List daemon_output) :=
  if some i ∈ requests then d.process env i p q
  else .error (.logic_error "Creating response for non-queued incoming request")

/-- `udplistener::make_incoming`, up to the response: the request is queued. -/
def make_udp_incoming (d : daemon) (address : Cdns.address) : daemon :=
  { d with
    udp_count := d.udp_count + 1
    peers := d.peers ++ [peer.udp_in address]
    udp_requests := abs_listener.on_message_clean_up d.is_closed d.udp_requests
      ++ [some d.peers.length] }

/-- `tcplistener::make_incoming`. -/
def make_tcp_incoming (d : daemon) (address : Cdns.address) : daemon :=
  { d with
    tcp_count := d.tcp_count + 1
    peers := d.peers ++ [peer.tcp_in address]
    tcp_requests := abs_listener.on_message_clean_up d.is_closed d.tcp_requests
      ++ [some d.peers.length] }

/-- `abs_listener::on_message` of the UDP listener. The timer of the request is constructed before
anything is received. Nothing catches what that throws, nor a failure to receive the datagram, and
an empty one is a failure. -/
def on_datagram (env : Env) (d : daemon) (datagram : Option (List UInt8))
    (address : Cdns.address) : Result (daemon × List daemon_output) := do
  let () ← timeout.make d.options.timeout
  let m ← udp_receive datagram new_packet
  let q ← set_size m.bytes m.size
  (d.make_udp_incoming address).create_response env (d.make_udp_incoming address).udp_requests
    d.peers.length .udp q

/-- `abs_listener::on_message` of the TCP listener. Nothing catches what the timer of the request
throws, nor a failure to accept the connection. -/
def on_connection (d : daemon) (accepted : Option Cdns.address) :
    Result (daemon × List daemon_output) := do
  let () ← timeout.make d.options.timeout
  match accepted with
  | none => .error (.net_error "Failed to accept[TCP]")
  | some address => .ok (d.make_tcp_incoming address, [])

/-- `receive_event_.stop ()` of a client's request. -/
def stop_receiving (d : daemon) (i : ℕ) : daemon :=
  { d with peers := d.peers.modify i peer.stop_receiving }

/-- `tcp::in::on_receive`. The handler of `net_error` encloses `create_response` as well, from
where no `net_error` comes (`process_uncaught`). -/
def on_request (env : Env) (d : daemon) (i : ℕ) (socket : tcp_socket) :
    Result (daemon × List daemon_output) :=
  if d.peers[i]?.any peer.receiving ∧ some i ∈ d.tcp_requests then
    match tcp_receive socket new_packet with
    | .error (.net_error _) => .ok (d.close i, [])
    | .error e => .error e
    | .ok (m, _) => do
        let q ← set_size m.bytes m.size
        (d.stop_receiving i).create_response env d.tcp_requests i .tcp q
  else .ok (d, [])

/-! ## Requests to providers -/

/-- A callback or the timer of a request to a provider. It was constructed with the time-out of
the client's request, which was not too low for that. -/
def on_upstream (env : Env) (d : daemon) (j : ℕ) (event : Cdns.event) :
    Result (daemon × List daemon_output) :=
  match d.upstream_requests[j]? with
  | some (some t) => do
      let (u, passed) ← t.upstream.step ⟨env, d.current, none, event⟩
      let d := { d with
        upstream_requests := d.upstream_requests.set j (some { t with upstream := u }) }
      match passed with
      | none => .ok (d, [])
      | some (r, bytes) => .ok ({ d with responder := r }.close t.peer, [.replied t.peer bytes])
  | _ => .ok (d, [])

/-! ## Certifiers -/

/-- The requests under way see what has become of the resolver of a certifier. -/
def renew (s : slot) (t : task) : task :=
  if t.certifier = some (s.ip_port, s.generation) then
    { t with upstream := { t.upstream with
      provider := t.upstream.provider.renew (some s.state.certifier.resolver) } }
  else t

/-- The constructor of a request for a certificate begins with that of its timer. -/
def timed_attempt (secs : Float) (a : attempt) : attempt :=
  match timeout.make secs with
  | .error e => { a with thrown := some e }
  | .ok () => a

/-- An event of a certifier whose requests have `timeout_seconds_`. -/
def timed (secs : Float) : certifier_event → certifier_event
  | .start a => .start (timed_attempt secs a)
  | .retry_timer a => .retry_timer (timed_attempt secs a)
  | e => e

/-- An event of the certifier of a provider, which `load` gave the time-out of the options. -/
def on_certifier (d : daemon) (k : Str) (e : certifier_event) :
    Result (daemon × List daemon_output) :=
  match d.certifiers.lookup k with
  | none => .ok (d, [])
  | some s => do
      let state ← s.state.step (timed d.options.timeout e)
      .ok ({ d with
        certifiers := d.certifiers.modify k (fun s => { s with state := state }) fun _ => rfl
        upstream_requests := d.upstream_requests.map
          (Option.map (renew { s with state := state })) }, [])

/-! ## Reloading -/

/-- The table as `load` sees it. -/
def table (certifiers : KeyedSet slot.ip_port) : provider_table :=
  ⟨certifiers.elems.map slot.entry, by
    rw [List.map_map]
    exact certifiers.nodup⟩

/-- The entry of the table after `load`: one that was there, or a new certifier. -/
def slot_of (certifiers : KeyedSet slot.ip_port) (generation : ℕ) (e : provider_entry) : slot :=
  (certifiers.lookup e.ip_port).getD
    ⟨e.ip_port, generation, ⟨e.certifier, e.hostname, true, none, 0, []⟩⟩

theorem slot_of_ip_port (certifiers : KeyedSet slot.ip_port) (generation : ℕ)
    (e : provider_entry) : (slot_of certifiers generation e).ip_port = e.ip_port := by
  unfold slot_of
  cases h : certifiers.lookup e.ip_port with
  | none => rfl
  | some s => exact (KeyedSet.lookup_eq_some.mp h).2

/-- `cresponder::load`, on the certifiers with their timers and requests. -/
def load_certifiers (args : cresponder.LoadArgs) (parsed : Result (List listed_resolver))
    (generation : ℕ) (certifiers : KeyedSet slot.ip_port) : Result (KeyedSet slot.ip_port) := do
  let (providers, loaded) := cresponder.load args (table certifiers) parsed
  let () ← loaded
  .ok ⟨providers.elems.map (slot_of certifiers generation), by
    rw [List.map_map]
    simp only [Function.comp_def, slot_of_ip_port]
    exact providers.nodup⟩

/-- What a `reload` finds: the files, what the library functions make of them, and what the new
resolvers draw. -/
structure Reading where
  disk : Disk
  lib : Listing
  draw : listed_resolver → Seed

/-- `cresponder::reload`, and `responder::reload` without a DNSCrypt part. -/
def reload (x : Reading) (d : daemon) : Result daemon :=
  match d.responder.reload x.disk d.options with
  | (_, some e) => .error e
  | (r, none) =>
      if r.crypt.isSome then do
        let certifiers ← load_certifiers
          ⟨x.lib.net, d.options.noipv6, d.options.net_proto, x.draw⟩
          (parse_resolvers_list x.lib d.dnscrypt_resolvers_file
            (x.disk.files d.dnscrypt_resolvers_file) d.options.net_proto)
          (d.generation + 1) d.certifiers
        .ok { d with responder := r, certifiers := certifiers, generation := d.generation + 1 }
      else .ok { d with responder := r }

/-- `random_callback`: the providers and the cache are saved, each in a file of the cache
directory. Nothing catches a failure to write one. -/
def on_random_timer (d : daemon) (providers_saved cache_saved : Bool) :
    Result (daemon × List daemon_output) :=
  if d.responder.crypt.isNone ∨ d.responder.cache_dir = [] then .ok (d, [])
  else if providers_saved = false then
    .error (.runtime_error ("Failed saving resolvers into: "
      ++ String.ofList d.responder.cache_dir ++ "/ready_dnscrypt_providers.csv"))
  else if cache_saved = false then
    .error (.runtime_error ("Failed to save DNS cache into: "
      ++ String.ofList d.responder.cache_dir ++ "/dnscache.bin"))
  else .ok (d, [])

end daemon

/-! ## Events -/

/-- The callbacks of the event loop. -/
inductive daemon_event where
  /-- the UDP listener has a datagram -/
  | datagram (env : Env) (data : Option (List UInt8)) (address : Cdns.address)
  /-- the TCP listener has a connection -/
  | connection (accepted : Option Cdns.address)
  /-- the connection of a client has data -/
  | request (env : Env) (i : ℕ) (socket : tcp_socket)
  /-- the timer of a client's request -/
  | client_timeout (i : ℕ)
  /-- a callback or the timer of a request to a provider -/
  | upstream (env : Env) (j : ℕ) (event : Cdns.event)
  /-- an event of a certifier -/
  | certifier (k : Str) (event : certifier_event)
  /-- `SIGHUP` -/
  | reload (reading : daemon.Reading)
  /-- the timer of the responder -/
  | random_timer (providers_saved cache_saved : Bool)

/-- What the system answers during the callback, where the callback asks for it. -/
def daemon_event.env : daemon_event → Option Env
  | .datagram env _ _ => some env
  | .request env _ _ => some env
  | .upstream env _ _ => some env
  | _ => none

namespace daemon

/-- One callback. -/
def step (d : daemon) : daemon_event → Result (daemon × List daemon_output)
  | .datagram env data address => d.on_datagram env data address
  | .connection accepted => d.on_connection accepted
  | .request env i socket => d.on_request env i socket
  | .client_timeout i => .ok (d.close i, [])
  | .upstream env j event => d.on_upstream env j event
  | .certifier k event => d.on_certifier k event
  | .reload reading => do
      let d ← d.reload reading
      .ok (d, [])
  | .random_timer providers_saved cache_saved => d.on_random_timer providers_saved cache_saved

/-- The daemon and what was seen of it, after some events. -/
def run (d : daemon) (es : List daemon_event) : Result (daemon × List daemon_output) :=
  Lib.Machine.run step d es

/-- The daemon before its first event: nothing has been asked of it. -/
structure Fresh (d : daemon) : Prop where
  peers : d.peers = []
  udp_requests : d.udp_requests = []
  tcp_requests : d.tcp_requests = []
  upstream_requests : d.upstream_requests = []

end daemon

end Cdns
