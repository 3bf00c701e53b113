/-
How a daemon is made: the constructors of `dns::responder` (`dns/srcz/responder.cpp`) and of
`cresponder` (`dns/crypt/srcz/cresponder.cpp`), and those of the daemons (`dns/srcz/daemon.cpp`,
`dns/crypt/srcz/daemon.cpp`), behind the options.

A responder starts with the cache that the last one has left in a file, if it can be read, and
reads its other files as in a `reload`. A DNSCrypt daemon loads its keys and its certificate from
files, when it is a server, and makes a certifier for each resolver in its list. Whatever the files
hold, a daemon that is made satisfies what the results about runs start from (`Made.started`), and
every entry of its cache fits into a file again (`initial_cache_fits`).
-/
import Cdns.Trust

set_option autoImplicit false

namespace Cdns

open Lib.Keyed Lib.Endian Lib.Storage

/-! ## Parameters -/

/-- `dns::responder_parameters`, all that a constructor looks at. -/
structure start_parameters extends responder_parameters where
  cachedir : Str
  min_ttl : ℕ

/-- `dns::crypt::options` behind those. -/
structure crypt_parameters where
  dnscrypt_resolvers_file : Str
  server_pubkey_file : Str
  server_secretkey_file : Str
  server_certificate_file : Str
  server_hostname : Str

/-- What a start finds: what a `reload` finds, the binary files, the memory that is not cleared, and
the time. -/
structure Startup where
  reading : daemon.Reading
  binaries : Str → Option (List UInt8)
  stack : List UInt8
  tnow : ℤ
  S : Sodium

/-- The time as certificates have it. -/
def Startup.now_u32 (x : Startup) : ℕ := (x.tnow % 2 ^ 32).toNat

/-! ## Keys and certificates -/

/-- `key <32>::load_binary_file`. A file that cannot be opened gives no bytes. -/
def Block.load_binary_file (x : Startup) (file_name : Str) : Result (Block 32) :=
  let bytes := (x.binaries file_name).getD []
  if min 32 bytes.length ≠ 32 then
    .error (.runtime_error ("invalid encryption in key in: " ++ String.ofList file_name))
  else .ok (Block.ofList 32 (bytes.take 32))

/-- `certificate::load_binary_file`. -/
def certificate.load_binary_file (x : Startup) (file_name : Str) (provider_pubkey : pubkey) :
    Result certificate :=
  let failed := .error (.invalid_certificate
    ("Failed to load certificate from binary file: " ++ String.ofList file_name))
  match x.binaries file_name with
  | none => failed
  | some bytes =>
      if 8 < min 1024 bytes.length then
        certificate.make x.S x.now_u32 provider_pubkey (bytes.take 1024)
      else failed

/-- `server::responder::responder`. -/
def server_responder.make (n : Str) (pk : pubkey) (sk : secretkey)
    (bc : Cdns.certificate) : server_responder :=
  ⟨.of_keys pk sk, bc, n⟩

/-! ## Responders -/

namespace responder

/-- The name of the file of the cache. -/
def cache_file (cachedir : Str) : Str := cachedir ++ "/dnscache.bin".toList

/-- The cache that a responder starts with. -/
def initial_cache (x : Startup) (params : start_parameters) : Result Cache :=
  if params.cachedir ≠ [] then
    let fn := cache_file params.cachedir
    match Cache.load (String.ofList fn) x.stack (x.binaries fn) params.min_ttl with
    | .ok cache => .ok (cache.collect_garbage x.tnow)
    | .error e => if e.is_runtime_error then .ok (Cache.empty params.min_ttl) else .error e
  else .ok (Cache.empty params.min_ttl)

/-- A responder before it reads its files. -/
def blank (params : start_parameters) (cache : Cache) : responder where
  whitelist := Filter.empty
  blacklist := Filter.empty
  cache := cache
  hosts := []
  dns_providers := []
  onion_provider := none
  cache_dir := params.cachedir
  noipv6 := params.noipv6
  processed_count := 0
  blacklisted_count := 0
  cached_count := 0
  crypt := none

/-- `responder::responder (params)`. -/
def make (x : Startup) (params : start_parameters) : Result responder := do
  let cache ← initial_cache x params
  match (blank params cache).reload x.reading.disk params.toresponder_parameters with
  | (r, none) => .ok r
  | (_, some e) => .error e

end responder

/-! ## Daemons -/

namespace daemon

/-- A daemon with a responder and listeners, before the event loop runs. -/
def setup (params : start_parameters) (dnscrypt_resolvers_file : Str) (r : Cdns.responder)
    (certifiers : KeyedSet slot.ip_port) : daemon where
  options := params.toresponder_parameters
  dnscrypt_resolvers_file := dnscrypt_resolvers_file
  responder := r
  certifiers := certifiers
  generation := 0
  peers := []
  udp_requests := []
  tcp_requests := []
  upstream_requests := []
  udp_count := 0
  tcp_count := 0

/-- `daemon::daemon` and `set_options`, without a DNSCrypt part. -/
def make (x : Startup) (params : start_parameters) : Result daemon := do
  let r ← responder.make x params
  .ok (setup params [] r KeyedSet.empty)

/-- The server of `cdaemon::cdaemon`, when there is a file for its key. -/
def server_of (x : Startup) (crypt : crypt_parameters) : Result (Option server_responder) :=
  if crypt.server_pubkey_file = [] then .ok none
  else do
    let pk ← Block.load_binary_file x crypt.server_pubkey_file
    let sk ← Block.load_binary_file x crypt.server_secretkey_file
    let bc ← certificate.load_binary_file x crypt.server_certificate_file pk
    .ok (some (server_responder.make crypt.server_hostname pk sk bc))

/-- `cdaemon::cdaemon`, with the constructor of `cresponder`. -/
def make_crypt (x : Startup) (params : start_parameters) (crypt : crypt_parameters) :
    Result daemon := do
  let srv ← server_of x crypt
  let r ← responder.make x params
  let certifiers ← load_certifiers
    ⟨x.reading.lib.net, params.noipv6, params.net_proto, x.reading.draw⟩
    (parse_resolvers_list x.reading.lib crypt.dnscrypt_resolvers_file
      (x.reading.disk.files crypt.dnscrypt_resolvers_file) params.net_proto)
    0 KeyedSet.empty
  .ok (setup params crypt.dnscrypt_resolvers_file { r with crypt := some ⟨[], srv⟩ } certifiers)

end daemon

/-! ## Entries of a file

Whatever bytes are in the file, an entry that is read from it fits into a file, and what is thrown
is a `runtime_error`. -/

/-- Nothing but a `runtime_error` is thrown. -/
def Result.throws_runtime {α : Type} (r : Result α) : Prop :=
  ∀ x, r = .error x → x.is_runtime_error = true

section Throws

variable {α β : Type}

theorem Result.throws_runtime_ok (a : α) : Result.throws_runtime (.ok a) := by
  intro x hx
  exact absurd hx (by simp)

theorem Result.throws_runtime_error {x : Exn} (h : x.is_runtime_error = true) :
    Result.throws_runtime (.error x : Result α) := by
  intro y hy
  rw [← Except.error.inj hy]
  exact h

theorem Result.throws_runtime_bind {r : Result α} {f : α → Result β} (hr : r.throws_runtime)
    (hf : ∀ a, r = .ok a → (f a).throws_runtime) : Result.throws_runtime (r >>= f) := by
  cases r with
  | error x =>
      rw [Result.error_bind]
      exact Result.throws_runtime_error (hr x rfl)
  | ok a =>
      rw [Result.ok_bind]
      exact hf a rfl

end Throws

namespace Cache

open Result (throws_runtime throws_runtime_ok throws_runtime_error throws_runtime_bind)

/-- Reading takes as many bytes as were asked for. -/
theorem crd_length {n : ℕ} {ifile ifile' : Option (List UInt8)} {l : List UInt8}
    (h : crd n ifile = .ok (l, ifile')) : l.length = n := by
  unfold crd at h
  split at h
  · exact absurd h (by simp)
  · next rest =>
    split_ifs at h with hshort
    obtain ⟨rfl, -⟩ := Prod.mk.inj (Except.ok.inj h)
    rw [List.length_take]
    omega

theorem value_lt (l : List UInt8) : value l < 256 ^ l.length := by
  induction l with
  | nil => simp [value]
  | cons b l ih =>
      have hb := b.toNat_lt
      rw [value, List.length_cons, Nat.pow_succ]
      omega

theorem signed64_range {n : ℕ} (h : n < 2 ^ 64) : -2 ^ 63 ≤ signed64 n ∧ signed64 n < 2 ^ 63 := by
  unfold signed64
  split_ifs with hn
  · omega
  · omega

/-- **An entry of a file fits into a file.** -/
theorem read_entry_fits {filename : String} {stack : List UInt8}
    {ifile ifile' : Option (List UInt8)} {e : cache_entry}
    (h : read_entry filename stack ifile = .ok (some (e, ifile'))) : Fits e := by
  unfold read_entry at h
  dsimp only at h
  split_ifs at h with hend hkey
  · exact absurd (Except.ok.inj h) (by simp)
  obtain ⟨⟨l, s₁⟩, h₁, h⟩ := Result.bind_eq_ok.mp h
  dsimp only at h
  split_ifs at h with hlen
  obtain ⟨p, htail, h⟩ := Result.bind_eq_ok.mp h
  obtain rfl : p = (e, ifile') := Option.some.inj (Except.ok.inj h)
  rw [read_entry_tail] at htail
  obtain ⟨⟨name, s₂⟩, h₂, htail⟩ := Result.bind_eq_ok.mp htail
  obtain ⟨⟨qtype, s₃⟩, h₃, htail⟩ := Result.bind_eq_ok.mp htail
  obtain ⟨⟨deadline, s₄⟩, h₄, htail⟩ := Result.bind_eq_ok.mp htail
  dsimp only at h₂ h₃ h₄ htail
  split_ifs at htail with hdns
  obtain ⟨⟨response, s₅⟩, hresp, htail⟩ := Result.bind_eq_ok.mp htail
  obtain ⟨rfl, -⟩ := Prod.mk.inj (Except.ok.inj htail)
  rw [read_response] at hresp
  obtain ⟨⟨l', s₆⟩, h₆, hresp⟩ := Result.bind_eq_ok.mp hresp
  dsimp only at hresp
  split_ifs at hresp with hsize
  -- the lengths that were asked for, and the numbers that they can hold
  have hname := crd_length h₂
  have htype := value_lt qtype
  rw [crd_length h₃] at htype
  have hdeadline := value_lt deadline
  rw [crd_length h₄] at hdeadline
  have hrange := signed64_range hdeadline
  have hresponse := crd_length hresp
  refine ⟨?_, ?_, htype, hrange.1, hrange.2, ?_, ?_⟩
  · show (name.map Query.char_of).length ≤ 300
    rw [List.length_map]
    omega
  · intro ch hch
    obtain ⟨b, -, rfl⟩ := List.mem_map.mp hch
    rw [Query.char_of_toNat]
    exact b.toNat_lt
  · show 12 ≤ response.length
    omega
  · show response.length ≤ max_size
    omega

theorem crd_throws (n : ℕ) (ifile : Option (List UInt8)) : throws_runtime (crd n ifile) := by
  unfold crd
  split
  · exact throws_runtime_error rfl
  · split_ifs
    · exact throws_runtime_error rfl
    · exact throws_runtime_ok _

theorem read_entry_throws (filename : String) (stack : List UInt8) (ifile : Option (List UInt8)) :
    throws_runtime (read_entry filename stack ifile) := by
  unfold read_entry
  dsimp only
  split_ifs
  · exact throws_runtime_ok _
  · exact throws_runtime_error rfl
  · refine throws_runtime_bind (crd_throws _ _) ?_
    intro p _
    split_ifs
    · exact throws_runtime_error rfl
    · refine throws_runtime_bind ?_ fun _ _ => throws_runtime_ok _
      unfold read_entry_tail
      refine throws_runtime_bind (crd_throws _ _) fun p₁ _ => ?_
      refine throws_runtime_bind (crd_throws _ _) fun p₂ _ => ?_
      refine throws_runtime_bind (crd_throws _ _) fun p₃ _ => ?_
      dsimp only
      split_ifs
      · exact throws_runtime_error rfl
      · refine throws_runtime_bind ?_ fun _ _ => throws_runtime_ok _
        unfold read_response
        refine throws_runtime_bind (crd_throws _ _) fun p₄ _ => ?_
        dsimp only
        split_ifs
        · exact throws_runtime_error rfl
        · exact crd_throws _ _

/-- **What loading can do**: it reads entries that fit, or it throws a `runtime_error`. -/
structure Loads (r : Result Cache) : Prop where
  throws : throws_runtime r
  fits : ∀ c, r = .ok c → ∀ e ∈ c.entries.elems, Fits e

theorem Loads.of_error {x : Exn} (h : x.is_runtime_error = true) : Loads (.error x) := by
  refine ⟨throws_runtime_error h, ?_⟩
  intro c hc
  exact absurd hc (by simp)

theorem Loads.of_ok {c : Cache} (h : ∀ e ∈ c.entries.elems, Fits e) : Loads (.ok c) := by
  refine ⟨throws_runtime_ok _, ?_⟩
  intro c' hc'
  rw [← Except.ok.inj hc']
  exact h

theorem Loads.of_bind {α : Type} {r : Result α} {f : α → Result Cache} (hr : throws_runtime r)
    (hf : ∀ a, r = .ok a → Loads (f a)) : Loads (r >>= f) := by
  refine ⟨throws_runtime_bind hr fun a ha => (hf a ha).throws, ?_⟩
  intro c hc
  obtain ⟨a, ha, hc⟩ := Result.bind_eq_ok.mp hc
  exact (hf a ha).fits c hc

/-- The loop of `load`, by induction over the turns: there are more of them than bytes left. -/
theorem load_loop_loads {filename : String} {stack : List UInt8} {nq : ℕ} (fuel : ℕ) :
    ∀ {n : ℕ} {result : Cache} {ifile : Option (List UInt8)}, left ifile < fuel →
      (∀ e ∈ result.entries.elems, Fits e) →
      Loads (load_loop filename stack nq fuel n result ifile) := by
  induction fuel with
  | zero =>
      intro n result ifile h
      omega
  | succ fuel ih =>
      intro n result ifile h hfits
      rw [load_loop]
      refine .of_bind (read_entry_throws _ _ _) ?_
      intro p hread
      cases p with
      | none => exact .of_ok hfits
      | some p =>
          obtain ⟨entry, rest⟩ := p
          have hlt := read_entry_left hread
          dsimp only
          split_ifs
          · exact .of_error rfl
          · refine ih (by omega) ?_
            intro e he
            rcases KeyedSet.mem_insert he with he | rfl
            · exact hfits e he
            · exact read_entry_fits hread

theorem load_entries_loads {filename : String} {stack : List UInt8} {fuel minttl : ℕ}
    {ifile : Option (List UInt8)} (h : left ifile < fuel) :
    Loads (load_entries filename stack fuel minttl ifile) := by
  unfold load_entries
  refine .of_bind (crd_throws _ _) ?_
  rintro ⟨nq, rest⟩ hnq
  have hleft := crd_left hnq
  have hloop : Loads (load_loop filename stack (value nq) fuel 0 (empty minttl) rest) := by
    refine load_loop_loads fuel (by omega) ?_
    intro e he
    exact absurd he List.not_mem_nil
  refine .of_bind hloop.throws ?_
  intro result hresult
  split_ifs
  · exact .of_error rfl
  · exact .of_ok (hloop.fits result hresult)

/-- **Whatever is in the file.** -/
theorem load_loads (filename : String) (stack : List UInt8) (file : Option (List UInt8))
    (minttl : ℕ) : Loads (load filename stack file minttl) := by
  unfold load
  split
  · exact .of_error rfl
  · next contents =>
    -- no read gives bytes back
    have hmgck := (crd4_left stack (some contents)).1
    have hlen : left (some contents) = contents.length := rfl
    dsimp only
    split_ifs
    · exact .of_error rfl
    · refine .of_bind (crd_throws _ _) ?_
      rintro ⟨m, rest⟩ hm
      have hmagick := crd_left hm
      have hsize := (crd4_left stack rest).1
      dsimp only
      split_ifs
      · exact .of_error rfl
      · exact .of_error rfl
      · exact load_entries_loads (by omega)

end Cache

/-! ## The daemons that are made -/

namespace responder

variable {x : Startup} {params : start_parameters} {r : responder}

/-- **The entries of the first cache** fit into a file. -/
theorem initial_cache_fits {cache : Cache} (h : initial_cache x params = .ok cache) :
    ∀ e ∈ cache.entries.elems, Cache.Fits e := by
  have hempty : ∀ e ∈ (Cache.empty params.min_ttl).entries.elems, Cache.Fits e := by
    intro e he
    exact absurd he List.not_mem_nil
  unfold initial_cache at h
  split_ifs at h
  · dsimp only at h
    split at h
    · next c hc =>
      rw [← Except.ok.inj h]
      intro e he
      exact (Cache.load_loads _ _ _ _).fits c hc e (List.mem_of_mem_filter he)
    · split_ifs at h
      rw [← Except.ok.inj h]
      exact hempty
  · rw [← Except.ok.inj h]
    exact hempty

/-- A responder that is made has its first cache, and no resolver in its files. -/
theorem make_cases (h : make x params = .ok r) : r.Plain ∧ r.crypt = none ∧
    initial_cache x params = .ok r.cache ∧ r.cache_dir = params.cachedir := by
  obtain ⟨cache, hcache, h⟩ := Result.bind_eq_ok.mp h
  split at h
  · next r' hreload =>
    obtain rfl := Except.ok.inj h
    obtain ⟨hc, hcrypt, hdir, -⟩ := daemon.reload_keeps hreload
    refine ⟨reload_plain ⟨?_, ?_⟩ hreload, hcrypt, ?_, hdir⟩
    · intro p hp
      exact absurd hp List.not_mem_nil
    · intro p hp
      exact absurd hp (by simp [blank])
    · rw [hc]
      exact hcache
  · exact absurd h (by simp)

end responder

namespace daemon

variable {x : Startup} {params : start_parameters} {crypt : crypt_parameters} {d : daemon}

/-- A daemon that is made, of either kind. -/
def Made (x : Startup) (params : start_parameters) (d : daemon) : Prop :=
  make x params = .ok d ∨ ∃ crypt, make_crypt x params crypt = .ok d

/-- **A daemon that is made satisfies what the results about runs start from**: no request is known
to it, its files have no resolvers, and its certifiers are new. -/
theorem Made.started (h : Made x params d) : d.Started := by
  rcases h with h | ⟨crypt, h⟩
  · obtain ⟨r, hr, h⟩ := Result.bind_eq_ok.mp h
    obtain rfl := Except.ok.inj h
    obtain ⟨hplain, -⟩ := responder.make_cases hr
    refine ⟨⟨rfl, rfl, rfl, rfl⟩, hplain, ?_⟩
    intro s hs
    exact absurd hs List.not_mem_nil
  · obtain ⟨srv, -, h⟩ := Result.bind_eq_ok.mp h
    obtain ⟨r, hr, h⟩ := Result.bind_eq_ok.mp h
    obtain ⟨certifiers, hcertifiers, h⟩ := Result.bind_eq_ok.mp h
    obtain rfl := Except.ok.inj h
    obtain ⟨hplain, -⟩ := responder.make_cases hr
    refine ⟨⟨rfl, rfl, rfl, rfl⟩, ⟨hplain.dns_providers, hplain.onion⟩, ?_⟩
    intro s hs
    -- no certifier was there before
    have hlookup : certifiers.lookup s.ip_port = some s := KeyedSet.lookup_eq_some.mpr ⟨hs, rfl⟩
    rcases load_certifiers_cases hcertifiers hlookup with hold | ⟨hgen, hnone, hready, -⟩
    · exact absurd hold (by simp [KeyedSet.lookup, KeyedSet.empty])
    · exact ⟨hready, hnone, hgen.le⟩

/-- Its cache is the first one of its responder. -/
theorem Made.cache (h : Made x params d) :
    responder.initial_cache x params = .ok d.responder.cache ∧
      d.responder.cache_dir = params.cachedir := by
  rcases h with h | ⟨crypt, h⟩
  · obtain ⟨r, hr, h⟩ := Result.bind_eq_ok.mp h
    obtain rfl := Except.ok.inj h
    exact (responder.make_cases hr).2.2
  · obtain ⟨srv, -, h⟩ := Result.bind_eq_ok.mp h
    obtain ⟨r, hr, h⟩ := Result.bind_eq_ok.mp h
    obtain ⟨certifiers, -, h⟩ := Result.bind_eq_ok.mp h
    obtain rfl := Except.ok.inj h
    exact (responder.make_cases hr).2.2

end daemon

end Cdns
