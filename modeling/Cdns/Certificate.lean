/-
Certificates: `dns::crypt::certificate` (`dns/crypt/srcz/certificate.cpp`) and
how a client adopts one, `resolver::find_valid_certificate`
(`dns/crypt/srcz/certifier.cpp`).

The client takes the cipher from the major version of the certificate. The server
takes it from `es_version` of its key record, which its constructor sets to 0.0
whatever the certificate says. So the two agree on version 1 only
(`cipher_agreement_iff`).
-/
import Cdns.RoundTrip

set_option autoImplicit false

namespace Cdns

open Lib.Storage

/-! ## The certificate -/

/-- `dns::crypt::certificate`. The version is kept as its two pairs of bytes; the
times and the serial number are in host byte order. -/
structure certificate where
  major : ℕ × ℕ
  minor : ℕ × ℕ
  server_publickey : pubkey
  magic_query : Block 8
  serial : ℕ
  ts_begin : ℕ
  ts_end : ℕ
  raw_signed : List UInt8
  deriving DecidableEq

namespace certificate

/-- `detail::cert_parse_version` on the eight bytes of a `class version`. -/
def cert_parse_version (ver : Buffer) : Bool :=
  slice ver 0 4 = [0x44, 0x4e, 0x53, 0x43] && ver 4 = 0 && (ver 5 = 1 || ver 5 = 2)

/-- `invalid_certificate()`. -/
def invalid : Exn := .invalid_certificate "invalid certificate"

/-- `certificate::certificate (provider_pubkey, signed_certificate, size)`. The
text of the message about a wrong signature is reached only when the library
reports both a failure and a length, which it does not. -/
def make (S : Sodium) (now : ℕ) (provider_pubkey : pubkey) (signed_certificate : List UInt8) :
    Result certificate :=
  let b := ofList signed_certificate
  if 65000 < signed_certificate.length ∨ 8 > signed_certificate.length then .error invalid
  else if cert_parse_version b = false then .error invalid
  else
    match S.sign_open (signed_certificate.drop 8) provider_pubkey with
    | none => .error invalid
    | some data =>
        if data.length ≥ 52 then
          let d := ofList data
          let ts_begin := be32 d 44
          let ts_end := be32 d 48
          if ts_end ≤ ts_begin then
            .error (.invalid_certificate "This certificate has a bogus validity period")
          else if now < ts_begin then
            .error (.invalid_certificate "Certificate has not been activated yet")
          else if now > ts_end then .error (.invalid_certificate "Certificate has expired")
          else
            .ok { major := ((b 4).toNat, (b 5).toNat), minor := ((b 6).toNat, (b 7).toNat)
                  server_publickey := Block.ofList 32 (slice d 0 32)
                  magic_query := Block.ofList 8 (slice d 32 8)
                  serial := be32 d 40, ts_begin, ts_end, raw_signed := signed_certificate }
        else .error invalid

/-- `certificate::version`. -/
def version (c : certificate) : ℕ :=
  c.major.1 * 2 ^ 24 + c.major.2 * 2 ^ 16 + c.minor.1 * 2 ^ 8 + c.minor.2

/-- `certificate::is_preferred_over`. -/
def is_preferred_over (c previous : certificate) : Bool :=
  if previous.version > c.version then false
  else if previous.version < c.version then true
  else if previous.serial > c.serial then false
  else true

/-- `certificate::cipher`. -/
def cipher (c : certificate) : Cdns.cipher :=
  match c.major.2 with
  | 1 => .xsalsa20poly1305
  | 2 => .xchacha20poly1305
  | _ => .undefined

/-- The constructor accepts the major versions 1 and 2. -/
theorem major_of_make {S : Sodium} {now : ℕ} {pk : pubkey} {raw : List UInt8} {c : certificate}
    (h : make S now pk raw = .ok c) : c.major = (0, 1) ∨ c.major = (0, 2) := by
  rw [make] at h
  dsimp only at h
  split_ifs at h with h₁ h₂
  split at h
  · exact absurd h (by simp)
  · split_ifs at h
    rw [← Except.ok.inj h]
    simp only [cert_parse_version, Bool.not_eq_false, Bool.and_eq_true, Bool.or_eq_true,
      decide_eq_true_eq] at h₂
    obtain ⟨⟨-, h₄⟩, h₅⟩ := h₂
    rcases h₅ with h₅ | h₅ <;> rw [h₄, h₅]
    · exact Or.inl rfl
    · exact Or.inr rfl

end certificate

/-! ## Adopting a certificate -/

/-- `dns::crypt::resolver`, as far as certificates and encryption need it. -/
structure resolver where
  pubkey_ : pubkey
  resolver_pubkey_ : pubkey
  ready_ : Bool
  dnscrypt_magic_query_ : Block 8
  dnscrypt_client_ : encryptor_data

namespace resolver

/-- The loop of `find_valid_certificate`: the preferred one of the valid
certificates. Only `invalid_certificate` is caught. -/
def find_loop (S : Sodium) (now : ℕ) (public_key : pubkey) :
    Option certificate → List (List UInt8) → Result (Option certificate)
  | cert, [] => .ok cert
  | cert, t :: trv =>
      match certificate.make S now public_key t with
      | .ok ci =>
          match cert with
          | some c =>
              find_loop S now public_key (some (if ci.is_preferred_over c then ci else c)) trv
          | none => find_loop S now public_key (some ci) trv
      | .error (.invalid_certificate _) => find_loop S now public_key cert trv
      | .error e => .error e

/-- `resolver::find_valid_certificate`. -/
def find_valid_certificate (S : Sodium) (now : ℕ) (r : resolver) (trv : List (List UInt8)) :
    Result (Bool × resolver) := do
  let r := { r with ready_ := false }
  match ← find_loop S now r.pubkey_ none trv with
  | none => .ok (false, r)
  | some cert =>
      let the_cipher := cert.cipher
      if the_cipher = .undefined then .ok (false, r)
      else
        let r := { r with resolver_pubkey_ := cert.server_publickey
                          dnscrypt_magic_query_ := cert.magic_query }
        let enc := r.dnscrypt_client_.set_magic_query cert.magic_query the_cipher
        match enc.set_resolver_publickey S r.resolver_pubkey_ with
        | none => .error (.runtime_error "Suspicious public key")
        | some enc => .ok (true, { r with dnscrypt_client_ := enc, ready_ := true })

theorem find_loop_version {S : Sodium} {now : ℕ} {pk : pubkey} {cert c : Option certificate}
    {trv : List (List UInt8)} (h : find_loop S now pk cert trv = .ok c)
    (hcert : ∀ c₀, cert = some c₀ → c₀.major = (0, 1) ∨ c₀.major = (0, 2)) :
    ∀ c₀, c = some c₀ → c₀.major = (0, 1) ∨ c₀.major = (0, 2) := by
  -- the certificate held so far is the accumulator of the loop
  induction trv generalizing cert with
  | nil =>
      rw [find_loop] at h
      rw [← Except.ok.inj h]
      exact hcert
  | cons t trv ih =>
      rw [find_loop] at h
      split at h
      · next ci hci =>
        have hnew := certificate.major_of_make hci
        split at h
        · refine ih h fun c₀ hc₀ => ?_
          rw [← Option.some.inj hc₀]
          split_ifs
          · exact hnew
          · exact hcert _ rfl
        · refine ih h fun c₀ hc₀ => ?_
          rw [← Option.some.inj hc₀]
          exact hnew
      · exact ih h hcert
      · exact absurd h (by simp)

end resolver

/-- The construction a server uses, as a cipher. -/
def server_encryptor_data.cipher (keys : server_encryptor_data) : Cdns.cipher :=
  if keys.is_chacha then .xchacha20poly1305 else .xsalsa20poly1305

/-- The server never picks the second construction. -/
theorem server_of_keys_cipher (pk : pubkey) (sk : secretkey) :
    (server_encryptor_data.of_keys pk sk).cipher = .xsalsa20poly1305 := rfl

/-- What the client has after it adopted a certificate: the cipher of the
certificate and the keys that go with its public key. -/
theorem adopt_spec {S : Sodium} {now : ℕ} {r r' : resolver} {trv : List (List UInt8)}
    {cert : certificate} (hcert : resolver.find_loop S now r.pubkey_ none trv = .ok (some cert))
    (h : r.find_valid_certificate S now trv = .ok (true, r')) :
    r'.dnscrypt_client_.cipher = cert.cipher ∧ cert.cipher ≠ .undefined ∧
      (r.dnscrypt_client_.set_magic_query cert.magic_query cert.cipher).set_resolver_publickey S
        cert.server_publickey = some r'.dnscrypt_client_ := by
  rw [resolver.find_valid_certificate] at h
  dsimp only at h
  rw [hcert, Result.ok_bind] at h
  dsimp only at h
  split_ifs at h with hc
  · exact absurd h (by simp)
  split at h
  · exact absurd h (by simp)
  · next enc henc =>
    obtain ⟨-, hr'⟩ := Prod.mk.inj (Except.ok.inj h)
    rw [← hr']
    refine ⟨?_, hc, henc⟩
    -- adopting the public key leaves the cipher alone
    show enc.cipher = cert.cipher
    unfold encryptor_data.set_resolver_publickey encryptor_data.set_magic_query at henc
    dsimp only at henc
    split_ifs at henc with he
    · split at henc
      · next heq =>
        obtain ⟨k, -, rfl⟩ := Option.map_eq_some_iff.mp henc
        rfl
      · next heq =>
        obtain ⟨k, -, rfl⟩ := Option.map_eq_some_iff.mp henc
        rfl
      · exact absurd henc (by simp)
    · rw [← Option.some.inj henc]

/-! ## Agreement -/

/-- Nothing sealed with one construction opens with the other. -/
structure Sodium.Separate (S : Sodium) : Prop where
  salsa_chacha : ∀ {m n k c} k', S.salsa.easy_afternm m n k = some c →
    S.chacha.open_easy_afternm c n k' = none
  chacha_salsa : ∀ {m n k c} k', S.chacha.easy_afternm m n k = some c →
    S.salsa.open_easy_afternm c n k' = none

section Agreement

variable {S : Sodium} {client d : encryptor_data} {pk : pubkey} {sk : secretkey}

/-- The keys a client of fresh keys has after it adopted the public key of a
server, when both use the first construction. -/
theorem paired_of_adopt {magic : Block 8}
    (hd : d.ephemeral_keys = true ∨ d.publickey = S.scalarmult_base d.secretkey)
    (h : (d.set_magic_query magic .xsalsa20poly1305).set_resolver_publickey S
      (S.scalarmult_base sk) = some client) : Paired S client (.of_keys pk sk) := by
  unfold encryptor_data.set_resolver_publickey encryptor_data.set_magic_query at h
  dsimp only at h
  split_ifs at h with he
  · obtain ⟨k, hk, rfl⟩ := Option.map_eq_some_iff.mp h
    have hpk : d.publickey = S.scalarmult_base d.secretkey := by
      rcases hd with hd | hd
      · rw [he] at hd
        exact absurd hd (by simp)
      · exact hd
    refine ⟨fun h => ?_, ?_, fun h => absurd (he.symm.trans h) (by simp), fun _ => ⟨hpk, hk⟩⟩
    · exact absurd h (by simp)
    · exact ⟨fun h => absurd h (by simp), fun h => absurd h Bool.false_ne_true⟩
  · rw [← Option.some.inj h]
    refine ⟨fun h => ?_, ?_, fun _ => rfl, fun h => absurd h he⟩
    · exact absurd h (by simp)
    · exact ⟨fun h => absurd h (by simp), fun h => absurd h Bool.false_ne_true⟩

/-- A server of the first construction does not open the second. -/
theorem server_rejects (pk : pubkey) (sk : secretkey) (hsep : S.Separate) {n : nonce}
    {p : List UInt8} {q : Query} (hc : client.cipher = .xchacha20poly1305)
    (h : SealedQuery S client n p q) :
    ¬ ((server_encryptor_data.of_keys pk sk).uncurve S q).returns := by
  have e₁ : detail.query_head_size = 68 := rfl
  have e₂ : detail.query_header_size = 52 := rfl
  obtain ⟨hsize, -, -, hnonce, key, -, hbox⟩ := h
  have hbx : client.box S = S.chacha := by
    rw [encryptor_data.box, hc]
    rfl
  -- whatever the certificate says, the server has no version 2
  have hsx : S.box (server_encryptor_data.of_keys pk sk).is_chacha = S.salsa := rfl
  -- the nonce and the box of the query, as the server reads them
  have hn : Block.ofList 12 (slice q.bytes 40 12) = n := by
    apply Block.ext
    rw [Block.ofList_bytes (slice_length _ _ _), hnonce]
  have hlen : q.size - detail.query_header_size = p.length + 16 := by omega
  rw [hbx] at hbox
  rw [server_encryptor_data.uncurve, hsx]
  dsimp only
  split_ifs
  · exact Result.not_returns_error _
  · split
    · exact Result.not_returns_error _
    · next k' _ =>
      rw [hn, hlen, e₂, hsep.chacha_salsa k' hbox]
      exact Result.not_returns_error _

end Agreement

/-- **Cipher agreement.** A client adopts the certificate `cert` and the server is
built from the same certificate and from the secret key that belongs to it. The
two use the same cipher exactly when the major version of the certificate is 1,
and the server decrypts a query that the client encrypts exactly when, besides,
the query has at most 55457 bytes. -/
theorem cipher_agreement_iff {S : Sodium} (hS : S.Lawful) (hsep : S.Separate) {now : ℕ}
    {r r' : resolver} {trv : List (List UInt8)} {cert : certificate}
    (hcert : resolver.find_loop S now r.pubkey_ none trv = .ok (some cert))
    (hadopt : r.find_valid_certificate S now trv = .ok (true, r'))
    (hkeys : r.dnscrypt_client_.ephemeral_keys = true ∨
      r.dnscrypt_client_.publickey = S.scalarmult_base r.dnscrypt_client_.secretkey)
    (pk : pubkey) {sk : secretkey} (hsk : cert.server_publickey = S.scalarmult_base sk) :
    (r'.dnscrypt_client_.cipher = (server_encryptor_data.of_keys pk sk).cipher ↔
      cert.major.2 = 1) ∧
    ∀ rnd n q q', 12 ≤ q.size → r'.dnscrypt_client_.curve S rnd n q = .ok q' →
      ((∃ q'' key, (server_encryptor_data.of_keys pk sk).uncurve S q' = .ok (q'', key, n) ∧
        q''.wire = q.wire) ↔ cert.major.2 = 1 ∧ q.size ≤ 55457) := by
  obtain ⟨hcipher, hdef, hclient⟩ := adopt_spec hcert hadopt
  rw [server_of_keys_cipher, hcipher]
  rcases resolver.find_loop_version hcert (by simp) cert rfl with hmaj | hmaj
  · -- version 1: both sides use the first construction
    have hc : cert.cipher = .xsalsa20poly1305 := by
      rw [certificate.cipher, hmaj]
      rfl
    rw [hc, hsk] at hclient
    have hpair : Paired S r'.dnscrypt_client_ (.of_keys pk sk) := paired_of_adopt hkeys hclient
    refine ⟨by rw [hc, hmaj]; decide, fun rnd n q q' hq hcurve => ?_⟩
    obtain ⟨p, hp, hsealed⟩ := client_curve_spec hS hpair.defined hcurve
    have := server_restores_iff hS hpair (by rw [Query.wire_length]; exact hq) hp hsealed
    rw [Query.wire_length] at this
    rw [this, hmaj]
    simp
  · -- version 2: the server still uses the first construction
    have hc : cert.cipher = .xchacha20poly1305 := by
      rw [certificate.cipher, hmaj]
      rfl
    refine ⟨by rw [hc, hmaj]; decide, fun rnd n q q' hq hcurve => ?_⟩
    obtain ⟨p, -, hsealed⟩ := client_curve_spec hS (by rw [hcipher]; exact hdef) hcurve
    have hrej := server_rejects pk sk hsep (hcipher.trans hc) hsealed
    rw [hmaj]
    constructor
    · rintro ⟨q'', key, h, -⟩
      exact absurd ⟨_, h⟩ hrej
    · rintro ⟨h, -⟩
      exact absurd h (by decide)

/-! ### Certificates of both versions -/

theorem dropTag_other {s t : UInt8} (h : s ≠ t) (m : List UInt8) :
    dropTag s (m ++ List.replicate 16 t) = none := by
  have hlen : (m ++ List.replicate 16 t).length - 16 = m.length := by simp
  rw [dropTag, hlen, List.drop_left]
  refine if_neg fun h' => h ?_
  have := (List.replicate_inj.mp h'.2).2
  exact (this.resolve_left (by decide)).symm

theorem Sodium.tagged_separate : Sodium.tagged.Separate where
  salsa_chacha := by
    intro m n k c k' h
    rw [← Option.some.inj h]
    exact dropTag_other (by decide) m
  chacha_salsa := by
    intro m n k c k' h
    rw [← Option.some.inj h]
    exact dropTag_other (by decide) m

/-- A certificate of the given major version for the key of `sampleServer`, valid
from second 0 to second 2. -/
def sampleCertificate (major : UInt8) : List UInt8 :=
  [0x44, 0x4e, 0x53, 0x43, 0, major, 0, 0] ++ List.replicate 64 0 ++
    (List.replicate 32 0 ++ List.replicate 8 0 ++ [0, 0, 0, 1] ++ [0, 0, 0, 0] ++ [0, 0, 0, 2])

/-- A resolver that has not adopted a certificate yet. -/
def sampleResolver : resolver where
  pubkey_ := Block.zero 32
  resolver_pubkey_ := Block.zero 32
  ready_ := false
  dnscrypt_magic_query_ := Block.zero 8
  dnscrypt_client_ := { sampleClient with cipher := .undefined }

/-- What the resolver reads in it. -/
def sampleCert (major : ℕ) : certificate where
  major := (0, major)
  minor := (0, 0)
  server_publickey := Block.zero 32
  magic_query := Block.zero 8
  serial := 1
  ts_begin := 0
  ts_end := 2
  raw_signed := sampleCertificate major.toUInt8

/-- The constructor accepts both. -/
theorem sample_make {major : ℕ} (h : major = 1 ∨ major = 2) :
    certificate.make Sodium.tagged 1 (Block.zero 32) (sampleCertificate major.toUInt8) =
      .ok (sampleCert major) := by
  rcases h with rfl | rfl
  · decide +kernel
  · decide +kernel

/-- And the resolver chooses it. -/
theorem sample_find_loop {major : ℕ} (h : major = 1 ∨ major = 2) :
    resolver.find_loop Sodium.tagged 1 sampleResolver.pubkey_ none
      [sampleCertificate major.toUInt8] = .ok (some (sampleCert major)) := by
  have hmake : certificate.make Sodium.tagged 1 sampleResolver.pubkey_
      (sampleCertificate major.toUInt8) = .ok (sampleCert major) := sample_make h
  rw [resolver.find_loop, hmake]
  rfl

/-- The resolver after it adopted that certificate. -/
def sampleAdopted (major : ℕ) : resolver :=
  { sampleResolver with
      ready_ := true
      dnscrypt_client_ := { sampleClient with cipher := (sampleCert major).cipher } }

theorem sample_adopt {major : ℕ} (h : major = 1 ∨ major = 2) :
    sampleResolver.find_valid_certificate Sodium.tagged 1 [sampleCertificate major.toUInt8] =
      .ok (true, sampleAdopted major) := by
  rw [resolver.find_valid_certificate]
  dsimp only
  rw [sample_find_loop h, Result.ok_bind]
  rcases h with rfl | rfl
  · rfl
  · rfl

theorem sample_adopted_curve (major : ℕ) (h : major = 1 ∨ major = 2) :
    ∃ q', (sampleAdopted major).dnscrypt_client_.curve Sodium.tagged (fun _ => 0) (Block.zero 12)
      (sampleMessage 132 (by decide)) = .ok q' := by
  have hdef : (sampleAdopted major).dnscrypt_client_.cipher ≠ .undefined := by
    rcases h with rfl | rfl
    · decide
    · decide
  have hkey : ∃ key, (sampleAdopted major).dnscrypt_client_.session_key Sodium.tagged
      (Block.zero 12) = some key := by
    rcases h with rfl | rfl
    · exact ⟨_, rfl⟩
    · exact ⟨_, rfl⟩
  obtain ⟨key, hkey⟩ := hkey
  exact client_curve_returns Sodium.tagged_lawful hdef (Sodium.tagged_seals _) hkey (fun _ => 0)
    (by decide)

theorem cipher_agreement_version_one :
    (sampleAdopted 1).dnscrypt_client_.cipher = sampleServer.cipher ∧
      ∃ q', (sampleAdopted 1).dnscrypt_client_.curve Sodium.tagged (fun _ => 0) (Block.zero 12)
          (sampleMessage 132 (by decide)) = .ok q' ∧
        ∃ q'' key, sampleServer.uncurve Sodium.tagged q' = .ok (q'', key, Block.zero 12) ∧
          q''.wire = (sampleMessage 132 (by decide)).wire := by
  have hkey : (sampleCert 1).server_publickey = Sodium.tagged.scalarmult_base (Block.zero 32) := rfl
  obtain ⟨hcipher, hdec⟩ := cipher_agreement_iff Sodium.tagged_lawful Sodium.tagged_separate
    (sample_find_loop (Or.inl rfl)) (sample_adopt (Or.inl rfl)) (Or.inl rfl) (Block.zero 32) hkey
  obtain ⟨q', hq'⟩ := sample_adopted_curve 1 (Or.inl rfl)
  exact ⟨hcipher.mpr rfl, q', hq', (hdec _ _ _ _ (by decide) hq').mpr ⟨rfl, by decide⟩⟩

/-- With a certificate of version 2 the client seals with the second construction
and the server cannot open the query. -/
theorem cipher_disagreement_version_two :
    sampleResolver.find_valid_certificate Sodium.tagged 1 [sampleCertificate 2] =
        .ok (true, sampleAdopted 2) ∧
      (sampleAdopted 2).dnscrypt_client_.cipher ≠ sampleServer.cipher ∧
      ∃ q', (sampleAdopted 2).dnscrypt_client_.curve Sodium.tagged (fun _ => 0) (Block.zero 12)
          (sampleMessage 132 (by decide)) = .ok q' ∧
        ¬ (sampleServer.uncurve Sodium.tagged q').returns := by
  obtain ⟨q', hq'⟩ := sample_adopted_curve 2 (Or.inr rfl)
  obtain ⟨p, -, hsealed⟩ := client_curve_spec Sodium.tagged_lawful (by decide) hq'
  exact ⟨sample_adopt (Or.inr rfl), by decide, q', hq',
    server_rejects _ _ Sodium.tagged_separate (by decide) hsealed⟩

end Cdns
