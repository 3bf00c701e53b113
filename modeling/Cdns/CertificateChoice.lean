/-
Which certificate a client adopts: `resolver::find_valid_certificate`
(`dns/crypt/srcz/certifier.cpp`).

The strings come from the network in any order. The constructor of a certificate throws
`invalid_certificate` for each one that is not valid (`make_returns_iff`), which the loop catches,
so the loop goes through the valid ones (`valid`) and keeps the preferred one. A certificate is
preferred when its version and serial number are not smaller (`is_preferred_over_iff`), and the
loop ends with the last of the greatest (`find_loop_greatest`).
-/
import Cdns.Certificate
import Cdns.Lib.Greatest

set_option autoImplicit false

namespace Cdns

open Lib.Storage Lib.Greatest

/-! ## Valid certificates -/

namespace certificate

/-- **A valid certificate**: a version header and a record that the provider with the key `pk`
signed for a time that has begun and is not over. -/
structure Valid (S : Sodium) (now : ℕ) (pk : pubkey) (raw : List UInt8) : Prop where
  length : 8 ≤ raw.length ∧ raw.length ≤ 65000
  magic : slice (ofList raw) 0 4 = [0x44, 0x4e, 0x53, 0x43]
  major : be16 (ofList raw) 4 = 1 ∨ be16 (ofList raw) 4 = 2
  signed : ∃ data, S.sign_open (raw.drop 8) pk = some data ∧ 52 ≤ data.length ∧
    be32 (ofList data) 44 < be32 (ofList data) 48 ∧ be32 (ofList data) 44 ≤ now ∧
    now ≤ be32 (ofList data) 48

/-- The two bytes of the major version, as a number. -/
theorem cert_parse_version_iff (ver : Buffer) : cert_parse_version ver = true ↔
    slice ver 0 4 = [0x44, 0x4e, 0x53, 0x43] ∧ (be16 ver 4 = 1 ∨ be16 ver 4 = 2) := by
  have hbyte : ∀ b n : UInt8, b = n ↔ b.toNat = n.toNat := fun b n => UInt8.toNat_inj.symm
  have h₀ : (0 : UInt8).toNat = 0 := rfl
  have h₁ : (1 : UInt8).toNat = 1 := rfl
  have h₂ : (2 : UInt8).toNat = 2 := rfl
  have hlt := (ver 5).toNat_lt
  simp only [cert_parse_version, Bool.and_eq_true, Bool.or_eq_true, decide_eq_true_eq, and_assoc,
    be16, Nat.reduceAdd]
  apply and_congr_right
  intro _
  rw [hbyte (ver 4) 0, hbyte (ver 5) 1, hbyte (ver 5) 2, h₀, h₁, h₂]
  omega

/-- **The constructor takes the valid certificates** and no others. -/
theorem make_returns_iff {S : Sodium} {now : ℕ} {pk : pubkey} {raw : List UInt8} :
    (make S now pk raw).returns ↔ Valid S now pk raw := by
  rw [make]
  dsimp only
  by_cases hlen : 65000 < raw.length ∨ 8 > raw.length
  · rw [if_pos hlen]
    refine iff_of_false (Result.not_returns_error _) fun h => ?_
    have := h.length
    omega
  rw [if_neg hlen]
  by_cases hver : cert_parse_version (ofList raw) = false
  · rw [if_pos hver]
    refine iff_of_false (Result.not_returns_error _) fun h => ?_
    rw [(cert_parse_version_iff _).mpr ⟨h.magic, h.major⟩] at hver
    exact absurd hver (by simp)
  rw [if_neg hver]
  obtain ⟨hmagic, hmajor⟩ := (cert_parse_version_iff _).mp (by simpa using hver)
  cases hopen : S.sign_open (raw.drop 8) pk with
  | none =>
      refine iff_of_false (Result.not_returns_error _) fun h => ?_
      obtain ⟨data, hdata, -⟩ := h.signed
      rw [hopen] at hdata
      exact absurd hdata (by simp)
  | some data =>
      dsimp only
      have hvalid : Valid S now pk raw ↔ 52 ≤ data.length ∧
          be32 (ofList data) 44 < be32 (ofList data) 48 ∧ be32 (ofList data) 44 ≤ now ∧
          now ≤ be32 (ofList data) 48 := by
        constructor
        · intro h
          obtain ⟨data', hdata', h⟩ := h.signed
          rw [hopen] at hdata'
          rw [Option.some.inj hdata']
          exact h
        · intro h
          exact ⟨by omega, hmagic, hmajor, data, hopen, h⟩
      rw [hvalid]
      split_ifs with h₁ h₂ h₃ h₄
      · exact iff_of_false (Result.not_returns_error _) (by omega)
      · exact iff_of_false (Result.not_returns_error _) (by omega)
      · exact iff_of_false (Result.not_returns_error _) (by omega)
      · exact iff_of_true (Result.returns_ok _) (by omega)
      · exact iff_of_false (Result.not_returns_error _) (by omega)

/-- All failures of a certificate are `invalid_certificate`. -/
theorem make_error {S : Sodium} {now : ℕ} {pk : pubkey} {raw : List UInt8} {e : Exn}
    (h : make S now pk raw = .error e) : ∃ what, e = .invalid_certificate what := by
  unfold make at h
  dsimp only at h
  split_ifs at h
  · exact ⟨_, (Except.error.inj h).symm⟩
  · exact ⟨_, (Except.error.inj h).symm⟩
  · split at h
    · exact ⟨_, (Except.error.inj h).symm⟩
    · split_ifs at h
      all_goals exact ⟨_, (Except.error.inj h).symm⟩

/-- A certificate that was made has a cipher. -/
theorem cipher_of_make {S : Sodium} {now : ℕ} {pk : pubkey} {raw : List UInt8} {c : certificate}
    (h : make S now pk raw = .ok c) : c.cipher ≠ .undefined := by
  rcases major_of_make h with hmaj | hmaj
  · rw [cipher, hmaj]
    decide
  · rw [cipher, hmaj]
    decide

/-- The version and, for equal versions, the serial number. -/
def rank (c : certificate) : ℕ ×ₗ ℕ := toLex (c.version, c.serial)

/-- **A certificate is preferred** when its rank is not smaller. -/
theorem is_preferred_over_iff (c previous : certificate) :
    c.is_preferred_over previous = true ↔ previous.rank ≤ c.rank := by
  rw [rank, rank, Prod.Lex.toLex_le_toLex, is_preferred_over]
  dsimp only
  split_ifs with h₁ h₂ h₃
  · exact iff_of_false (by simp) (by omega)
  · exact iff_of_true rfl (by omega)
  · exact iff_of_false (by simp) (by omega)
  · exact iff_of_true rfl (by omega)

end certificate

/-! ## The loop -/

namespace resolver

/-- The valid certificates among the strings, in their order. -/
def valid (S : Sodium) (now : ℕ) (pk : pubkey) (trv : List (List UInt8)) : List certificate :=
  trv.filterMap fun t => (certificate.make S now pk t).toOption

section Loop

variable {S : Sodium} {now : ℕ} {pk : pubkey} {trv : List (List UInt8)} {c : certificate}

theorem mem_valid : c ∈ valid S now pk trv ↔ ∃ t ∈ trv, certificate.make S now pk t = .ok c := by
  rw [valid, List.mem_filterMap]
  apply exists_congr
  intro t
  apply and_congr_right
  intro _
  cases certificate.make S now pk t with
  | error e => exact iff_of_false (by simp [Except.toOption]) (by simp)
  | ok c' => simp [Except.toOption]

/-- There is one exactly when a string is valid. -/
theorem valid_ne_nil_iff : valid S now pk trv ≠ [] ↔ ∃ t ∈ trv, certificate.Valid S now pk t := by
  constructor
  · intro h
    obtain ⟨c, hc⟩ := List.exists_mem_of_ne_nil _ h
    obtain ⟨t, ht, hmake⟩ := mem_valid.mp hc
    exact ⟨t, ht, certificate.make_returns_iff.mp ⟨c, hmake⟩⟩
  · rintro ⟨t, ht, hvalid⟩
    obtain ⟨c, hmake⟩ := certificate.make_returns_iff.mpr hvalid
    exact List.ne_nil_of_mem (mem_valid.mpr ⟨t, ht, hmake⟩)

/-- What the loop holds after the valid certificates `seen`: the last of the greatest. -/
def Holds (seen : List certificate) : Option certificate → Prop
  | none => seen = []
  | some c => LastMax certificate.rank seen c

/-- The first valid certificate in the loop. -/
theorem Holds.first {seen : List certificate} (h : Holds seen none) (ci : certificate) :
    Holds (seen ++ [ci]) (some ci) := by
  have hseen : seen = [] := h
  rw [hseen]
  exact LastMax.singleton certificate.rank ci

/-- Every other valid certificate. -/
theorem Holds.next {seen : List certificate} (h : Holds seen (some c)) (ci : certificate) :
    Holds (seen ++ [ci]) (some (if ci.is_preferred_over c then ci else c)) := by
  simp only [certificate.is_preferred_over_iff]
  exact LastMax.concat h ci

/-- **The loop** returns, and it holds the last of the greatest of the valid certificates. -/
theorem find_loop_holds (S : Sodium) (now : ℕ) (pk : pubkey) (trv : List (List UInt8))
    {seen : List certificate} {cert : Option certificate} (h : Holds seen cert) :
    ∃ cert', find_loop S now pk cert trv = .ok cert' ∧
      Holds (seen ++ valid S now pk trv) cert' := by
  -- the certificates seen so far go with the one that is held
  induction trv generalizing seen cert with
  | nil =>
      refine ⟨cert, rfl, ?_⟩
      rw [valid, List.filterMap_nil, List.append_nil]
      exact h
  | cons t trv ih =>
      cases hmake : certificate.make S now pk t with
      | ok ci =>
          have hvalid : valid S now pk (t :: trv) = ci :: valid S now pk trv := by
            rw [valid, List.filterMap_cons, hmake]
            rfl
          have hgo : ∀ c, Holds (seen ++ [ci]) (some c) →
              ∃ cert', find_loop S now pk (some c) trv = .ok cert' ∧
                Holds (seen ++ valid S now pk (t :: trv)) cert' := by
            intro c hc
            obtain ⟨cert', hloop, hholds⟩ := ih hc
            refine ⟨cert', hloop, ?_⟩
            rw [hvalid]
            rw [List.append_assoc] at hholds
            exact hholds
          rw [find_loop, hmake]
          cases cert with
          | none => exact hgo ci (h.first ci)
          | some c => exact hgo _ (h.next ci)
      | error e =>
          obtain ⟨what, rfl⟩ := certificate.make_error hmake
          have hvalid : valid S now pk (t :: trv) = valid S now pk trv := by
            rw [valid, List.filterMap_cons, hmake]
            rfl
          obtain ⟨cert', hloop, hholds⟩ := ih h
          refine ⟨cert', ?_, ?_⟩
          · rw [find_loop, hmake]
            exact hloop
          · rw [hvalid]
            exact hholds

end Loop

/-! ## The choice -/

/-- The resolver after it adopted a certificate, with ephemeral keys. -/
def adopt (r : resolver) (c : certificate) : resolver :=
  { r with
      ready_ := true
      resolver_pubkey_ := c.server_publickey
      dnscrypt_magic_query_ := c.magic_query
      dnscrypt_client_ := { r.dnscrypt_client_ with
        magic_query := c.magic_query
        cipher := c.cipher
        publickey := c.server_publickey } }

/-- **What `find_valid_certificate` does** with ephemeral keys: it adopts the last of the greatest
of the valid certificates, or only forgets that it was ready. -/
theorem find_valid_certificate_cases (S : Sodium) (now : ℕ) {r : resolver}
    (he : r.dnscrypt_client_.ephemeral_keys = true) (trv : List (List UInt8)) :
    (valid S now r.pubkey_ trv = [] ∧
      r.find_valid_certificate S now trv = .ok (false, { r with ready_ := false })) ∨
    ∃ c, LastMax certificate.rank (valid S now r.pubkey_ trv) c ∧
      r.find_valid_certificate S now trv = .ok (true, r.adopt c) := by
  have hstart : Holds [] none := rfl
  obtain ⟨cert, hloop, hholds⟩ := find_loop_holds S now r.pubkey_ trv hstart
  rw [List.nil_append] at hholds
  rw [find_valid_certificate]
  dsimp only
  rw [hloop, Result.ok_bind]
  cases cert with
  | none => exact Or.inl ⟨hholds, rfl⟩
  | some c =>
      refine Or.inr ⟨c, hholds, ?_⟩
      obtain ⟨t, -, hmake⟩ := mem_valid.mp hholds.mem
      have he' : (r.dnscrypt_client_.set_magic_query c.magic_query c.cipher).ephemeral_keys
          = true := he
      dsimp only
      rw [if_neg (certificate.cipher_of_make hmake), encryptor_data.set_resolver_publickey,
        if_neg (by rw [he']; simp)]
      rfl

theorem find_valid_certificate_returns (S : Sodium) (now : ℕ) {r : resolver}
    (he : r.dnscrypt_client_.ephemeral_keys = true) (trv : List (List UInt8)) :
    (r.find_valid_certificate S now trv).returns := by
  rcases find_valid_certificate_cases S now he trv with ⟨-, h⟩ | ⟨c, -, h⟩
  · exact ⟨_, h⟩
  · exact ⟨_, h⟩

/-- Adopting a certificate does not change the kind of the keys. -/
theorem find_valid_certificate_ephemeral {S : Sodium} {now : ℕ} {r r' : resolver} {b : Bool}
    {trv : List (List UInt8)} (h : r.find_valid_certificate S now trv = .ok (b, r'))
    (he : r.dnscrypt_client_.ephemeral_keys = true) :
    r'.dnscrypt_client_.ephemeral_keys = true := by
  rcases find_valid_certificate_cases S now he trv with ⟨-, h'⟩ | ⟨c, -, h'⟩
  · rw [h] at h'
    rw [(Prod.mk.inj (Except.ok.inj h')).2]
    exact he
  · rw [h] at h'
    rw [(Prod.mk.inj (Except.ok.inj h')).2]
    exact he

/-- **Certificate choice.** For every resolver with ephemeral keys and every list of strings:
`find_valid_certificate` returns, with `true` exactly when one of the strings is a valid
certificate. Then the resolver is ready and has the keys, the magic and the cipher of the last of
the valid certificates with the greatest version and serial number, and these do not depend on
the order of the list. Otherwise the resolver is not ready, and nothing else has changed. -/
theorem find_valid_certificate_iff (S : Sodium) (now : ℕ) {r : resolver}
    (he : r.dnscrypt_client_.ephemeral_keys = true) (trv : List (List UInt8)) :
    ∃ b r', r.find_valid_certificate S now trv = .ok (b, r') ∧
      (b = true ↔ ∃ t ∈ trv, certificate.Valid S now r.pubkey_ t) ∧
      (b = true → ∃ c, LastMax certificate.rank (valid S now r.pubkey_ trv) c ∧
        r'.ready_ = true ∧ r'.resolver_pubkey_ = c.server_publickey ∧
        r'.dnscrypt_client_.publickey = c.server_publickey ∧
        r'.dnscrypt_client_.magic_query = c.magic_query ∧
        r'.dnscrypt_client_.cipher = c.cipher ∧
        ∀ trv' c', trv'.Perm trv → LastMax certificate.rank (valid S now r.pubkey_ trv') c' →
          c'.version = c.version ∧ c'.serial = c.serial) ∧
      (b = false → r' = { r with ready_ := false }) := by
  rcases find_valid_certificate_cases S now he trv with ⟨hnone, h⟩ | ⟨c, hc, h⟩
  · refine ⟨false, _, h, ?_, fun hb => absurd hb (by simp), fun _ => rfl⟩
    rw [← valid_ne_nil_iff]
    exact iff_of_false (by simp) (fun hne => hne hnone)
  · refine ⟨true, _, h, ?_, fun _ => ?_, fun hb => absurd hb (by simp)⟩
    · rw [← valid_ne_nil_iff]
      exact iff_of_true rfl (List.ne_nil_of_mem hc.mem)
    · refine ⟨c, hc, rfl, rfl, rfl, rfl, rfl, ?_⟩
      intro trv' c' hperm hc'
      have hrank : c'.rank = c.rank := hc.key_eq_of_perm hc' (hperm.filterMap _)
      exact Prod.mk.inj (toLex_inj.mp hrank)

/-- Two valid certificates, one of which is adopted. -/
theorem find_valid_certificate_iff_sample :
    ∃ r', sampleResolver.find_valid_certificate Sodium.tagged 1
        [sampleCertificate 1, sampleCertificate 2] = .ok (true, r') ∧ r'.ready_ = true := by
  obtain ⟨b, r', h, hiff, htrue, -⟩ := find_valid_certificate_iff Sodium.tagged 1
    (r := sampleResolver) rfl [sampleCertificate 1, sampleCertificate 2]
  have hvalid : certificate.Valid Sodium.tagged 1 sampleResolver.pubkey_ (sampleCertificate 1) :=
    certificate.make_returns_iff.mp ⟨_, sample_make (Or.inl rfl)⟩
  have hb : b = true := hiff.mpr ⟨_, List.mem_cons_self, hvalid⟩
  obtain ⟨c, -, hready, -⟩ := htrue hb
  rw [hb] at h
  exact ⟨r', h, hready⟩

end resolver

end Cdns
