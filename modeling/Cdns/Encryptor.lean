/-
The two ends of a DNSCrypt exchange: `dns::crypt::encryptor`
(`dns/crypt/srcz/encryptor.cpp`), `dns::crypt::server::encryptor`
(`dns/crypt/srcz/server_crypt.cpp`), and what they share
(`dns/crypt/srcz/pad_buffer.cpp`, `dns/crypt/message_header.hxx`).

Both work in place on the storage of a query, through `put`, and nothing else
checks that they stay inside it. Random choices (the padding and the nonces) are
arguments.
-/
import Cdns.Query
import Cdns.Sodium

set_option autoImplicit false

namespace Cdns

open Lib.Storage

/-! ## Padding -/

namespace detail

/-- `detail::pad_buffer` on the `len` bytes at `base`. -/
def pad_buffer (buf : Buffer) (base len max_len : ℕ) (rndfunc : ℕ → ℕ) : Result (Buffer × ℕ) :=
  let block_size := 64
  let min_pad_len := 8
  if max_len < len + min_pad_len then .ok (buf, len)
  else do
    let padded_len := len + min_pad_len + rndfunc (max_len - len - min_pad_len + 1)
    let padded_len := padded_len + (block_size - padded_len % block_size)
    let padded_len := if padded_len > max_len then max_len else padded_len
    let buf ← put buf (base + len) (List.replicate (padded_len - len) 0)
    let buf ← put buf (base + len) [0x80]
    .ok (buf, padded_len)

/-- The loop of `find_end`: the last nonzero byte below `size`, or 0. -/
def find_end_loop (buf : Buffer) : ℕ → ℕ
  | 0 => 0
  | size + 1 => if buf size = 0 then find_end_loop buf size else size

/-- `detail::find_end`. -/
def find_end (buf : Buffer) (size : ℕ) : Result ℕ :=
  let size := find_end_loop buf size
  if buf size ≠ 0x80 then .error (.runtime_error "no end") else .ok size

/-- `detail::magic_response`: the characters `r6fnvWj8`. -/
def magic_response : Block 8 := ⟨[0x72, 0x36, 0x66, 0x6e, 0x76, 0x57, 0x6a, 0x38], rfl⟩

/-- `sizeof (detail::query_header)`: magic, public key, nonce. -/
def query_header_size : ℕ := 52

/-- `detail::query_head_size`, with the MAC. -/
def query_head_size : ℕ := 68

/-- `sizeof (detail::response_header)`: magic, client nonce, server nonce. -/
def response_header_size : ℕ := 32

/-- `response_head_size`, with the MAC. -/
def response_head_size : ℕ := 48

end detail

/-- `class crypt_failure`. -/
def crypt_failure (msg : String) : Exn := .crypt_failure ("Cryptography failure: " ++ msg)

/-! ## The client -/

/-- `detail::encryptor_data`. -/
structure encryptor_data where
  magic_query : Block 8
  publickey : pubkey
  secretkey : Cdns.secretkey
  nmkey : Cdns.secretkey
  nonce_pad : nonce
  cipher : Cdns.cipher
  ephemeral_keys : Bool

namespace encryptor_data

/-- `encryptor::set_magic_query`. -/
def set_magic_query (d : encryptor_data) (magic_query : Block 8) (a_cipher : Cdns.cipher) :
    encryptor_data :=
  { d with magic_query := magic_query, cipher := a_cipher }

/-- `encryptor::set_resolver_publickey`; `none` is a nonzero result. -/
def set_resolver_publickey (S : Sodium) (d : encryptor_data) (resolver_publickey : pubkey) :
    Option encryptor_data :=
  if d.ephemeral_keys = false then
    match d.cipher with
    | .xsalsa20poly1305 =>
        (S.salsa.beforenm resolver_publickey d.secretkey).map fun k => { d with nmkey := k }
    | .xchacha20poly1305 =>
        (S.chacha.beforenm resolver_publickey d.secretkey).map fun k => { d with nmkey := k }
    | .undefined => none
  else some { d with publickey := resolver_publickey }

/-- The key pair for one nonce when the keys are ephemeral. -/
def eph_secretkey (S : Sodium) (d : encryptor_data) (n : nonce) : Cdns.secretkey :=
  S.stream 32 ⟨n, d.nonce_pad⟩ d.secretkey

/-- The construction of the cipher. -/
def box (S : Sodium) (d : encryptor_data) : Box := S.box (d.cipher = .xchacha20poly1305)

/-- `detail::curve_uncurve`: seals, or opens when `e` is set. Also the public key
for the header. -/
def curve_uncurve (S : Sodium) (keys : encryptor_data) (fullnonce : full_nonce)
    (input : List UInt8) (e : Bool) : Result (List UInt8 × pubkey) :=
  if keys.cipher ≠ .xsalsa20poly1305 ∧ keys.cipher ≠ .xchacha20poly1305 then
    .error (.logic_error "unsupported cipher")
  else
    let B := keys.box S
    let (res, eph_publickey) :=
      if keys.ephemeral_keys = false then
        ((if e then B.open_easy_afternm else B.easy_afternm) input fullnonce keys.nmkey,
          keys.publickey)
      else
        let sk := keys.eph_secretkey S fullnonce.first_half
        ((if e then B.open_easy else B.easy) input fullnonce keys.publickey sk,
          S.scalarmult_base sk)
    match res with
    | none => .error (crypt_failure "-6")
    | some output => .ok (output, eph_publickey)

/-- `encryptor::curve`, with the session nonce it draws. -/
def curve (S : Sodium) (enc : encryptor_data) (rnd : ℕ → ℕ) (session_nonce : nonce)
    (msg : Query) : Result Query := do
  let len := msg.size
  let max_len := min (3 * (msg.size + detail.query_head_size)) max_size
  if max_len < len ∨ max_len - len < detail.query_head_size then
    .error (crypt_failure "not enough space allocated to encrypt DNS message")
  else
    -- shift message leaving space for header
    let buf ← put msg.bytes detail.query_header_size (slice msg.bytes 0 len)
    let (buf, len) ← detail.pad_buffer buf detail.query_header_size len
      (max_len - detail.query_head_size - 2) rnd
    let (output, eph_publickey) ← curve_uncurve S enc ⟨session_nonce, Block.zero 12⟩
      (slice buf detail.query_header_size len) false
    let buf ← put buf detail.query_header_size output
    let buf ← put buf 0 (enc.magic_query.bytes ++ eph_publickey.bytes ++ session_nonce.bytes)
    let curved_size := len + detail.query_head_size
    if curved_size ≤ 0 ∨ curved_size > 65534 then .error (crypt_failure "failed to encrypt")
    else set_size buf curved_size

/-- `encryptor::uncurve`. -/
def uncurve (S : Sodium) (enc : encryptor_data) (session_nonce : nonce) (q : Query) :
    Result Query := do
  let len := q.size
  if len ≤ detail.response_header_size + crypto_box_MACBYTES then
    .error (crypt_failure "too short encrypted message")
  else if slice q.bytes 0 8 ≠ detail.magic_response.bytes then
    .error (crypt_failure "message is not DNScrypt")
  else if session_nonce.bytes ≠ slice q.bytes 8 12 then .error (crypt_failure "wrong nonce")
  else
    let fullnonce : full_nonce :=
      ⟨Block.ofList 12 (slice q.bytes 8 12), Block.ofList 12 (slice q.bytes 20 12)⟩
    let ciphertext_len := len - detail.response_header_size
    let (output, _) ← curve_uncurve S enc fullnonce
      (slice q.bytes detail.response_header_size ciphertext_len) true
    let buf ← put q.bytes 0 output
    let dec_size ← detail.find_end buf (ciphertext_len - crypto_box_MACBYTES)
    if dec_size < message_header.wire_size then
      .error (crypt_failure "decrypted message is not DNS")
    else set_size buf dec_size

end encryptor_data

/-! ## The server -/

/-- `detail::server_encryptor_data`. -/
structure server_encryptor_data where
  es_version : ℕ × ℕ
  crypt_publickey : pubkey
  crypt_secretkey : secretkey

namespace server_encryptor_data

/-- `detail::is_chacha`. -/
def is_chacha (keys : server_encryptor_data) : Bool :=
  keys.es_version.1 = 0 && keys.es_version.2 = 2

/-- `server::encryptor::encryptor (pk, sk)`. -/
def of_keys (pk : pubkey) (sk : secretkey) : server_encryptor_data :=
  { es_version := (0, 0), crypt_publickey := pk, crypt_secretkey := sk }

/-- `server::encryptor::uncurve`: the message, the session key and the nonce of
the client. -/
def uncurve (S : Sodium) (keys : server_encryptor_data) (q : Query) :
    Result (Query × pubkey × nonce) := do
  let B := S.box keys.is_chacha
  let msg_size := q.size
  if msg_size ≤ detail.query_head_size then
    .error (.runtime_error "decryption failed: too short message")
  else
    match B.beforenm (Block.ofList 32 (slice q.bytes 8 32)) keys.crypt_secretkey with
    | none => .error (.runtime_error "decryption failed: beforenm")
    | some nmkey =>
        let fullnonce : full_nonce := ⟨Block.ofList 12 (slice q.bytes 40 12), Block.zero 12⟩
        match B.open_easy_afternm (slice q.bytes detail.query_header_size
            (msg_size - detail.query_header_size)) fullnonce nmkey with
        | none => .error (.runtime_error "decryption failed: afternm")
        | some output => do
            let buf ← put q.bytes 0 output
            let dec_size ← detail.find_end buf (msg_size - detail.query_head_size)
            if dec_size < message_header.wire_size then
              .error (.runtime_error "too short decrypted DNS message")
            else do
              let q ← set_size buf dec_size
              .ok (q, nmkey, fullnonce.first_half)

/-- `detail::crypto_random`: four bytes of the key stream as a number. -/
def crypto_random (S : Sodium) (halfnonce : nonce) (key : secretkey) : ℕ :=
  (S.stream 4 ⟨halfnonce, halfnonce⟩ key).bytes.foldr (fun b n => b.toNat + 256 * n) 0

/-- `server::encryptor::curve`, with the server nonce it draws. -/
def curve (S : Sodium) (keys : server_encryptor_data) (server_nonce client_nonce : nonce)
    (nmkey : pubkey) (q : Query) : Result Query := do
  let msg_size := q.size
  let boxed := detail.response_header_size
  let shifted_message := boxed + crypto_box_MACBYTES
  -- shift message leaving space for the header and MAC
  let buf ← put q.bytes shifted_message (slice q.bytes 0 msg_size)
  let head_size := max detail.response_head_size detail.query_head_size
  let mxsz := min max_size ((msg_size + head_size) * 3)
  let (buf, padded_msg_size) ← detail.pad_buffer buf shifted_message msg_size
    (mxsz - head_size - 2) fun ub => crypto_random S client_nonce keys.crypt_secretkey % ub
  let fullnonce : full_nonce := ⟨client_nonce, server_nonce⟩
  match (S.box keys.is_chacha).easy_afternm (slice buf shifted_message padded_msg_size)
      fullnonce nmkey with
  | none => .error (.runtime_error "encryption failed")
  | some output => do
      let buf ← put buf boxed output
      let buf ← put buf 0 (detail.magic_response.bytes ++ client_nonce.bytes ++ server_nonce.bytes)
      set_size buf (padded_msg_size + detail.response_head_size)

end server_encryptor_data

end Cdns
