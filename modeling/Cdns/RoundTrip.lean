/-
The DNSCrypt round trips.

Each direction is the same argument over lists of bytes. The sender seals the
padded message, `message ++ 0x80 :: zeros`; the receiver opens it and cuts it at
the last nonzero byte, which is the marker, and has the message again. Where the
storage has no room for eight more bytes `pad_buffer` adds nothing, not even the
marker, while `find_end` still looks for it. The two ends meet at 55457 bytes:
up to there the message comes back, beyond it never does. The server shifts the
message by 48 bytes without looking at the end of the storage, so from 55488
bytes on it writes behind it.
-/
import Cdns.Encryptor

set_option autoImplicit false

namespace Cdns

open Lib.Storage

/-! ## Padding and its end -/

/-- The three fields of a header at the start of the storage. -/
theorem slice_write_header (b : Buffer) (l₁ l₂ l₃ : List UInt8) :
    slice (write b 0 (l₁ ++ l₂ ++ l₃)) 0 l₁.length = l₁ ∧
      slice (write b 0 (l₁ ++ l₂ ++ l₃)) l₁.length l₂.length = l₂ ∧
      slice (write b 0 (l₁ ++ l₂ ++ l₃)) (l₁.length + l₂.length) l₃.length = l₃ := by
  have h := slice_write_same b 0 (l₁ ++ l₂ ++ l₃)
  rw [List.length_append, List.length_append, slice_add, slice_add, Nat.zero_add, Nat.zero_add] at h
  obtain ⟨h₁₂, h₃⟩ := List.append_inj h (by simp)
  obtain ⟨h₁, h₂⟩ := List.append_inj h₁₂ (by simp)
  exact ⟨h₁, h₂, h₃⟩

namespace detail

/-- The padding is written behind the message, the marker over the first of the zeros. -/
theorem pad_buffer_write (buf : Buffer) {base len max_len : ℕ} (rnd : ℕ → ℕ)
    (hroom : len + 8 ≤ max_len) (hfit : base + max_len ≤ max_size) {d p : ℕ}
    (hd : d = len + 8 + rnd (max_len - len - 8 + 1)) (hp : p = min max_len (d + (64 - d % 64))) :
    pad_buffer buf base len max_len rnd
      = .ok (write buf (base + len) (0x80 :: List.replicate (p - len - 1) 0), p) := by
  have hbounds : len + 8 ≤ p ∧ p ≤ max_len := by omega
  have hcut : (if d + (64 - d % 64) > max_len then max_len else d + (64 - d % 64)) = p := by
    split_ifs
    · omega
    · omega
  have hzeros : List.replicate (p - len) (0 : UInt8) = 0 :: List.replicate (p - len - 1) 0 := by
    rw [← List.replicate_succ]
    congr 1
    omega
  have hput : put buf (base + len) (0 :: List.replicate (p - len - 1) 0)
      = .ok (write buf (base + len) (0 :: List.replicate (p - len - 1) 0)) := by
    apply put_eq_ok
    rw [List.length_cons, List.length_replicate]
    omega
  have hmark : put (write buf (base + len) (0 :: List.replicate (p - len - 1) 0)) (base + len) [0x80]
      = .ok (write buf (base + len) (0x80 :: List.replicate (p - len - 1) 0)) := by
    rw [put_eq_ok _ (by rw [List.length_singleton]; omega), write_write_head]
  rw [pad_buffer]
  dsimp only
  rw [if_neg (by omega), ← hd, hcut, hzeros, hput, Result.ok_bind, hmark, Result.ok_bind]

/-- The padded message is the message, the marker and zeros. -/
theorem pad_buffer_spec (buf : Buffer) {base len max_len : ℕ} (rnd : ℕ → ℕ)
    (hroom : len + 8 ≤ max_len) (hfit : base + max_len ≤ max_size) :
    ∃ buf' z, pad_buffer buf base len max_len rnd = .ok (buf', len + (z + 1)) ∧
      len + (z + 1) ≤ max_len ∧
      slice buf' base (len + (z + 1)) = slice buf base len ++ 0x80 :: List.replicate z 0 := by
  have hpad := pad_buffer_write buf rnd hroom hfit rfl rfl
  -- only the bounds of the padded length matter, not how it was drawn
  have hbounds : ∀ d, len + 8 ≤ d → len + 8 ≤ min max_len (d + (64 - d % 64)) := by omega
  have hlow := hbounds (len + 8 + rnd (max_len - len - 8 + 1)) (by omega)
  have hhigh := Nat.min_le_left max_len (len + 8 + rnd (max_len - len - 8 + 1)
    + (64 - (len + 8 + rnd (max_len - len - 8 + 1)) % 64))
  generalize min max_len (len + 8 + rnd (max_len - len - 8 + 1)
    + (64 - (len + 8 + rnd (max_len - len - 8 + 1)) % 64)) = p at hpad hlow hhigh
  obtain ⟨z, hz⟩ : ∃ z, p = len + (z + 1) := ⟨p - len - 1, by omega⟩
  have hcount : p - len - 1 = z := by omega
  rw [hcount, hz] at hpad
  refine ⟨_, z, hpad, by omega, ?_⟩
  -- the message lies before the padding
  have hlen : (0x80 :: List.replicate z (0 : UInt8)).length = z + 1 := by simp
  have htail := slice_write_same buf (base + len) (0x80 :: List.replicate z 0)
  rw [hlen] at htail
  rw [slice_add, htail, slice_write_disjoint buf (Or.inl (le_refl _))]

theorem pad_buffer_full (buf : Buffer) {base len max_len : ℕ} (rnd : ℕ → ℕ)
    (hroom : max_len < len + 8) : pad_buffer buf base len max_len rnd = .ok (buf, len) := by
  rw [pad_buffer]
  dsimp only
  rw [if_pos hroom]

theorem find_end_loop_lt (buf : Buffer) {size : ℕ} (h : 0 < size) :
    find_end_loop buf size < size := by
  induction size with
  | zero => omega
  | succ size ih =>
      rw [find_end_loop]
      split_ifs with hb
      · rcases Nat.eq_zero_or_pos size with rfl | hpos
        · rw [find_end_loop]
          omega
        · have := ih hpos
          omega
      · omega

theorem find_end_loop_zeros {buf : Buffer} {len : ℕ} (hlen : buf len ≠ 0) (z : ℕ)
    (hz : ∀ i, len < i → i < len + (z + 1) → buf i = 0) :
    find_end_loop buf (len + (z + 1)) = len := by
  induction z with
  | zero => rw [find_end_loop, if_neg hlen]
  | succ z ih =>
      have hstep : len + (z + 1 + 1) = len + (z + 1) + 1 := by omega
      rw [hstep, find_end_loop, if_pos (hz _ (by omega) (by omega))]
      exact ih fun i h₁ h₂ => hz i h₁ (by omega)

/-- **The marker is found.** -/
theorem find_end_padded {buf : Buffer} {m : List UInt8} {z : ℕ}
    (h : slice buf 0 (m.length + (z + 1)) = m ++ 0x80 :: List.replicate z 0) :
    find_end buf (m.length + (z + 1)) = .ok m.length := by
  have hget : ∀ i, i < m.length + (z + 1) →
      buf i = (m ++ 0x80 :: List.replicate z 0).getD i 0 := by
    intro i hi
    rw [← h, slice_getD _ _ _ hi, Nat.zero_add]
  have hmark : buf m.length = 0x80 := by
    rw [hget _ (by omega), List.getD_append_right _ _ _ _ (le_refl _), Nat.sub_self]
    rfl
  have hzero : ∀ i, m.length < i → i < m.length + (z + 1) → buf i = 0 := by
    intro i h₁ h₂
    obtain ⟨j, hj⟩ : ∃ j, i - m.length = j + 1 := ⟨i - m.length - 1, by omega⟩
    rw [hget i h₂, List.getD_append_right _ _ _ _ (by omega), hj, List.getD_cons_succ,
      List.getD_replicate _ (by omega)]
  have hne : buf m.length ≠ 0 := by
    rw [hmark]
    decide
  rw [find_end]
  rw [find_end_loop_zeros hne z hzero, if_neg (by rw [hmark]; simp)]

/-- Without the marker the end is found too early, if at all. -/
theorem find_end_lt {buf : Buffer} {size e : ℕ} (hsize : 0 < size)
    (h : find_end buf size = .ok e) : e < size := by
  rw [find_end] at h
  split_ifs at h with hb
  rw [← Except.ok.inj h]
  exact find_end_loop_lt buf hsize

end detail

/-- What is sealed in place of a message: the padded message, or, when there is
no room, the message itself. -/
inductive Padded (m : List UInt8) : List UInt8 → Prop where
  | marked (z : ℕ) (h : m.length ≤ 55457) : Padded m (m ++ 0x80 :: List.replicate z 0)
  | bare (h : 55457 < m.length) : Padded m m

/-- **Unpadding.** What the receiver cuts out of a padded message. -/
theorem unpad_iff {m p : List UInt8} (hp : Padded m p) {buf : Buffer}
    (hbuf : slice buf 0 p.length = p) :
    (∃ e, detail.find_end buf p.length = .ok e ∧ slice buf 0 e = m) ↔ m.length ≤ 55457 := by
  cases hp with
  | marked z h =>
      refine ⟨fun _ => h, fun _ => ?_⟩
      have hlen : (m ++ 0x80 :: List.replicate z (0 : UInt8)).length = m.length + (z + 1) := by simp
      rw [hlen] at hbuf ⊢
      refine ⟨m.length, detail.find_end_padded hbuf, ?_⟩
      rw [slice_add] at hbuf
      exact (List.append_inj hbuf (by simp)).1
  | bare h =>
      constructor
      · rintro ⟨e, he, hslice⟩
        have hlt := detail.find_end_lt (by omega) he
        have hlen := congrArg List.length hslice
        rw [slice_length] at hlen
        omega
      · intro hle
        omega

theorem Padded.length_le {m p : List UInt8} (h : Padded m p) : m.length ≤ p.length := by
  cases h with
  | marked z h => simp
  | bare h => exact le_refl _

/-- The last steps of a receiver on the opened bytes `p`: cut the padding and set
the size, unless what is left is shorter than a header. -/
def cut (b : Buffer) (p : List UInt8) (e : Exn) : Result Query := do
  let dec_size ← detail.find_end (write b 0 p) p.length
  if dec_size < message_header.wire_size then .error e else set_size (write b 0 p) dec_size

/-- The receiver restores the message exactly when the sender could mark its
end. -/
theorem cut_iff {m p : List UInt8} (hm : 12 ≤ m.length) (hp : Padded m p) (b : Buffer)
    (hfit : p.length ≤ max_size) (e : Exn) :
    (∃ q : Query, cut b p e = .ok q ∧ q.wire = m) ↔ m.length ≤ 55457 := by
  have e₁ : message_header.wire_size = 12 := rfl
  rw [← unpad_iff hp (slice_write_same b 0 p)]
  constructor
  · rintro ⟨q, h, hwire⟩
    rw [cut, Result.bind_eq_ok] at h
    obtain ⟨d, hd, h⟩ := h
    split_ifs at h
    obtain ⟨hbytes, hsize⟩ := eq_of_set_size h
    refine ⟨d, hd, ?_⟩
    rw [← hwire, Query.wire, hbytes, hsize]
  · rintro ⟨d, hd, hslice⟩
    have hdlen : d = m.length := by
      have := congrArg List.length hslice
      rwa [slice_length] at this
    have hple := hp.length_le
    have hlt := detail.find_end_lt (by omega) hd
    refine ⟨⟨write b 0 p, d, by omega⟩, ?_, hslice⟩
    rw [cut, hd, Result.ok_bind, if_neg (by omega), set_size_eq_ok _ (by omega)]

/-! ## Keys -/

namespace encryptor_data

/-- The key the client shares with the server in the session of a nonce. -/
def session_key (S : Sodium) (d : encryptor_data) (n : nonce) : Option Cdns.secretkey :=
  if d.ephemeral_keys = false then some d.nmkey
  else (d.box S).beforenm d.publickey (d.eph_secretkey S n)

/-- The public key the client puts in the header. -/
def header_key (S : Sodium) (d : encryptor_data) (n : nonce) : pubkey :=
  if d.ephemeral_keys = false then d.publickey else S.scalarmult_base (d.eph_secretkey S n)

/-- Persistent or ephemeral, the client seals and opens with the session key. -/
theorem curve_uncurve_eq {S : Sodium} (hS : S.Lawful) {d : encryptor_data}
    (hc : d.cipher ≠ .undefined) (fn : full_nonce) (input : List UInt8) (e : Bool) :
    d.curve_uncurve S fn input e =
      match (d.session_key S fn.first_half).bind
        ((if e then (d.box S).open_easy_afternm else (d.box S).easy_afternm) input fn) with
      | none => .error (crypt_failure "-6")
      | some output => .ok (output, d.header_key S fn.first_half) := by
  have hdef : ¬ (d.cipher ≠ .xsalsa20poly1305 ∧ d.cipher ≠ .xchacha20poly1305) := by
    rintro ⟨h₁, h₂⟩
    cases hd : d.cipher with
    | undefined => exact hc hd
    | xsalsa20poly1305 => exact h₁ hd
    | xchacha20poly1305 => exact h₂ hd
  have hlaw : (d.box S).Lawful S.scalarmult_base := hS.box _
  rw [curve_uncurve, if_neg hdef, session_key, header_key]
  -- persistent keys use `nmkey`, ephemeral ones what `beforenm` gives for them
  cases d.ephemeral_keys with
  | false => rfl
  | true =>
      have hres : (if e then (d.box S).open_easy else (d.box S).easy) input fn d.publickey
            (d.eph_secretkey S fn.first_half) =
          ((d.box S).beforenm d.publickey (d.eph_secretkey S fn.first_half)).bind
            ((if e then (d.box S).open_easy_afternm else (d.box S).easy_afternm) input fn) := by
        cases e with
        | false => exact hlaw.easy_eq _ _ _ _
        | true => exact hlaw.open_easy_eq _ _ _ _
      rewrite [if_neg Bool.true_eq_false.mp, ← hres]
      rfl

end encryptor_data

/-- The client holds the keys of this server: the same construction on both
sides, and what `set_resolver_publickey` computes from the public key of the
server, for ephemeral or for persistent keys of the client. -/
structure Paired (S : Sodium) (client : encryptor_data) (server : server_encryptor_data) :
    Prop where
  defined : client.cipher ≠ .undefined
  same_cipher : client.cipher = .xchacha20poly1305 ↔ server.is_chacha = true
  ephemeral : client.ephemeral_keys = true →
    client.publickey = S.scalarmult_base server.crypt_secretkey
  persistent : client.ephemeral_keys = false →
    client.publickey = S.scalarmult_base client.secretkey ∧
      (client.box S).beforenm (S.scalarmult_base server.crypt_secretkey) client.secretkey
        = some client.nmkey

section Pair

variable {S : Sodium} {client : encryptor_data} {server : server_encryptor_data}

theorem Paired.box_eq (h : Paired S client server) : client.box S = S.box server.is_chacha := by
  have : decide (client.cipher = .xchacha20poly1305) = server.is_chacha := by
    rw [Bool.eq_iff_iff, decide_eq_true_iff]
    exact h.same_cipher
  rw [encryptor_data.box, this]

/-- Both sides compute the same session key. -/
theorem Paired.session_key_eq (h : Paired S client server) (hS : S.Lawful) (n : nonce) :
    (S.box server.is_chacha).beforenm (client.header_key S n) server.crypt_secretkey
      = client.session_key S n := by
  have hlaw := hS.box server.is_chacha
  rw [encryptor_data.header_key, encryptor_data.session_key]
  by_cases he : client.ephemeral_keys = false
  · obtain ⟨hpk, hnm⟩ := h.persistent he
    rw [if_pos he, if_pos he, hpk, hlaw.agree, ← h.box_eq, hnm]
  · rw [if_neg he, if_neg he, hlaw.agree, h.ephemeral (by simpa using he), h.box_eq]

end Pair

/-- Sealing does not fail on a message that fits into a packet. -/
def Box.Seals (B : Box) : Prop :=
  ∀ m n k, m.length ≤ 65535 → ∃ c, B.easy_afternm m n k = some c

/-! ## An instance of the assumptions

Nothing secret: a box that appends a tag, and a key exchange that adds the keys.
It satisfies everything that is assumed of the library. -/

/-- The message without its tag. -/
def dropTag (t : UInt8) (c : List UInt8) : Option (List UInt8) :=
  if 16 ≤ c.length ∧ c.drop (c.length - 16) = List.replicate 16 t
  then some (c.take (c.length - 16)) else none

/-- A box that seals with a tag of equal bytes. -/
def Box.tagged (t : UInt8) : Box where
  beforenm := fun pk sk => some ⟨List.zipWith (· + ·) pk.bytes sk.bytes, by
    rw [List.length_zipWith, pk.length_eq, sk.length_eq, min_self]⟩
  easy_afternm := fun m _ _ => some (m ++ List.replicate 16 t)
  open_easy_afternm := fun c _ _ => dropTag t c
  easy := fun m _ _ _ => some (m ++ List.replicate 16 t)
  open_easy := fun c _ _ _ => dropTag t c

theorem Box.tagged_lawful (t : UInt8) : (Box.tagged t).Lawful id where
  open_seal := by
    intro m n k c h
    obtain rfl : m ++ List.replicate 16 t = c := Option.some.inj h
    have hlen : (m ++ List.replicate 16 t).length - 16 = m.length := by simp
    show dropTag t (m ++ List.replicate 16 t) = some m
    rw [dropTag, hlen, List.drop_left, List.take_left, if_pos ⟨by simp, rfl⟩]
  seal_length := by
    intro m n k c h
    obtain rfl : m ++ List.replicate 16 t = c := Option.some.inj h
    simp [crypto_box_MACBYTES]
  open_length := by
    intro c n k m h
    change dropTag t c = some m at h
    rw [dropTag] at h
    split_ifs at h with hc
    rw [← Option.some.inj h, List.length_take, crypto_box_MACBYTES]
    omega
  easy_eq := fun _ _ _ _ => rfl
  open_easy_eq := fun _ _ _ _ => rfl
  agree := by
    intro a b
    show some _ = some _
    congr 2
    exact List.zipWith_comm_of_comm fun x y => UInt8.add_comm x y

theorem Box.tagged_seals (t : UInt8) : (Box.tagged t).Seals := fun _ _ _ _ => ⟨_, rfl⟩

/-- The instance: the two constructions use different tags. -/
def Sodium.tagged : Sodium where
  salsa := Box.tagged 1
  chacha := Box.tagged 2
  stream := fun len _ _ => Block.zero len
  scalarmult_base := id
  sign_open := fun m _ => if 64 ≤ m.length then some (m.drop 64) else none

theorem Sodium.tagged_lawful : Sodium.tagged.Lawful :=
  ⟨Box.tagged_lawful 1, Box.tagged_lawful 2⟩

theorem Sodium.tagged_seals (chacha : Bool) : (Sodium.tagged.box chacha).Seals := by
  unfold Sodium.box
  split_ifs
  · exact Box.tagged_seals 2
  · exact Box.tagged_seals 1

/-- A client with ephemeral keys that has adopted the public key of
`sampleServer`. -/
def sampleClient : encryptor_data where
  magic_query := Block.zero 8
  publickey := Block.zero 32
  secretkey := Block.zero 32
  nmkey := Block.zero 32
  nonce_pad := Block.zero 12
  cipher := .xsalsa20poly1305
  ephemeral_keys := true

/-- A server, as it is built from a key pair. -/
def sampleServer : server_encryptor_data := .of_keys (Block.zero 32) (Block.zero 32)

theorem sample_paired : Paired Sodium.tagged sampleClient sampleServer where
  defined := by decide
  same_cipher := by decide
  ephemeral := fun _ => rfl
  persistent := fun h => absurd h (by decide)

theorem sample_session_key (n : nonce) :
    ∃ key, sampleClient.session_key Sodium.tagged n = some key := ⟨_, rfl⟩

/-- A message with one question in its header, of any size. -/
def sampleMessage (size : ℕ) (h : size ≤ max_size) : Query :=
  ⟨fun i => if i = 5 then 1 else 0, size, h⟩

/-! ## From the client to the server -/

/-- A query on the wire: the header, and the sealed padded message `p`. -/
structure SealedQuery (S : Sodium) (client : encryptor_data) (n : nonce) (p : List UInt8)
    (q : Query) : Prop where
  size_eq : q.size = p.length + 68
  magic_eq : slice q.bytes 0 8 = client.magic_query.bytes
  key_eq : slice q.bytes 8 32 = (client.header_key S n).bytes
  nonce_eq : slice q.bytes 40 12 = n.bytes
  boxed : ∃ key, client.session_key S n = some key ∧
    (client.box S).easy_afternm p ⟨n, Block.zero 12⟩ key = some (slice q.bytes 52 (p.length + 16))

/-- The shifted and padded message, ready to be sealed. -/
theorem shift_pad_spec (b : Buffer) (base len max_len : ℕ) (rnd : ℕ → ℕ)
    (hshift : base + len ≤ max_size) (hfit : len + 8 ≤ max_len → base + max_len ≤ max_size)
    (hroom : len + 8 ≤ max_len ↔ len ≤ 55457) :
    ∃ b' p, (put b base (slice b 0 len) >>= fun b => detail.pad_buffer b base len max_len rnd)
        = .ok (b', p.length) ∧ Padded (slice b 0 len) p ∧ slice b' base p.length = p ∧
        (len ≤ 55457 → p.length ≤ max_len) := by
  have hput : put b base (slice b 0 len) = .ok (write b base (slice b 0 len)) := by
    apply put_eq_ok
    rw [slice_length]
    exact hshift
  have hmsg : slice (write b base (slice b 0 len)) base len = slice b 0 len := by
    have := slice_write_same b base (slice b 0 len)
    rwa [slice_length] at this
  rw [hput, Result.ok_bind]
  -- there is room for a marker up to 55457 bytes, and nothing is padded beyond
  by_cases hlen : len ≤ 55457
  · obtain ⟨b', z, hpad, hle, hslice⟩ :=
      detail.pad_buffer_spec (write b base (slice b 0 len)) rnd (hroom.mpr hlen)
        (hfit (hroom.mpr hlen))
    have hplen : (slice b 0 len ++ 0x80 :: List.replicate z (0 : UInt8)).length = len + (z + 1) := by
      simp
    refine ⟨b', slice b 0 len ++ 0x80 :: List.replicate z 0, ?_, ?_, ?_, ?_⟩
    · rw [hpad, hplen]
    · exact .marked z (by rw [slice_length]; exact hlen)
    · rw [hplen, hslice, hmsg]
    · rw [hplen]
      exact fun _ => hle
  · refine ⟨write b base (slice b 0 len), slice b 0 len, ?_, ?_, ?_, fun h => absurd h hlen⟩
    · rw [detail.pad_buffer_full _ _ (not_le.mp (fun h => hlen (hroom.mp h))), slice_length]
    · exact .bare (by rw [slice_length]; omega)
    · rw [slice_length, hmsg]

/-- A padded message is not longer than the limit, and a bare one is the message. -/
theorem Padded.length_bound {b : Buffer} {len max_len : ℕ} {p : List UInt8}
    (hp : Padded (slice b 0 len) p) (hle : len ≤ 55457 → p.length ≤ max_len) :
    p.length ≤ max max_len len := by
  cases hp with
  | marked z h =>
      rw [slice_length] at h
      exact le_trans (hle h) (le_max_left _ _)
  | bare h =>
      rw [slice_length]
      exact le_max_right _ _

/-- What `curve` sends. -/
theorem client_curve_spec {S : Sodium} (hS : S.Lawful) {client : encryptor_data}
    (hc : client.cipher ≠ .undefined) {rnd : ℕ → ℕ} {n : nonce} {q q' : Query}
    (h : client.curve S rnd n q = .ok q') :
    ∃ p, Padded q.wire p ∧ SealedQuery S client n p q' := by
  have e₁ : detail.query_head_size = 68 := rfl
  have e₂ : detail.query_header_size = 52 := rfl
  have e₃ : max_size = 55535 := rfl
  rw [encryptor_data.curve] at h
  dsimp only at h
  split_ifs at h with hspace
  obtain ⟨b, p, hspec, hp, hslice, hle⟩ := shift_pad_spec q.bytes detail.query_header_size q.size
    (min (3 * (q.size + detail.query_head_size)) max_size - detail.query_head_size - 2) rnd
    (by omega) (by omega) (by omega)
  rw [← bind_assoc, hspec, Result.ok_bind] at h
  dsimp only at h
  rw [encryptor_data.curve_uncurve_eq hS hc, hslice, if_neg (by simp)] at h
  refine ⟨p, hp, ?_⟩
  cases hk : client.session_key S n with
  | none =>
      rw [hk] at h
      exact absurd h (by simp)
  | some key =>
      rw [hk, Option.bind_some] at h
      cases hseal : (client.box S).easy_afternm p ⟨n, Block.zero 12⟩ key with
      | none =>
          rw [hseal] at h
          exact absurd h (by simp)
      | some c =>
          rw [hseal] at h
          simp only [Result.ok_bind] at h
          have hclen : c.length = p.length + 16 := (hS.box _).seal_length hseal
          rw [Result.bind_eq_ok] at h
          obtain ⟨b₁, hb₁, h⟩ := h
          rw [Result.bind_eq_ok] at h
          obtain ⟨b₂, hb₂, h⟩ := h
          split_ifs at h
          obtain ⟨hbytes, hsize⟩ := eq_of_set_size h
          rw [eq_write_of_put hb₁] at hb₂
          have hb₂ := eq_write_of_put hb₂
          obtain ⟨h₁, h₂, h₃⟩ := slice_write_header (write b detail.query_header_size c)
            client.magic_query.bytes (client.header_key S n).bytes n.bytes
          simp only [Block.length_eq] at h₁ h₂ h₃
          rw [← hb₂, ← hbytes] at h₁ h₂ h₃
          refine ⟨hsize, h₁, h₂, h₃, key, hk, ?_⟩
          -- the header ends where the sealed message starts
          have hbox : slice q'.bytes 52 (p.length + 16) = c := by
            rw [hbytes, hb₂, slice_write_disjoint _ (Or.inr (by simp [Block.length_eq])), ← hclen]
            exact slice_write_same b 52 c
          rw [hbox]
          exact hseal

/-- `curve` accepts every query of at most 55467 bytes. -/
theorem client_curve_returns {S : Sodium} (hS : S.Lawful) {client : encryptor_data}
    (hc : client.cipher ≠ .undefined) (hseals : (client.box S).Seals) {n : nonce}
    {key : secretkey} (hkey : client.session_key S n = some key) (rnd : ℕ → ℕ) {q : Query}
    (hq : q.size ≤ 55467) : ∃ q', client.curve S rnd n q = .ok q' := by
  have e₁ : detail.query_head_size = 68 := rfl
  have e₂ : detail.query_header_size = 52 := rfl
  have e₃ : max_size = 55535 := rfl
  have hlaw : (client.box S).Lawful S.scalarmult_base := hS.box _
  obtain ⟨b, p, hspec, hp, hslice, hle⟩ := shift_pad_spec q.bytes detail.query_header_size q.size
    (min (3 * (q.size + detail.query_head_size)) max_size - detail.query_head_size - 2) rnd
    (by omega) (by omega) (by omega)
  have hplen := hp.length_bound hle
  obtain ⟨c, hseal⟩ := hseals p ⟨n, Block.zero 12⟩ key (by omega)
  have hclen : c.length = p.length + 16 := hlaw.seal_length hseal
  have hput₁ : put b detail.query_header_size c = .ok (write b detail.query_header_size c) :=
    put_eq_ok b (by omega)
  have hput₂ : put (write b detail.query_header_size c) 0
      (client.magic_query.bytes ++ (client.header_key S n).bytes ++ n.bytes)
      = .ok (write (write b detail.query_header_size c) 0
        (client.magic_query.bytes ++ (client.header_key S n).bytes ++ n.bytes)) := by
    apply put_eq_ok
    simp only [List.length_append, Block.length_eq]
    omega
  -- the test for space passes, since three times the size is not less than it
  have hspace : ¬ (min (3 * (q.size + detail.query_head_size)) max_size < q.size ∨
      min (3 * (q.size + detail.query_head_size)) max_size - q.size < detail.query_head_size) := by
    have hmin : q.size + 68 ≤ min (3 * (q.size + detail.query_head_size)) max_size :=
      le_min (by omega) (by omega)
    generalize min (3 * (q.size + detail.query_head_size)) max_size = max_len at hmin
    omega
  rw [encryptor_data.curve]
  dsimp only
  rw [if_neg hspace, ← bind_assoc, hspec, Result.ok_bind]
  dsimp only
  rw [encryptor_data.curve_uncurve_eq hS hc, hslice, if_neg (by simp), hkey, Option.bind_some,
    hseal]
  simp only [Result.ok_bind]
  rw [hput₁, Result.ok_bind, hput₂, Result.ok_bind, if_neg (by omega),
    set_size_eq_ok _ (by omega)]
  exact ⟨_, rfl⟩

/-- What the server makes of a sealed query: it opens it, and cuts the padding. -/
theorem server_uncurve_eq {S : Sodium} (hS : S.Lawful) {client : encryptor_data}
    {server : server_encryptor_data} (hpair : Paired S client server) {n : nonce}
    {p : List UInt8} {q : Query} (hp : 0 < p.length) (h : SealedQuery S client n p q) :
    ∃ key, server.uncurve S q =
      (cut q.bytes p (.runtime_error "too short decrypted DNS message") >>= fun q' =>
        .ok (q', key, n)) := by
  have e₁ : detail.query_head_size = 68 := rfl
  have e₂ : detail.query_header_size = 52 := rfl
  have e₃ : max_size = 55535 := rfl
  obtain ⟨hsize, -, hkey, hnonce, key, hsk, hbox⟩ := h
  have hle := q.size_le
  refine ⟨key, ?_⟩
  -- what the server reads from the header is what the client wrote there
  have hpk : Block.ofList 32 (slice q.bytes 8 32) = client.header_key S n := by
    apply Block.ext
    rw [Block.ofList_bytes (slice_length _ _ _), hkey]
  have hn : Block.ofList 12 (slice q.bytes 40 12) = n := by
    apply Block.ext
    rw [Block.ofList_bytes (slice_length _ _ _), hnonce]
  -- the keys are paired, so the box opens
  have hopen := (hS.box server.is_chacha).open_seal (hpair.box_eq ▸ hbox)
  have hlen : q.size - detail.query_header_size = p.length + 16 := by omega
  have hlen' : q.size - detail.query_head_size = p.length := by omega
  rw [server_encryptor_data.uncurve]
  dsimp only
  rw [if_neg (by omega), hpk, hpair.session_key_eq hS, hsk]
  dsimp only
  rw [hn, hlen, hlen', e₂, hopen]
  dsimp only
  rw [put_eq_ok _ (by omega), Result.ok_bind, cut]
  cases detail.find_end (write q.bytes 0 p) p.length with
  | error e => rfl
  | ok d =>
      simp only [Result.ok_bind]
      split_ifs <;> rfl

/-- The server restores what was padded exactly when its end was marked. -/
theorem server_restores_iff {S : Sodium} (hS : S.Lawful) {client : encryptor_data}
    {server : server_encryptor_data} (hpair : Paired S client server) {n : nonce}
    {m p : List UInt8} {q : Query} (hm : 12 ≤ m.length) (hp : Padded m p)
    (h : SealedQuery S client n p q) :
    (∃ q' key, server.uncurve S q = .ok (q', key, n) ∧ q'.wire = m) ↔ m.length ≤ 55457 := by
  have hple := hp.length_le
  have hfit : p.length ≤ max_size := by
    have h₁ := h.size_eq
    have h₂ := q.size_le
    omega
  obtain ⟨key, huncurve⟩ := server_uncurve_eq hS hpair (by omega) h
  rw [← cut_iff hm hp q.bytes hfit (.runtime_error "too short decrypted DNS message"), huncurve]
  constructor
  · rintro ⟨q', key', hq', hwire⟩
    obtain ⟨q₁, hq₁, heq⟩ := Result.bind_eq_ok.mp hq'
    obtain ⟨rfl, -⟩ := Prod.mk.inj (Except.ok.inj heq)
    exact ⟨q₁, hq₁, hwire⟩
  · rintro ⟨q', hq', hwire⟩
    exact ⟨q', key, by rw [hq', Result.ok_bind], hwire⟩

/-- **The round trip from the client to the server.** Whatever query of at least
12 bytes `encryptor::curve` accepts, for ephemeral and for persistent keys, every
padding and either cipher: the server gets back the message and the nonce of the
client exactly when the message has at most 55457 bytes. -/
theorem client_to_server_iff {S : Sodium} (hS : S.Lawful) {client : encryptor_data}
    {server : server_encryptor_data} (hpair : Paired S client server) (rnd : ℕ → ℕ) (n : nonce)
    {q q' : Query} (hq : 12 ≤ q.size) (hcurve : client.curve S rnd n q = .ok q') :
    (∃ q'' key, server.uncurve S q' = .ok (q'', key, n) ∧ q''.wire = q.wire) ↔
      q.size ≤ 55457 := by
  obtain ⟨p, hp, hsealed⟩ := client_curve_spec hS hpair.defined hcurve
  have := server_restores_iff hS hpair (by rw [Query.wire_length]; exact hq) hp hsealed
  rwa [Query.wire_length] at this

/-- A short query comes back. -/
theorem client_to_server_iff_short :
    ∃ q', sampleClient.curve Sodium.tagged (fun _ => 0) (Block.zero 12)
        (sampleMessage 132 (by decide)) = .ok q' ∧
      ∃ q'' key, sampleServer.uncurve Sodium.tagged q' = .ok (q'', key, Block.zero 12) ∧
        q''.wire = (sampleMessage 132 (by decide)).wire := by
  obtain ⟨key, hkey⟩ := sample_session_key (Block.zero 12)
  obtain ⟨q', hq'⟩ := client_curve_returns Sodium.tagged_lawful sample_paired.defined
    (Sodium.tagged_seals _) hkey (fun _ => 0) (q := sampleMessage 132 (by decide)) (by decide)
  exact ⟨q', hq', (client_to_server_iff Sodium.tagged_lawful sample_paired _ _ (by decide) hq').mpr
    (by decide)⟩

/-- A query of 55458 bytes is accepted, and does not come back. -/
theorem client_to_server_unmarked :
    ∃ q', sampleClient.curve Sodium.tagged (fun _ => 0) (Block.zero 12)
        (sampleMessage 55458 (by decide)) = .ok q' ∧
      ¬ ∃ q'' key, sampleServer.uncurve Sodium.tagged q' = .ok (q'', key, Block.zero 12) ∧
        q''.wire = (sampleMessage 55458 (by decide)).wire := by
  obtain ⟨key, hkey⟩ := sample_session_key (Block.zero 12)
  obtain ⟨q', hq'⟩ := client_curve_returns Sodium.tagged_lawful sample_paired.defined
    (Sodium.tagged_seals _) hkey (fun _ => 0) (q := sampleMessage 55458 (by decide)) (by decide)
  obtain ⟨p, hp, hsealed⟩ := client_curve_spec Sodium.tagged_lawful sample_paired.defined hq'
  refine ⟨q', hq', fun h => ?_⟩
  have hlen := (server_restores_iff Sodium.tagged_lawful sample_paired
    (by rw [Query.wire_length]; decide) hp hsealed).mp h
  rw [Query.wire_length] at hlen
  exact absurd hlen (by decide)

/-! ## From the server to the client -/

/-- A response on the wire: the header, and the sealed padded message `p`. -/
structure SealedResponse (B : Box) (n server_nonce : nonce) (key : secretkey) (p : List UInt8)
    (r : Query) : Prop where
  size_eq : r.size = p.length + 48
  magic_eq : slice r.bytes 0 8 = detail.magic_response.bytes
  client_nonce_eq : slice r.bytes 8 12 = n.bytes
  server_nonce_eq : slice r.bytes 20 12 = server_nonce.bytes
  boxed : B.easy_afternm p ⟨n, server_nonce⟩ key = some (slice r.bytes 32 (p.length + 16))

/-- What `curve` sends, when the shifted message fits into the storage. -/
theorem server_curve_spec {S : Sodium} (hS : S.Lawful) {server : server_encryptor_data}
    (hseals : (S.box server.is_chacha).Seals) (sn n : nonce) (key : secretkey) {r : Query}
    (hr : r.size ≤ 55487) :
    ∃ p r', server.curve S sn n key r = .ok r' ∧ Padded r.wire p ∧
      SealedResponse (S.box server.is_chacha) n sn key p r' := by
  have e₁ : detail.response_head_size = 48 := rfl
  have e₂ : detail.response_header_size = 32 := rfl
  have e₃ : max_size = 55535 := rfl
  have e₄ : max detail.response_head_size detail.query_head_size = 68 := rfl
  have e₅ : crypto_box_MACBYTES = 16 := rfl
  obtain ⟨b, p, hspec, hp, hslice, hle⟩ := shift_pad_spec r.bytes
    (detail.response_header_size + crypto_box_MACBYTES) r.size
    (min max_size ((r.size + max detail.response_head_size detail.query_head_size) * 3)
      - max detail.response_head_size detail.query_head_size - 2)
    (fun ub => server_encryptor_data.crypto_random S n server.crypt_secretkey % ub)
    (by omega) (by omega) (by omega)
  have hplen := hp.length_bound hle
  -- sealing adds the MAC, and the header goes in front of it
  obtain ⟨c, hseal⟩ := hseals p ⟨n, sn⟩ key (by omega)
  have hclen : c.length = p.length + 16 := (hS.box _).seal_length hseal
  have hput₁ : put b 32 c = .ok (write b 32 c) := put_eq_ok b (by omega)
  have hput₂ : put (write b 32 c) 0 (detail.magic_response.bytes ++ n.bytes ++ sn.bytes)
      = .ok (write (write b 32 c) 0 (detail.magic_response.bytes ++ n.bytes ++ sn.bytes)) := by
    apply put_eq_ok
    simp only [List.length_append, Block.length_eq]
    omega
  obtain ⟨h₁, h₂, h₃⟩ := slice_write_header (write b 32 c) detail.magic_response.bytes n.bytes
    sn.bytes
  simp only [Block.length_eq] at h₁ h₂ h₃
  refine ⟨p, ⟨write (write b 32 c) 0 (detail.magic_response.bytes ++ n.bytes ++ sn.bytes),
    p.length + 48, by omega⟩, ?_, hp, rfl, h₁, h₂, h₃, ?_⟩
  · rw [server_encryptor_data.curve]
    dsimp only
    rw [← bind_assoc, hspec, Result.ok_bind]
    dsimp only
    rw [hslice, hseal]
    dsimp only
    rw [e₂, hput₁, Result.ok_bind, hput₂, Result.ok_bind, e₁, set_size_eq_ok]
  · -- the header ends where the sealed message starts
    dsimp only
    rw [slice_write_disjoint _ (Or.inr (by simp [Block.length_eq])), ← hclen,
      slice_write_same b 32 c, hseal]

/-- A longer message is written behind the end of the storage. -/
theorem server_curve_overrun (S : Sodium) (server : server_encryptor_data) (sn n : nonce)
    (key : secretkey) {r : Query} (hr : 55487 < r.size) :
    server.curve S sn n key r = .error .overrun := by
  have e₂ : detail.response_header_size = 32 := rfl
  have e₃ : max_size = 55535 := rfl
  have e₅ : crypto_box_MACBYTES = 16 := rfl
  have hput : put r.bytes (detail.response_header_size + crypto_box_MACBYTES)
      (slice r.bytes 0 r.size) = .error .overrun := by
    rw [put, if_neg (by rw [slice_length]; omega)]
  rw [server_encryptor_data.curve]
  dsimp only
  rw [hput, Result.error_bind]

/-- What the client makes of a sealed response. -/
theorem client_uncurve_eq {S : Sodium} (hS : S.Lawful) {client : encryptor_data}
    (hc : client.cipher ≠ .undefined) {n sn : nonce} {key : secretkey}
    (hkey : client.session_key S n = some key) {p : List UInt8} {r : Query} (hp : 0 < p.length)
    (h : SealedResponse (client.box S) n sn key p r) :
    client.uncurve S n r = cut r.bytes p (crypt_failure "decrypted message is not DNS") := by
  have e₂ : detail.response_header_size = 32 := rfl
  have e₃ : max_size = 55535 := rfl
  have e₅ : crypto_box_MACBYTES = 16 := rfl
  obtain ⟨hsize, hmagic, hn, hsn, hbox⟩ := h
  have hle := r.size_le
  -- the nonces in the header are those the server sealed with
  have hfn : (⟨Block.ofList 12 (slice r.bytes 8 12), Block.ofList 12 (slice r.bytes 20 12)⟩
      : full_nonce) = ⟨n, sn⟩ := by
    apply full_nonce.ext
    · apply Block.ext
      rw [Block.ofList_bytes (slice_length _ _ _), hn]
    · apply Block.ext
      rw [Block.ofList_bytes (slice_length _ _ _), hsn]
  have hlaw : (client.box S).Lawful S.scalarmult_base := hS.box _
  have hopen := hlaw.open_seal hbox
  have hlen : r.size - detail.response_header_size = p.length + 16 := by omega
  have hlen' : p.length + 16 - crypto_box_MACBYTES = p.length := by omega
  rw [encryptor_data.uncurve]
  dsimp only
  rw [if_neg (by omega), if_neg (by rw [hmagic]; simp), if_neg (by rw [hn]; simp), hfn, hlen, hlen',
    encryptor_data.curve_uncurve_eq hS hc, if_pos rfl, hkey, Option.bind_some, e₂]
  rw [hopen]
  simp only [Result.ok_bind]
  rw [put_eq_ok _ (by omega), Result.ok_bind]
  rfl

/-- **The round trip from the server to the client.** For a response of at least
12 bytes, every nonce and every padding: `server::encryptor::curve` throws, or
stays inside the storage and the client of the session restores the response,
exactly when the response has at most 55457 bytes. -/
theorem server_to_client_iff {S : Sodium} (hS : S.Lawful) {client : encryptor_data}
    {server : server_encryptor_data} (hseals : (S.box server.is_chacha).Seals)
    (hc : client.cipher ≠ .undefined) (hbox : client.box S = S.box server.is_chacha)
    (sn : nonce) {n : nonce} {key : secretkey} (hkey : client.session_key S n = some key)
    {r : Query} (hr : 12 ≤ r.size) :
    ((∃ e, e ≠ .overrun ∧ server.curve S sn n key r = .error e) ∨
      ∃ r' r'', server.curve S sn n key r = .ok r' ∧ client.uncurve S n r' = .ok r'' ∧
        r''.wire = r.wire) ↔ r.size ≤ 55457 := by
  -- up to 55487 bytes the server stays inside, but beyond 55457 no end is marked
  by_cases hfit : r.size ≤ 55487
  · obtain ⟨p, r', hcurve, hp, hsealed⟩ := server_curve_spec hS hseals sn n key hfit
    have hple := hp.length_le
    have hpsize := hsealed.size_eq
    have hrsize := r'.size_le
    rw [Query.wire_length] at hple
    rw [← hbox] at hsealed
    have hun := client_uncurve_eq hS hc hkey (by omega) hsealed
    have hcut := cut_iff (by rw [Query.wire_length]; exact hr) hp r'.bytes (by omega)
      (crypt_failure "decrypted message is not DNS")
    rw [Query.wire_length, ← hun] at hcut
    rw [← hcut, hcurve]
    constructor
    · rintro (⟨e, -, he⟩ | ⟨r₁, r'', hr₁, h⟩)
      · exact absurd he (by simp)
      · obtain rfl := Except.ok.inj hr₁
        exact ⟨r'', h⟩
    · rintro ⟨r'', h⟩
      exact Or.inr ⟨r', r'', rfl, h⟩
  · rw [server_curve_overrun S server sn n key (by omega)]
    constructor
    · rintro (⟨e, hne, he⟩ | ⟨r₁, r'', hr₁, -⟩)
      · exact absurd (Except.error.inj he).symm hne
      · exact absurd hr₁ (by simp)
    · intro h
      omega

/-- A response of 132 bytes comes back. -/
theorem server_to_client_iff_short :
    (∃ e, e ≠ .overrun ∧ sampleServer.curve Sodium.tagged (Block.zero 12) (Block.zero 12)
        (Block.zero 32) (sampleMessage 132 (by decide)) = .error e) ∨
      ∃ r' r'', sampleServer.curve Sodium.tagged (Block.zero 12) (Block.zero 12) (Block.zero 32)
          (sampleMessage 132 (by decide)) = .ok r' ∧
        sampleClient.uncurve Sodium.tagged (Block.zero 12) r' = .ok r'' ∧
        r''.wire = (sampleMessage 132 (by decide)).wire := by
  have hkey : sampleClient.session_key Sodium.tagged (Block.zero 12) = some (Block.zero 32) := rfl
  exact (server_to_client_iff Sodium.tagged_lawful (Sodium.tagged_seals _) sample_paired.defined
    sample_paired.box_eq (Block.zero 12) hkey (by decide)).mpr (by decide)

/-- A response of 55533 bytes is shifted to behind the end of the storage. -/
theorem server_to_client_overrun :
    sampleServer.curve Sodium.tagged (Block.zero 12) (Block.zero 12) (Block.zero 32)
      (sampleMessage 55533 (by decide)) = .error .overrun :=
  server_curve_overrun _ _ _ _ _ (by decide)

end Cdns
