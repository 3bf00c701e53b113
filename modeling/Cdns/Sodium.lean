/-
What the program uses of libsodium.

The library is not part of the repository. `Sodium` collects the functions the
program calls, as functions on byte blocks, and `Box.Lawful` says what the
program relies on: opening undoes sealing, a sealed message is 16 bytes longer,
and the two sides of a key exchange compute the same shared key. A nonzero return
code is `none`. The generic `easy` calls are the shared key computation followed
by the corresponding `afternm` call, which is how the library documents them.
-/
import Mathlib.Tactic

set_option autoImplicit false

namespace Cdns

/-! ## Blocks -/

/-- `::crypt::detail::key <n>`: `n` bytes. -/
@[ext] structure Block (n : ℕ) where
  bytes : List UInt8
  length_eq : bytes.length = n

namespace Block

variable {n : ℕ}

instance : DecidableEq (Block n) := fun a b =>
  decidable_of_iff (a.bytes = b.bytes) Block.ext_iff.symm

/-- The first `n` bytes of a list, filled up with zeros. -/
def ofList (n : ℕ) (l : List UInt8) : Block n where
  bytes := (l ++ List.replicate n 0).take n
  length_eq := by simp

theorem ofList_bytes {l : List UInt8} (h : l.length = n) : (ofList n l).bytes = l := by
  show (l ++ List.replicate n 0).take n = l
  rw [← h, List.take_left]

/-- `key::clear`. -/
def zero (n : ℕ) : Block n := ofList n []

end Block

/-- `::crypt::nonce`. -/
abbrev nonce := Block 12

/-- `::crypt::pubkey`. -/
abbrev pubkey := Block 32

/-- `::crypt::secretkey`. -/
abbrev secretkey := Block 32

/-- `::crypt::full_nonce`, as its two halves. -/
@[ext] structure full_nonce where
  first_half : nonce
  second_half : nonce
  deriving DecidableEq

/-- `enum class cipher`. -/
inductive cipher where
  | undefined
  | xsalsa20poly1305
  | xchacha20poly1305
  deriving Repr, DecidableEq

/-! ## The library -/

/-- `crypto_box_MACBYTES`. -/
def crypto_box_MACBYTES : ℕ := 16

/-- One construction: the functions `crypto_box_…` or
`crypto_box_curve25519xchacha20poly1305_…`. -/
structure Box where
  beforenm : pubkey → secretkey → Option secretkey
  easy_afternm : List UInt8 → full_nonce → secretkey → Option (List UInt8)
  open_easy_afternm : List UInt8 → full_nonce → secretkey → Option (List UInt8)
  easy : List UInt8 → full_nonce → pubkey → secretkey → Option (List UInt8)
  open_easy : List UInt8 → full_nonce → pubkey → secretkey → Option (List UInt8)

/-- The functions of libsodium that the program calls. -/
structure Sodium where
  salsa : Box
  chacha : Box
  /-- `crypto_stream` -/
  stream : (len : ℕ) → full_nonce → secretkey → Block len
  /-- `crypto_scalarmult_base` -/
  scalarmult_base : secretkey → pubkey
  /-- `crypto_sign_ed25519_open` -/
  sign_open : List UInt8 → pubkey → Option (List UInt8)

/-- The construction the code picks for a cipher. -/
def Sodium.box (S : Sodium) (chacha : Bool) : Box := if chacha then S.chacha else S.salsa

/-- What the program relies on, for one construction. -/
structure Box.Lawful (B : Box) (base : secretkey → pubkey) : Prop where
  open_seal : ∀ {m n k c}, B.easy_afternm m n k = some c → B.open_easy_afternm c n k = some m
  seal_length : ∀ {m n k c}, B.easy_afternm m n k = some c →
    c.length = m.length + crypto_box_MACBYTES
  open_length : ∀ {c n k m}, B.open_easy_afternm c n k = some m →
    c.length = m.length + crypto_box_MACBYTES
  easy_eq : ∀ m n pk sk, B.easy m n pk sk = (B.beforenm pk sk).bind (B.easy_afternm m n)
  open_easy_eq : ∀ c n pk sk,
    B.open_easy c n pk sk = (B.beforenm pk sk).bind (B.open_easy_afternm c n)
  agree : ∀ a b, B.beforenm (base a) b = B.beforenm (base b) a

/-- Both constructions are as the program expects. -/
structure Sodium.Lawful (S : Sodium) : Prop where
  salsa : S.salsa.Lawful S.scalarmult_base
  chacha : S.chacha.Lawful S.scalarmult_base

theorem Sodium.Lawful.box {S : Sodium} (h : S.Lawful) (chacha : Bool) :
    (S.box chacha).Lawful S.scalarmult_base := by
  unfold Sodium.box
  split_ifs
  · exact h.chacha
  · exact h.salsa

end Cdns
