/-
`network::address` (`network/address.hxx`, `network/srcz/address.cpp`).

An address is a `sockaddr_in` or a `sockaddr_in6`: its family, its bytes and its
port. `inet_pton` and `inet_ntop` belong to the C library. `Inet` collects them
with the one thing that is used of them, the length of what `inet_pton` writes.

The constructor from the bytes of a record copies them into a local structure
that is not cleared. A shorter record leaves the bytes behind it as they were, and
a longer one is copied past the end of the structure, which is an overrun here.
-/
import Cdns.Exn
import Cdns.Lib.Buffer
import Cdns.Str

set_option autoImplicit false

namespace Cdns

open Lib.Storage

/-- `enum class inet`. -/
inductive inet where
  | ipv4
  | ipv6
  deriving Repr, DecidableEq

namespace inet

/-- `sizeof (in_addr)` and `sizeof (in6_addr)`. -/
def size : inet → ℕ
  | ipv4 => 4
  | ipv6 => 16

/-- The bytes of `sockaddr_in` from `sin_addr` on, and of `sockaddr_in6` from
`sin6_addr` on. -/
def room : inet → ℕ
  | ipv4 => 12
  | ipv6 => 20

end inet

/-- `enum class proto`. -/
inductive proto where
  | udp
  | tcp
  deriving Repr, DecidableEq

/-- The functions of the C library. -/
structure Inet where
  /-- `inet_pton`: the bytes it writes when it returns 1 -/
  pton : inet → Str → Option (List UInt8)
  pton_length : ∀ af s l, pton af s = some l → l.length = af.size
  /-- `inet_ntop` -/
  ntop : inet → List UInt8 → Str

/-- `network::address`. -/
structure address where
  inet : Cdns.inet
  ip : List UInt8
  port : ℕ
  ip_length : ip.length = inet.size

/-! ## Text -/

namespace detail

/-- `str.rfind (ch)`. -/
def rfind (ch : Char) (str : Str) : Option ℕ :=
  (str.reverse.idxOf? ch).map fun i => str.length - 1 - i

/-- `struct ip_port_t`. -/
structure ip_port_t where
  ip : Str
  port : Str
  ipv6 : Bool

/-- `detail::split`. -/
def split (ip_port : Str) : Result ip_port_t :=
  let nsr := rfind ':' ip_port
  let ns := ip_port.idxOf? ':'
  match ip_port with
  | [] =>
      .error (.logic_error
        "basic_string::at: __n (which is 0) >= this->size() (which is 0)")
  | c :: _ =>
      let bracket := c == '['
      let ipv6 := (nsr.isSome && ns.isSome && ns != nsr) || bracket
      if ipv6 then
        if bracket then
          match ip_port.idxOf? ']' with
          | none => .error (.runtime_error "invalid IPv6 address:port")
          | some ne =>
              if ne = 1 then .error (.runtime_error "invalid IPv6 address:port")
              else
                let port := if nsr = some (1 + ne) then ip_port.drop (2 + ne) else []
                .ok ⟨(ip_port.drop 1).take (ne - 1), port, ipv6⟩
        else .ok ⟨ip_port, [], ipv6⟩
      else
        match nsr with
        | some nsr => .ok ⟨ip_port.take nsr, ip_port.drop (1 + nsr), ipv6⟩
        | none => .ok ⟨ip_port, [], ipv6⟩

/-- `std::strtol (str, &end, 10)`: the number, and the text `end` points to. A
`long` has 64 bits. -/
def strtol (str : Str) : ℤ × Str :=
  let s := str.dropWhile Str.is_space
  let neg := s.head? == some '-'
  let s := if s.head? = some '-' ∨ s.head? = some '+' then s.drop 1 else s
  let digits := s.takeWhile Char.isDigit
  if digits = [] then (0, str)
  else
    let n : ℤ := (digits.foldl (fun n c => 10 * n + (c.toNat - 48)) 0 : ℕ)
    (max (-2 ^ 63) (min (2 ^ 63 - 1) (if neg then -n else n)), s.dropWhile Char.isDigit)

/-- `detail::str2u16`. -/
def str2u16 (str : Str) : Result ℕ :=
  let (val, rest) := strtol (Str.c_str str)
  if val = -2 ^ 63 ∨ val = 2 ^ 63 - 1 then
    .error (.system_error "Failed to convert string to number")
  else if rest ≠ [] ∧ rest.head? ≠ some ' ' then .error (.runtime_error "invalid number syntax")
  else if 0 > val ∨ 65535 < val then .error (.runtime_error "number out of range")
  else .ok val.toNat

/-- `detail::make_address`. -/
def make_address (net : Inet) (af : inet) (ip_port : Str) (port : ℕ) : Result address :=
  match h : net.pton af (Str.c_str ip_port) with
  | some ip => .ok ⟨af, ip, port, net.pton_length af _ ip h⟩
  | none => .error (.runtime_error ("invalid address: " ++ String.ofList ip_port))

end detail

namespace address

/-- `address::address (ip_port, port)`. -/
def of_text (net : Inet) (ip_port : Str) (port : ℕ) : Result address := do
  let a ← detail.split ip_port
  let port ← if a.port = [] then .ok port else detail.str2u16 a.port
  detail.make_address net (if a.ipv6 then .ipv6 else .ipv4) a.ip port

/-! ## Bytes -/

/-- `address::address (af, addr, port)`; `stack` is what the local structure holds
from its address on before the copy. -/
def of_bytes (stack : Buffer) (af : Cdns.inet) (addr : List UInt8) (port : ℕ) :
    Result address :=
  if 4 > addr.length ∨ 128 < addr.length then .error (.logic_error "Invalid network address size")
  else if addr.length > af.room then .error .overrun
  else .ok ⟨af, slice (write stack 0 addr) 0 af.size, port, slice_length _ _ _⟩

/-- Which vectors the constructor takes. -/
theorem of_bytes_returns (stack : Buffer) (af : Cdns.inet) (addr : List UInt8) (port : ℕ) :
    (of_bytes stack af addr port).returns ↔ 4 ≤ addr.length ∧ addr.length ≤ af.room := by
  have hroom : af.room ≤ 20 := by
    cases af with
    | ipv4 => decide
    | ipv6 => decide
  rw [of_bytes]
  split_ifs with h₁ h₂
  · simp only [Result.not_returns_error, false_iff]
    omega
  · simp only [Result.not_returns_error, false_iff]
    omega
  · simp only [Result.returns_ok, true_iff]
    omega

/-- `address::ip`. -/
def ip_text (net : Inet) (a : address) : Str := net.ntop a.inet a.ip

/-- `sin_addr` of the address, taken for a `sockaddr_in` whatever its family is. In a
`sockaddr_in6` these four bytes are the flow information, which is zero in an
address that was made from a text. -/
def sin_addr (a : address) : List UInt8 :=
  match a.inet with
  | .ipv4 => a.ip
  | .ipv6 => [0, 0, 0, 0]

theorem sin_addr_length (a : address) : a.sin_addr.length = 4 := by
  have hlen := a.ip_length
  unfold sin_addr
  split
  · next hf =>
    rw [hf] at hlen
    exact hlen
  · rfl

/-- The data of an answer fits into its length field. -/
theorem sin_addr_length_lt (a : address) : a.sin_addr.length < 65536 := by
  rw [sin_addr_length]
  decide

end address

end Cdns
