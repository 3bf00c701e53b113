/-
`dns::query` (`dns/query.hxx`, `dns/srcz/query.cpp`) and the message layout of
`dns/message_header.hxx`.

A query is a packet whose storage is always `query::max_size` bytes long, of
which the first `size` are the message. The storage behind the message is kept,
since `header` reads its twelve bytes whatever the size is. 16-bit fields are
natural numbers below 65536 and a TTL is the signed 32-bit number the code makes
of it.

The record parsers read forwards only: a compressed name ends at its pointer,
which is never followed, so a parser depends on the bytes from its start on and
nothing else (`get_rr_congr`). That is what lets `adjust_id_and_ttl` overwrite
TTLs while it walks.
-/
import Cdns.Exn
import Cdns.Lib.Buffer
import Cdns.Str

set_option autoImplicit false

namespace Cdns

open Lib.Storage

/-! ## Constants -/

/-- `dns::max_host_name_length`. -/
def max_host_name_length : ℕ := 256

/-- `enum class pkt_rcode`. -/
inductive pkt_rcode where
  | noerror
  | formerr
  | servfail
  | nxdomain
  | notimpl
  | refused
  | yxdomain
  | yxrrset
  | nxrrset
  | notauth
  | notzone
  deriving Repr, DecidableEq

/-- The code on the wire. -/
def pkt_rcode.code : pkt_rcode → ℕ
  | noerror => 0
  | formerr => 1
  | servfail => 2
  | nxdomain => 3
  | notimpl => 4
  | refused => 5
  | yxdomain => 6
  | yxrrset => 7
  | nxrrset => 8
  | notauth => 9
  | notzone => 10

/-- `enum class rr_class`. -/
inductive rr_class where
  | internet
  | chaos
  | hesiod
  | none
  | any
  deriving Repr, DecidableEq

def rr_class.code : rr_class → ℕ
  | internet => 1
  | chaos => 3
  | hesiod => 4
  | none => 254
  | any => 255

/-- The members of `enum class rr_type` that the code compares with. -/
inductive rr_type where
  | a
  | txt
  | aaaa
  | opt
  deriving Repr, DecidableEq

def rr_type.code : rr_type → ℕ
  | a => 1
  | txt => 16
  | aaaa => 28
  | opt => 41

/-! ## The header -/

/-- `struct message_header`, in host byte order. -/
structure message_header where
  id : ℕ
  rd : Bool
  tc : Bool
  aa : Bool
  opcode : ℕ
  qr : Bool
  rcode : ℕ
  z : ℕ
  ra : Bool
  qdcount : ℕ
  ancount : ℕ
  nscount : ℕ
  arcount : ℕ
  deriving Repr, DecidableEq

/-- The size of the header on the wire. -/
def message_header.wire_size : ℕ := 12

/-- Bit `i` of a byte. -/
def bit (n i : ℕ) : Bool := n / 2 ^ i % 2 == 1

namespace message_header

/-- The header at the start of a buffer. -/
def read (b : Buffer) : message_header :=
  let x := (b 2).toNat
  let y := (b 3).toNat
  { id := be16 b 0
    rd := bit x 0, tc := bit x 1, aa := bit x 2, opcode := x / 8 % 16, qr := bit x 7
    rcode := y % 16, z := y / 16 % 8, ra := bit y 7
    qdcount := be16 b 4, ancount := be16 b 6, nscount := be16 b 8, arcount := be16 b 10 }

/-- The third byte of the header. -/
def byte2 (h : message_header) : UInt8 :=
  UInt8.ofNat (h.rd.toNat + 2 * h.tc.toNat + 4 * h.aa.toNat + 8 * h.opcode + 128 * h.qr.toNat)

/-- The fourth byte of the header. -/
def byte3 (h : message_header) : UInt8 :=
  UInt8.ofNat (h.rcode + 16 * h.z + 128 * h.ra.toNat)

/-- The twelve bytes of a header. -/
def wire (h : message_header) : List UInt8 :=
  bytes16 h.id ++ [h.byte2, h.byte3] ++ bytes16 h.qdcount ++ bytes16 h.ancount
    ++ bytes16 h.nscount ++ bytes16 h.arcount

@[simp] theorem wire_length (h : message_header) : h.wire.length = 12 := rfl

theorem read_congr {b c : Buffer} (h : ∀ i < 12, b i = c i) : read b = read c := by
  simp only [read, be16, h 0 (by omega), h (0 + 1) (by omega), h 2 (by omega), h 3 (by omega),
    h 4 (by omega), h (4 + 1) (by omega), h 6 (by omega), h (6 + 1) (by omega), h 8 (by omega),
    h (8 + 1) (by omega), h 10 (by omega), h (10 + 1) (by omega)]

end message_header

/-! ## Messages -/

/-- `query::max_size`. -/
def max_size : ℕ := 55535

/-- `dns::query`. -/
structure Query where
  bytes : Buffer
  size : ℕ
  size_le : size ≤ max_size

/-! ## The storage

Every store of the program into a message goes through `put`, which is an overrun
when it would leave the storage. -/

/-- `memcpy`, `memmove` or `memset` into the storage of a query. -/
def put (b : Buffer) (off : ℕ) (l : List UInt8) : Result Buffer :=
  if off + l.length ≤ max_size then .ok (write b off l) else .error .overrun

/-- `packet::set_size`. -/
def set_size (b : Buffer) (s : ℕ) : Result Query :=
  if h : s ≤ max_size then .ok ⟨b, s, h⟩ else .error .overrun

theorem put_eq_ok (b : Buffer) {off : ℕ} {l : List UInt8} (h : off + l.length ≤ max_size) :
    put b off l = .ok (write b off l) := if_pos h

theorem eq_write_of_put {b b' : Buffer} {off : ℕ} {l : List UInt8} (h : put b off l = .ok b') :
    b' = write b off l := by
  rw [put] at h
  split_ifs at h
  exact (Except.ok.inj h).symm

theorem eq_of_set_size {b : Buffer} {s : ℕ} {q : Query} (h : set_size b s = .ok q) :
    q.bytes = b ∧ q.size = s := by
  rw [set_size] at h
  split_ifs at h
  rw [← Except.ok.inj h]
  exact ⟨rfl, rfl⟩

theorem set_size_eq_ok (b : Buffer) {s : ℕ} (h : s ≤ max_size) :
    set_size b s = .ok ⟨b, s, h⟩ := dif_pos h

namespace Query

/-- `query()`. -/
def empty : Query := ⟨fun _ => 0, 0, Nat.zero_le _⟩

/-- `query (const std::uint8_t *, size_type)`: the rest of the storage is zero. -/
def of_bytes (l : List UInt8) (h : l.length ≤ max_size) : Query := ⟨ofList l, l.length, h⟩

/-- The bytes of the message. -/
def wire (q : Query) : List UInt8 := slice q.bytes 0 q.size

@[simp] theorem wire_length (q : Query) : q.wire.length = q.size := by
  simp [wire]

/-- `query::header`. -/
def header (q : Query) : message_header := message_header.read q.bytes

/-- `query::set_header`. -/
def set_header (q : Query) (head : message_header) : Query :=
  { q with bytes := write q.bytes 0 head.wire }

/-- `query::is_dns`. -/
def is_dns (q : Query) : Bool :=
  !(q.size < 15 || q.bytes 4 != 0 || q.bytes 5 != 1 || q.bytes 10 != 0 || q.bytes 11 > 1)

/-- `query::rcode`. -/
def rcode (q : Query) : ℕ := q.header.rcode

/-- `query::set (pkt_rcode)`. -/
def set_rcode (q : Query) (rcode : pkt_rcode) : Query :=
  q.set_header { q.header with rcode := rcode.code }

/-- `query::flag (pkt_flag::qr, v)`. -/
def flag_qr (q : Query) (v : Bool) : Query := q.set_header { q.header with qr := v }

/-- `query::mark_refused`. -/
def mark_refused (q : Query) : Query := (q.set_rcode .refused).flag_qr true

/-- `query::mark_servfail`. -/
def mark_servfail (q : Query) : Query := (q.set_rcode .servfail).flag_qr true

/-! ## Names and records -/

/-- `is_dns_char` in the classic locale. -/
def is_dns_char (b : UInt8) : Bool :=
  let n := b.toNat
  (48 ≤ n && n ≤ 57) || (65 ≤ n && n ≤ 90) || (97 ≤ n && n ≤ 122) || n == 45

/-- A byte of a name as a character. -/
def char_of (b : UInt8) : Char := Char.ofNat b.toNat

/-- The labels of a name, from `offset` on, appended to `owner`. Each label moves
`offset` towards `pktlen`, so `pktlen` turns are enough
(`get_rr_name_loop_fuel`). -/
def get_rr_name_loop (pkt : Buffer) (pktlen : ℕ) : ℕ → ℕ → Str → Result (ℕ × Str)
  | 0, _, _ => .error .overrun
  | n + 1, offset, owner =>
      let label_len := (pkt offset).toNat
      if 192 ≤ label_len then
        if offset + 2 > pktlen then .error (.runtime_error "bla") else .ok (offset + 2, owner)
      else if 64 ≤ label_len then
        .error (.runtime_error ("Too long DNS label: " ++ toString label_len ++ ", offset: "
          ++ toString offset))
      else
        let next_offset := label_len + (offset + 1)
        if next_offset ≥ pktlen then
          .error (.runtime_error ("DNS label (" ++ toString label_len ++ "): "
            ++ String.ofList owner ++ " is outside of message bounds: " ++ toString next_offset
            ++ " >= " ++ toString pktlen))
        else if label_len = 0 then .ok (next_offset, owner)
        else
          let label := slice pkt (offset + 1) label_len
          if label.all is_dns_char then
            let owner := owner ++ label.map char_of ++ ['.']
            if owner.length > max_host_name_length then
              .error (.runtime_error "Too long DNS qname")
            else get_rr_name_loop pkt pktlen n next_offset owner
          else .error (.runtime_error "Invalid symbol in DNS name")

/-- `query::get_rr_name`: where the name ends, and the name. -/
def get_rr_name (q : Query) (off : ℕ) : Result (ℕ × Str) :=
  if message_header.wire_size > q.size ∨ off + 1 ≥ q.size then
    .error (.runtime_error "Too short DNS message")
  else get_rr_name_loop q.bytes q.size q.size off []

/-- `rr_header` with the owner and the data that `get_rr` returns beside it, and
the offset the record header was read at. -/
structure rr where
  owner : Str
  type : ℕ
  class_ : ℕ
  ttl : ℤ
  rdlength : ℕ
  data : List UInt8
  rr_off : ℕ

/-- `static_cast <std::int32_t>` of a 32-bit number. -/
def int32 (n : ℕ) : ℤ := if n < 2147483648 then n else (n : ℤ) - 4294967296

/-- `static_cast <std::uint32_t>` of a signed number. -/
def uint32 (i : ℤ) : ℕ := (i % 4294967296).toNat

/-- `ntohs` of a number that is in host order already, as in the text of an
error. -/
def swap16 (n : ℕ) : ℕ := n % 256 * 256 + n / 256

/-- `ntohl` likewise. -/
def swap32 (n : ℕ) : ℕ := swap16 (n % 65536) * 65536 + swap16 (n / 65536)

/-- `query::get_rr`: the record at `off` and where it ends. -/
def get_rr (q : Query) (off : ℕ) : Result (rr × ℕ) := do
  let (offset, owner) ← q.get_rr_name off
  let o := offset + 10
  if o > q.size then
    .error (.runtime_error ("no rr, pkt size: " ++ toString q.size ++ ", expected: "
      ++ toString (offset + 10)))
  else
    let rdlength := be16 q.bytes (offset + 8)
    let ttl := be32 q.bytes (offset + 4)
    let e := o + rdlength
    if e > q.size then
      .error (.runtime_error ("Too long response: " ++ toString (swap16 rdlength) ++ ", TTL: "
        ++ toString (swap32 ttl)))
    else
      .ok ({ owner, type := be16 q.bytes offset, class_ := be16 q.bytes (offset + 2)
             ttl := int32 ttl, rdlength, data := slice q.bytes o rdlength, rr_off := offset }, e)

/-- `query::get_rr_question`: the question at `off` and where it ends. -/
def get_rr_question (q : Query) (off : ℕ) : Result (rr × ℕ) := do
  let (offset, owner) ← q.get_rr_name off
  if offset + 4 > q.size then
    .error (.runtime_error ("no rr, pkt size: " ++ toString q.size ++ ", expected: "
      ++ toString (offset + 10)))
  else
    .ok ({ owner, type := be16 q.bytes offset, class_ := be16 q.bytes (offset + 2)
           ttl := 0, rdlength := 0, data := [], rr_off := offset }, offset + 4)

/-- `query::get_question`. -/
def get_question (q : Query) : Result (Str × ℕ × ℕ) :=
  if q.header.qdcount ≠ 1 then
    .error (.runtime_error ("Not supported! Not a single question: " ++ toString q.header.qdcount))
  else do
    let (rr, _) ← q.get_rr_question message_header.wire_size
    .ok (rr.owner, rr.class_, rr.type)

/-- `for (j = 0; j < n; ++j) { off = get (off, rr); body; }`, where `get` is
`get_rr` or `get_rr_question`. -/
def for_each {σ : Type} (get : ℕ → Result (rr × ℕ)) (body : σ → rr → Result σ) :
    ℕ → ℕ → σ → Result (ℕ × σ)
  | 0, off, s => .ok (off, s)
  | n + 1, off, s => do
      let (rr, off') ← get off
      let s' ← body s rr
      for_each get body n off' s'

/-- The questions, up to the first record. The state is the last question. -/
def skip_questions (q : Query) (qdcount : ℕ) : Result (ℕ × Option rr) :=
  for_each q.get_rr_question (fun _ rr => .ok (some rr)) qdcount message_header.wire_size none

/-- The number of records behind the questions. -/
def rr_count (head : message_header) : ℕ := head.ancount + head.arcount + head.nscount

/-- `query::answer_min_ttl`. -/
def answer_min_ttl (q : Query) : Result ℤ :=
  let head := q.header
  if head.tc then .ok 0
  else if q.rcode ≠ pkt_rcode.noerror.code ∧ q.rcode ≠ pkt_rcode.nxdomain.code then .ok 0
  else if head.qr = false then .ok 0
  else if rr_count head = 0 then .ok 0
  else do
    let (off, question) ← q.skip_questions head.qdcount
    if question.any fun rr => rr.class_ != rr_class.internet.code then .ok 0
    else
      let (_, min_ttl) ← for_each q.get_rr
        (fun min_ttl rr => .ok (if rr.type ≠ rr_type.opt.code ∧ rr.ttl < min_ttl then rr.ttl
          else min_ttl)) (rr_count head) off (2147483647 : ℤ)
      .ok min_ttl

/-- The loop of `adjust_id_and_ttl` over the records. -/
def adjust_loop (ttl : ℤ) : ℕ → ℕ → Query → Result Query
  | 0, _, q => .ok q
  | n + 1, off, q => do
      let (rr, off') ← q.get_rr off
      if rr.type ≠ rr_type.opt.code then
        let rr_off := off' - rr.data.length - 10
        adjust_loop ttl n off' { q with bytes := write q.bytes (rr_off + 4) (bytes32 (uint32 ttl)) }
      else adjust_loop ttl n off' q

/-- `query::adjust_id_and_ttl`. -/
def adjust_id_and_ttl (q : Query) (tid : ℕ) (ttl : ℤ) : Result Query := do
  let head := q.header
  let q := q.set_header { head with id := tid }
  let (off, _) ← q.skip_questions head.qdcount
  adjust_loop ttl (rr_count head) off q

end Query

end Cdns
