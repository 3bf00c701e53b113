/-
The rest of `dns::query` (`dns/srcz/query.cpp`): the texts it is printed with, the
answers that are added to it, and the questions it is asked about itself.

`short_info` and `host_type_info` walk over the questions and answers, and fail on
what they have no text for. They are evaluated whenever a reply is logged, whatever
the level of the log is.
-/
import Cdns.Address
import Cdns.Query

set_option autoImplicit false

namespace Cdns

open Lib.Storage

/-! ## Texts -/

/-- `rr_type_str`. -/
def rr_type_str (type : ℕ) : Str :=
  match type with
  | 0x01 => "A".toList
  | 0x02 => "NS".toList
  | 0x06 => "SOA".toList
  | 0x0c => "PTR".toList
  | 0x0f => "MX".toList
  | 0x10 => "TXT".toList
  | 0x1c => "AAAA".toList
  | 0x21 => "SRV".toList
  | t => (toString t).toList

/-- `pkt_rcode_cstr`. -/
def pkt_rcode_cstr (rcode : ℕ) : Result Str :=
  match rcode with
  | 0 => .ok "NOERROR".toList
  | 1 => .ok "FORMERR".toList
  | 2 => .ok "SERVFAIL".toList
  | 3 => .ok "NXDOMAIN".toList
  | 4 => .ok "NOTIMPL".toList
  | 5 => .ok "REFUSED".toList
  | 6 => .ok "YXDOMAIN".toList
  | 7 => .ok "YXRRSET".toList
  | 8 => .ok "NXRRSET".toList
  | 9 => .ok "NOTAUTH".toList
  | 10 => .ok "NOTZONE".toList
  | _ => .error (.logic_error "Invalid DNS RCODE")

/-- `rr_class_cstr`. -/
def rr_class_cstr (class_ : ℕ) : Result Str :=
  match class_ with
  | 1 => .ok "IN".toList
  | 3 => .ok "CHAOS".toList
  | 4 => .ok "HESIOD".toList
  | 254 => .ok "NONE".toList
  | 255 => .ok "ANY".toList
  | _ => .error (.logic_error "Invalid DNS RR CLASS")

/-- The classes that have a text. -/
def known_class (class_ : ℕ) : Prop :=
  class_ = 1 ∨ class_ = 3 ∨ class_ = 4 ∨ class_ = 254 ∨ class_ = 255

instance (class_ : ℕ) : Decidable (known_class class_) :=
  inferInstanceAs (Decidable (_ ∨ _))

theorem pkt_rcode_cstr_returns (rcode : ℕ) : (pkt_rcode_cstr rcode).returns ↔ rcode ≤ 10 := by
  by_cases h : rcode ≤ 10
  · refine iff_of_true ?_ h
    interval_cases rcode
    all_goals exact ⟨_, rfl⟩
  · refine iff_of_false ?_ h
    unfold pkt_rcode_cstr
    split
    all_goals first | omega | exact Result.not_returns_error _

theorem rr_class_cstr_returns (class_ : ℕ) :
    (rr_class_cstr class_).returns ↔ known_class class_ := by
  by_cases h : known_class class_
  · refine iff_of_true ?_ h
    rcases h with rfl | rfl | rfl | rfl | rfl
    all_goals exact ⟨_, rfl⟩
  · refine iff_of_false ?_ h
    unfold known_class at h
    unfold rr_class_cstr
    split
    all_goals first | omega | exact Result.not_returns_error _

namespace Query

/-- The final dot of a name, dropped. -/
def drop_dot (owner : Str) : Str :=
  if owner ≠ [] ∧ owner.getLast? = some '.' then owner.dropLast else owner

/-- `query::hostname`. -/
def hostname (q : Query) : Result Str := do
  let (owner, _, _) ← q.get_question
  .ok (drop_dot owner)

/-- `query::host_type_info`, and `query::host_type`. -/
def host_type_info (q : Query) : Result Str := do
  let qdcount := q.header.qdcount
  let (_, _, result) ← for_each q.get_rr_question
    (fun (jq, result) rr =>
      let result := result ++ rr.owner ++ [' '] ++ rr_type_str rr.type
      .ok (jq + 1, if 1 + jq < qdcount then result ++ ", ".toList else result))
    qdcount message_header.wire_size (0, ([] : Str))
  .ok result

/-- The text of the data of one answer in `short_info`. -/
def answer_info (net : Inet) (stack : Buffer) (rr : rr) : Result Str :=
  if rr.class_ = rr_class.internet.code then
    if rr.type = rr_type.a.code then do
      let a ← address.of_bytes stack .ipv4 rr.data 0
      .ok (a.ip_text net)
    else if rr.type = rr_type.aaaa.code then do
      let a ← address.of_bytes stack .ipv6 rr.data 0
      .ok (a.ip_text net)
    else .ok (['['] ++ rr_type_str rr.type ++ [']'])
  else do
    let c ← rr_class_cstr rr.class_
    .ok ("[[".toList ++ c ++ [' '] ++ rr_type_str rr.type ++ "]]".toList)

/-- The start of `short_info`: a failure, or the lack of answers. -/
def rcode_info (q : Query) : Result Str :=
  let head := q.header
  if q.rcode ≠ pkt_rcode.noerror.code then do
    let s ← pkt_rcode_cstr q.rcode
    .ok (s ++ [' '])
  else if head.ancount = 0 ∧ head.qr = true then
    .ok ("[NOANSWER: ".toList ++ (toString head.arcount).toList ++ ", ".toList
      ++ (toString head.nscount).toList ++ "] ".toList)
  else .ok []

/-- `query::short_info`. -/
def short_info (net : Inet) (stack : Buffer) (q : Query) : Result Str := do
  let head := q.header
  let result ← q.rcode_info
  let (off, result) ← for_each q.get_rr_question
    (fun result rr => do
      let c ← rr_class_cstr rr.class_
      .ok (result ++ ['['] ++ c ++ [' '] ++ rr_type_str rr.type ++ "] ".toList ++ rr.owner))
    head.qdcount message_header.wire_size result
  let (_, result) ← for_each q.get_rr
    (fun result rr => do
      let text ← answer_info net stack rr
      .ok (result ++ [' '] ++ text ++ " TTL: ".toList ++ (toString rr.ttl).toList))
    head.ancount off result
  .ok result

/-! ## Texts in answers -/

/-- `query::find_txt_answers`. -/
def find_txt_answers (q : Query) : Result (List (List UInt8)) := do
  let head := q.header
  let (off, _) ← q.skip_questions head.qdcount
  let (_, result) ← for_each q.get_rr
    (fun result rr =>
      .ok (if rr.type = rr_type.txt.code ∧ rr.class_ = rr_class.internet.code
        then result ++ [rr.data] else result))
    head.ancount off ([] : List (List UInt8))
  .ok result

/-- `query::get_txt_answer`: the leading length of each text is erased. -/
def get_txt_answer (q : Query) : Result (List (List UInt8)) := do
  let txt_data ← q.find_txt_answers
  .ok (txt_data.map fun arr => arr.drop 1)

/-- `query::is_dnscrypt_certificate_request`. -/
def is_dnscrypt_certificate_request (q : Query) (hostname : Str) : Result Bool :=
  if hostname = [] then .error (.logic_error "blank hostname")
  else if q.header.qdcount ≠ 1 then .ok false
  else do
    let hostname := if hostname.getLast? ≠ some '.' then hostname ++ ['.'] else hostname
    let (rr, _) ← q.get_rr_question message_header.wire_size
    .ok (rr.owner = hostname && rr.type = rr_type.txt.code
      && rr.class_ = rr_class.internet.code)

/-! ## Adding answers -/

/-- A record whose name is the pointer to the question. -/
def answer_wire (data : List UInt8) (typ : ℕ) (ttl : ℤ) : List UInt8 :=
  [0xc0, 12] ++ bytes16 typ ++ bytes16 rr_class.internet.code ++ bytes32 (uint32 ttl)
    ++ bytes16 data.length ++ data

/-- The header of a message with one more answer, a 16-bit count. -/
def answered_header (q : Query) : message_header :=
  { q.header with ancount := (q.header.ancount + 1) % 65536, qr := true }

/-- `query::add_answer (data, typ, ttl)`. The record goes behind the answers that
are there, over whatever follows them, and the message ends with it. -/
def add_answer (q : Query) (data : List UInt8) (typ : ℕ) (ttl : ℤ) : Result Query := do
  let new_size := q.size + (12 + data.length)
  if new_size > max_size then .error (.runtime_error "Too large DNS message.")
  else
    let head := q.header
    let nqd := head.qdcount
    let nan := head.ancount
    let q := q.set_header q.answered_header
    let (off, _) ← q.skip_questions nqd
    let (off, _) ← for_each q.get_rr (fun _ _ => .ok ()) nan off ()
    if nqd = 1 then do
      let b ← put q.bytes off (answer_wire data typ ttl)
      Cdns.set_size b (off + 12 + data.length)
    else .error (.logic_error "not supported")

/-- `query::add_answer (ip, ttl)`. -/
def add_address_answer (q : Query) (ip : address) (ttl : ℤ) : Result Query :=
  q.add_answer ip.sin_addr rr_type.a.code ttl

/-- `query::set_answer`. It returns `true`. -/
def set_answer (net : Inet) (q : Query) (ip : Str) : Result Query := do
  let addr ← address.of_text net ip 0
  q.add_address_answer addr 10

/-- `query::set_txt_answer`. It returns `true`. -/
def set_txt_answer (q : Query) (txt_data : List UInt8) (ttl : ℤ) : Result Query :=
  if txt_data.length > 255 then .error (.runtime_error "too long DNS TXT record")
  else q.add_answer (UInt8.ofNat txt_data.length :: txt_data) rr_type.txt.code ttl

end Query

end Cdns
