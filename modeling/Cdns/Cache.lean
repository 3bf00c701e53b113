/-
`dns::cache` (`dns/cache.hxx`, `dns/srcz/cache.cpp`).

The entries live in a `std::unordered_set` of pairs of name and type with a
mutable deadline and response, that is in a `KeyedSet`. A lookup puts the name in
lower case. `std::time` is read once in each operation, so the clock is an
argument. `min_ttl` comes from an `unsigned short`.
-/
import Cdns.Lib.Keyed
import Cdns.QuerySpec

set_option autoImplicit false

namespace Cdns

open Lib.Storage Lib.Keyed

/-- `struct cache_entry`. -/
structure cache_entry where
  first : Str
  second : ℕ
  deadline : ℤ
  response : List UInt8

/-- `cache_key`, the base class of an entry. -/
def cache_entry.key (e : cache_entry) : Str × ℕ := (e.first, e.second)

/-- `dns::cache`. -/
structure Cache where
  entries : KeyedSet cache_entry.key
  min_ttl : ℕ

namespace Cache

/-- `cache::defaults::max_ttl`. -/
def max_ttl : ℤ := 86400

/-- `cache (minttl)`. -/
def empty (minttl : ℕ) : Cache := ⟨KeyedSet.empty, minttl⟩

/-- `cache::find`. -/
def find (c : Cache) (qname : Str) (qtype : ℕ) : Option cache_entry :=
  c.entries.lookup (ascii_tolower qname, qtype)

/-- The assignment to an entry that is there. -/
def update (wire_data : List UInt8) (deadline : ℤ) (e : cache_entry) : cache_entry :=
  { e with response := wire_data, deadline := deadline }

theorem update_key (wire_data : List UInt8) (deadline : ℤ) (e : cache_entry) :
    (update wire_data deadline e).key = e.key := rfl

/-- `cache::replace_entry`. An entry that is found is changed in place. -/
def replace_entry (c : Cache) (tnow : ℤ) (wire_qname : Str) (wire_data : List UInt8) (ttl : ℤ)
    (qtype : ℕ) : Cache :=
  match c.find wire_qname qtype with
  | some e =>
      { c with entries := c.entries.modify e.key (update wire_data (tnow + ttl)) (update_key _ _) }
  | none =>
      { c with entries := c.entries.insert ⟨wire_qname, qtype, tnow + ttl, wire_data⟩ }

/-- The test `store` makes on two bytes of the header: not truncated, and neither
an error nor a failure. -/
def storable (msg : Query) : Bool :=
  !(bit (msg.bytes 2).toNat 1 || (msg.bytes 3).toNat % 16 != 0 && (msg.bytes 3).toNat % 16 != 3)

/-- `std::min (defaults::max_ttl(), std::max (answer_min_ttl, min_ttl))`. -/
def lifetime (c : Cache) (answer_min_ttl : ℤ) : ℤ := min max_ttl (max answer_min_ttl c.min_ttl)

/-- `cache::store`. -/
def store (c : Cache) (tnow : ℤ) (msg : Query) : Result Cache :=
  if storable msg then do
    let (owner, class_, type) ← msg.get_question
    if class_ = rr_class.internet.code then
      let answer_min_ttl ← msg.answer_min_ttl
      .ok (c.replace_entry tnow (ascii_tolower owner) msg.wire (c.lifetime answer_min_ttl) type)
    else .ok c
  else .ok c

/-- `cache::retrieve`: whether the message was found, and the message. -/
def retrieve (c : Cache) (tnow : ℤ) (msg : Query) : Result (Bool × Query) := do
  let (hn, _, type) ← msg.get_question
  match c.find hn type with
  | none => .ok (false, msg)
  | some ent =>
      if h : ent.response.length ≤ max_size ∧ tnow < ent.deadline then do
        let tid := msg.header.id
        let ttl := Query.int32 (Query.uint32 (ent.deadline - tnow))
        let msg' ← (Query.of_bytes ent.response h.1).adjust_id_and_ttl tid ttl
        .ok (true, msg')
      else .ok (false, msg)

/-- `cache::collect_garbage`. -/
def collect_garbage (c : Cache) (tnow : ℤ) : Cache :=
  { c with entries := c.entries.filter fun e => !(e.deadline < tnow) }

end Cache

end Cdns
