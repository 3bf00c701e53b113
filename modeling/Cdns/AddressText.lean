/-
Addresses as text, and addresses from the bytes of a record.

`operator<<` prints `ip:port`, with brackets around an IPv6 address, which is also the
key of a provider (`address::ip_port`). The constructor from a text reads that back, as
long as `inet_pton` undoes `inet_ntop` (`of_text_ip_port`): the port is behind the last
colon, and behind the closing bracket if there is one.

The constructor from a vector of bytes looks at the size once, for both families, and
compares it with the size of an IPv4 address and of the largest storage. It takes every
vector in between (`of_vector_checked_iff`).
-/
import Cdns.Address

set_option autoImplicit false

namespace Cdns

open Lib.Storage

/-! ## Numbers -/

namespace detail

/-- `std::to_string` and `operator<<` of an unsigned number. -/
def decimal (n : ℕ) : Str := (toString n).toList

theorem decimal_eq (n : ℕ) : decimal n = Nat.toDigits 10 n := Nat.toList_repr

theorem decimal_isDigit {n : ℕ} {c : Char} (h : c ∈ decimal n) : c.isDigit = true := by
  rw [decimal_eq] at h
  exact Nat.isDigit_of_mem_toDigits (by decide) (by decide) h

theorem decimal_ne_nil (n : ℕ) : decimal n ≠ [] := by
  rw [decimal_eq]
  exact Nat.toDigits_ne_nil

/-- No other character is in it. -/
theorem not_mem_decimal (n : ℕ) {c : Char} (h : c.isDigit = false) : c ∉ decimal n := by
  intro hc
  rw [decimal_isDigit hc] at h
  exact absurd h (by simp)

/-- A port has at most five digits. -/
theorem decimal_length_le {n : ℕ} (h : n < 65536) : (decimal n).length ≤ 5 := by
  rw [decimal_eq, Nat.length_toDigits_le_iff (by decide) (by decide)]
  omega

theorem isSpace_of_isDigit {c : Char} (h : c.isDigit = true) : Str.is_space c = false := by
  rw [Str.is_space]
  simp only [Bool.or_eq_false_iff, beq_eq_false_iff_ne]
  refine ⟨⟨⟨⟨⟨?_, ?_⟩, ?_⟩, ?_⟩, ?_⟩, ?_⟩
  all_goals
    rintro rfl
    exact absurd h (by decide)

/-- The number that a text of digits stands for. -/
def number (digits : Str) : ℕ := digits.foldl (fun n c => 10 * n + (c.toNat - 48)) 0

theorem number_decimal (n : ℕ) : number (decimal n) = n := by
  rw [decimal_eq]
  exact Nat.ofDigitChars_ten_toDigits

/-- `strtol` reads a text of digits to its end. -/
theorem strtol_digits {s : Str} (hne : s ≠ []) (hs : ∀ c ∈ s, c.isDigit = true) :
    strtol s = (min (2 ^ 63 - 1) (number s : ℤ), []) := by
  obtain ⟨c, cs, hd⟩ := List.exists_cons_of_ne_nil hne
  have hc : c.isDigit = true := hs c (by rw [hd]; exact List.mem_cons_self ..)
  have hminus : c ≠ '-' := by
    rintro rfl
    exact absurd hc (by decide)
  have hplus : c ≠ '+' := by
    rintro rfl
    exact absurd hc (by decide)
  have hskip : s.dropWhile Str.is_space = s := by
    rw [hd]
    exact List.dropWhile_cons_of_neg (by rw [isSpace_of_isDigit hc]; simp)
  have htake : s.takeWhile Char.isDigit = s := List.takeWhile_eq_self_iff.mpr hs
  have hdrop : s.dropWhile Char.isDigit = [] := List.dropWhile_eq_nil_iff.mpr hs
  have hsign : ¬ (s.head? = some '-' ∨ s.head? = some '+') := by
    rw [hd]
    simp [hminus, hplus]
  have hneg : (s.head? == some '-') = false := by
    rw [hd]
    simp [hminus]
  unfold strtol
  dsimp only
  rw [hskip, if_neg hsign, htake, if_neg hne, hneg, hdrop]
  simp only [Bool.false_eq_true, if_false, Prod.mk.injEq, and_true]
  show max _ (min _ ((number s : ℕ) : ℤ)) = _
  omega

/-- A text of digits is a port when its number is below 65536. -/
theorem str2u16_digits {s : Str} (hne : s ≠ []) (hs : ∀ c ∈ s, c.isDigit = true) {n : ℕ} :
    str2u16 s = .ok n ↔ n = number s ∧ number s ≤ 65535 := by
  have hnul : Str.c_str s = s := by
    apply Str.c_str_of_no_nul
    intro hc
    exact absurd (hs _ hc) (by decide)
  unfold str2u16
  rw [hnul, strtol_digits hne hs]
  dsimp only
  split_ifs with h₁ h₂ h₃
  · exact iff_of_false (by simp) (by omega)
  · exact absurd rfl h₂.1
  · exact iff_of_false (by simp) (by omega)
  · rw [Except.ok.injEq]
    omega

/-- A port is read as it was printed. -/
theorem str2u16_decimal {n : ℕ} (h : n < 65536) : str2u16 (decimal n) = .ok n := by
  rw [str2u16_digits (decimal_ne_nil n) fun c => decimal_isDigit, number_decimal]
  omega

end detail

/-! ## The text of an address -/

namespace address

/-- `address::ip_port`, and what `operator<<` prints. -/
def ip_port (net : Inet) (a : address) : Str :=
  (match a.inet with
    | .ipv4 => a.ip_text net
    | .ipv6 => '[' :: a.ip_text net ++ [']']) ++ ':' :: detail.decimal a.port

/-- What POSIX says of the text of an address: it is not empty and has at most 45
characters, the digits and the dots of an IPv4 address, or also small letters and colons,
and `inet_pton` makes the same bytes of it. -/
structure Posix (net : Inet) (a : address) : Prop where
  length_pos : 0 < (a.ip_text net).length
  length_le : (a.ip_text net).length ≤ 45
  ipv4_chars : a.inet = .ipv4 → ∀ c ∈ a.ip_text net, c ∈ "0123456789.".toList
  ipv6_chars : a.inet = .ipv6 → ∀ c ∈ a.ip_text net, c ∈ "0123456789abcdef.:".toList
  undone : net.pton a.inet (a.ip_text net) = some a.ip

end address

namespace detail

theorem idxOf?_append_cons {c : Char} {xs : Str} (ys : Str) (h : c ∉ xs) :
    (xs ++ c :: ys).idxOf? c = some xs.length := by
  induction xs with
  | nil => simp [List.idxOf?_cons]
  | cons x xs ih =>
      rw [List.mem_cons, not_or] at h
      have hne : ¬ (x == c) = true := by simpa using fun heq : x = c => h.1 heq.symm
      rw [List.cons_append, List.idxOf?_cons, if_neg hne, ih h.2]
      rfl

theorem rfind_append_cons {c : Char} (xs : Str) {ys : Str} (h : c ∉ ys) :
    rfind c (xs ++ c :: ys) = some xs.length := by
  have hrev : (xs ++ c :: ys).reverse = ys.reverse ++ c :: xs.reverse := by simp
  rw [rfind, hrev, idxOf?_append_cons _ (by simpa using h)]
  simp

theorem rfind_of_not_mem {c : Char} {s : Str} (h : c ∉ s) : rfind c s = none := by
  rw [rfind, List.idxOf?_eq_none_iff.mpr (by rwa [List.mem_reverse])]
  rfl

/-- The last occurrence of a character. -/
theorem exists_last {c : Char} {s : Str} (h : c ∈ s) : ∃ l₁ l₂, s = l₁ ++ c :: l₂ ∧ c ∉ l₂ := by
  obtain ⟨l₁, l₂, hs, hl₁⟩ := List.eq_append_cons_of_mem (List.mem_reverse.mpr h)
  refine ⟨l₂.reverse, l₁.reverse, ?_, by rwa [List.mem_reverse]⟩
  rw [← List.reverse_reverse s, hs]
  simp

/-- **What a text is split into.** -/
inductive Splits : Str → ip_port_t → Prop where
  | bracket_port {ip port : Str} (hip : ']' ∉ ip) (hne : ip ≠ []) (hport : ':' ∉ port) :
      Splits ('[' :: ip ++ [']'] ++ ':' :: port) ⟨ip, port, true⟩
  | bracket {ip rest : Str} (hip : ']' ∉ ip) (hne : ip ≠ [])
      (hrest : ∀ port, rest = ':' :: port → ':' ∈ port) :
      Splits ('[' :: ip ++ [']'] ++ rest) ⟨ip, [], true⟩
  | colons {s : Str} (hfirst : s.head? ≠ some '[') (hcolons : 2 ≤ s.count ':') :
      Splits s ⟨s, [], true⟩
  | colon {ip port : Str} (hfirst : (ip ++ ':' :: port).head? ≠ some '[') (hip : ':' ∉ ip)
      (hport : ':' ∉ port) : Splits (ip ++ ':' :: port) ⟨ip, port, false⟩
  | bare {s : Str} (hne : s ≠ []) (hfirst : s.head? ≠ some '[') (hcolon : ':' ∉ s) :
      Splits s ⟨s, [], false⟩

/-- A text that starts with a bracket. -/
theorem split_bracket {ip : Str} (hip : ']' ∉ ip) (hne : ip ≠ []) (rest : Str) :
    split ('[' :: ip ++ [']'] ++ rest)
      = .ok ⟨ip, if rfind ':' ('[' :: ip ++ [']'] ++ rest) = some (ip.length + 2) then rest.drop 1
        else [], true⟩ := by
  have hlen : 0 < ip.length := List.length_pos_iff.mpr hne
  have hbracket : ('[' :: ip ++ [']'] ++ rest).idxOf? ']' = some (ip.length + 1) := by
    have h := @idxOf?_append_cons ']' ('[' :: ip) rest
      (by rw [List.mem_cons, not_or]; exact ⟨by decide, hip⟩)
    rw [List.append_assoc]
    exact h
  have hdrop : ('[' :: ip ++ [']'] ++ rest).drop (2 + (ip.length + 1)) = rest.drop 1 := by
    have h : 2 + (ip.length + 1) = ('[' :: ip ++ [']']).length + 1 := by simp; omega
    rw [h, ← List.drop_drop, List.drop_left]
  have htake : (('[' :: ip ++ [']'] ++ rest).drop 1).take (ip.length + 1 - 1) = ip := by
    simp
  have hend : 1 + (ip.length + 1) = ip.length + 2 := by omega
  unfold split
  rw [hbracket]
  simp only [List.cons_append] at htake hdrop ⊢
  simp only [beq_self_eq_true, Bool.or_true, if_true]
  rw [if_neg (by omega), htake, hdrop, hend]

/-- A text that does not. -/
theorem split_plain {s : Str} (hne : s ≠ []) (hfirst : s.head? ≠ some '[') :
    split s = match rfind ':' s with
      | none => .ok ⟨s, [], false⟩
      | some nsr => if s.idxOf? ':' = some nsr then .ok ⟨s.take nsr, s.drop (1 + nsr), false⟩
        else .ok ⟨s, [], true⟩ := by
  obtain ⟨c, cs, rfl⟩ := List.exists_cons_of_ne_nil hne
  have hc : (c == '[') = false := by
    rw [beq_eq_false_iff_ne]
    exact fun heq => hfirst (by rw [heq]; rfl)
  unfold split
  simp only [hc, Bool.or_false]
  cases hnsr : rfind ':' (c :: cs) with
  | none => rfl
  | some nsr =>
      -- where there is a last colon there is a first one
      have hns : ((c :: cs).idxOf? ':').isSome = true := by
        rw [Option.isSome_iff_ne_none, ne_eq, List.idxOf?_eq_none_iff, not_not]
        by_contra hmem
        rw [rfind_of_not_mem hmem] at hnsr
        exact absurd hnsr (by simp)
      rw [hns]
      by_cases heq : (c :: cs).idxOf? ':' = some nsr
      · simp [heq]
      · simp [heq]

/-- The five cases are what `split` does. -/
theorem Splits.split {s : Str} {a : ip_port_t} (h : Splits s a) : detail.split s = .ok a := by
  cases h with
  | @bracket_port ip port hip hne hport =>
      have hend : ('[' :: ip ++ [']']).length = ip.length + 2 := by simp
      rw [split_bracket hip hne, rfind_append_cons _ hport, hend, if_pos rfl]
      rfl
  | @bracket ip rest hip hne hrest =>
      rw [split_bracket hip hne, if_neg]
      intro hnsr
      -- the last colon would be the first character behind the bracket
      by_cases hmem : ':' ∈ rest
      · obtain ⟨l₁, l₂, rfl, hl₂⟩ := exists_last hmem
        rw [← List.append_assoc, rfind_append_cons _ hl₂] at hnsr
        have hlen := Option.some.inj hnsr
        simp only [List.length_append, List.length_cons, List.length_nil] at hlen
        have hl₁ : l₁ = [] := List.length_eq_zero_iff.mp (by omega)
        rw [hl₁] at hrest
        exact hl₂ (hrest l₂ rfl)
      · by_cases hip' : ':' ∈ ip
        · obtain ⟨l₁, l₂, rfl, hl₂⟩ := exists_last hip'
          have hform : '[' :: (l₁ ++ ':' :: l₂) ++ [']'] ++ rest
              = ('[' :: l₁) ++ ':' :: (l₂ ++ ']' :: rest) := by simp
          have hno : ':' ∉ l₂ ++ ']' :: rest := by
            simp only [List.mem_append, List.mem_cons, not_or]
            exact ⟨hl₂, by decide, hmem⟩
          rw [hform, rfind_append_cons _ hno] at hnsr
          have hlen := Option.some.inj hnsr
          simp only [List.length_append, List.length_cons] at hlen
          omega
        · have hno : ':' ∉ '[' :: ip ++ [']'] ++ rest := by
            simp only [List.cons_append, List.mem_cons, List.mem_append, List.not_mem_nil,
              or_false, not_or]
            exact ⟨by decide, ⟨hip', by decide⟩, hmem⟩
          rw [rfind_of_not_mem hno] at hnsr
          exact absurd hnsr (by simp)
  | colons hfirst hcolons =>
      have hmem : ':' ∈ s := List.count_pos_iff.mp (by omega)
      obtain ⟨l₁, l₂, rfl, hl₂⟩ := exists_last hmem
      have hl₁ : ':' ∈ l₁ := by
        apply List.count_pos_iff.mp
        have hzero := List.count_eq_zero.mpr hl₂
        rw [List.count_append, List.count_cons_self] at hcolons
        omega
      obtain ⟨l₃, l₄, rfl, hl₃⟩ := List.eq_append_cons_of_mem hl₁
      rw [split_plain (by simp) hfirst, rfind_append_cons _ hl₂]
      dsimp only
      rw [if_neg]
      rw [List.append_assoc, List.cons_append, idxOf?_append_cons _ hl₃, Option.some.injEq,
        List.length_append, List.length_cons]
      omega
  | @colon ip port hfirst hip hport =>
      rw [split_plain (by simp) hfirst, rfind_append_cons _ hport]
      dsimp only
      rw [if_pos (idxOf?_append_cons port hip), List.take_left, Nat.add_comm, ← List.drop_drop,
        List.drop_left]
      rfl
  | bare hne hfirst hcolon =>
      rw [split_plain hne hfirst, rfind_of_not_mem hcolon]

end detail

namespace address

/-- The first character of the text of an address. -/
theorem Posix.head_ne {net : Inet} {a : address} (h : a.Posix net) (rest : Str) :
    (a.ip_text net ++ rest).head? ≠ some '[' := by
  obtain ⟨c, cs, hc⟩ := List.exists_cons_of_ne_nil (List.length_pos_iff.mp h.length_pos)
  have hmem : c ∈ a.ip_text net := by rw [hc]; exact List.mem_cons_self
  rw [hc, List.cons_append, List.head?_cons, ne_eq, Option.some.injEq]
  rintro rfl
  cases hf : a.inet with
  | ipv4 => exact absurd (h.ipv4_chars hf _ hmem) (by decide)
  | ipv6 => exact absurd (h.ipv6_chars hf _ hmem) (by decide)

/-- **What is read**: the text is split, the port is the default or is read, and the address is. -/
theorem of_text_eq_ok {net : Inet} {s : Str} {p : ℕ} {a : address} :
    of_text net s p = .ok a ↔ ∃ b, detail.split s = .ok b ∧
      (if b.port = [] then .ok p else detail.str2u16 b.port) = .ok a.port ∧
      a.inet = (if b.ipv6 then .ipv6 else .ipv4) ∧ net.pton a.inet (Str.c_str b.ip) = some a.ip := by
  have hmake : ∀ af ip q, detail.make_address net af ip q = .ok a ↔
      a.port = q ∧ a.inet = af ∧ net.pton a.inet (Str.c_str ip) = some a.ip := by
    intro af ip q
    obtain ⟨inet, bytes, r, hlen⟩ := a
    unfold detail.make_address
    split
    · next l hl =>
      rw [Except.ok.injEq, mk.injEq]
      constructor
      · rintro ⟨rfl, rfl, rfl⟩
        exact ⟨rfl, rfl, hl⟩
      · rintro ⟨rfl, rfl, h⟩
        exact ⟨rfl, Option.some.inj (hl.symm.trans h), rfl⟩
    · next hnone =>
      refine iff_of_false (by simp) ?_
      rintro ⟨-, rfl, h⟩
      exact absurd (hnone.symm.trans h) (by simp)
  rw [of_text, Result.bind_eq_ok]
  apply exists_congr
  intro b
  apply and_congr_right
  intro _
  dsimp only
  by_cases hport : b.port = []
  · rw [if_pos hport, if_pos hport, Result.ok_bind, hmake, Except.ok.injEq]
    exact and_congr_left' eq_comm
  · rw [if_neg hport, if_neg hport, Result.bind_eq_ok]
    constructor
    · rintro ⟨q, hq, h⟩
      obtain ⟨hp, h⟩ := (hmake _ _ _).mp h
      exact ⟨hp ▸ hq, h⟩
    · rintro ⟨hq, h⟩
      exact ⟨a.port, hq, (hmake _ _ _).mpr ⟨rfl, h⟩⟩

/-- **A text is read as an address** when the text of the address is split off. -/
theorem of_text_splits {net : Inet} {a : address} (h : a.Posix net) {s port : Str}
    (hsplit : detail.Splits s ⟨a.ip_text net, port, a.inet == .ipv6⟩) {p q : ℕ}
    (hport : (if port = [] then .ok p else detail.str2u16 port) = .ok q) :
    of_text net s p = .ok { a with port := q } := by
  -- no character of it is the terminating NUL
  have hnul : Str.c_str (a.ip_text net) = a.ip_text net := by
    apply Str.c_str_of_no_nul
    intro hc
    cases hf : a.inet with
    | ipv4 => exact absurd (h.ipv4_chars hf _ hc) (by decide)
    | ipv6 => exact absurd (h.ipv6_chars hf _ hc) (by decide)
  have hfamily : a.inet = if (a.inet == .ipv6) = true then .ipv6 else .ipv4 := by
    cases a.inet with
    | ipv4 => rfl
    | ipv6 => rfl
  refine of_text_eq_ok.mpr ⟨_, hsplit.split, hport, hfamily, ?_⟩
  dsimp only
  rw [hnul]
  exact h.undone

/-- The text of an IPv4 address and a port. -/
theorem of_text_ipv4_port {net : Inet} {a : address} (h : a.Posix net) (hf : a.inet = .ipv4) (p : ℕ)
    {q : ℕ} (hq : q < 65536) :
    of_text net (a.ip_text net ++ ':' :: detail.decimal q) p = .ok { a with port := q } := by
  refine of_text_splits h ?_ ((if_neg (detail.decimal_ne_nil q)).trans (detail.str2u16_decimal hq))
  rw [hf]
  exact .colon (h.head_ne _) (fun hc => absurd (h.ipv4_chars hf _ hc) (by decide))
    (detail.not_mem_decimal _ (by decide))

/-- The text of an IPv6 address in brackets and a port. -/
theorem of_text_ipv6_port {net : Inet} {a : address} (h : a.Posix net) (hf : a.inet = .ipv6) (p : ℕ)
    {q : ℕ} (hq : q < 65536) :
    of_text net ('[' :: a.ip_text net ++ [']'] ++ ':' :: detail.decimal q) p
      = .ok { a with port := q } := by
  refine of_text_splits h ?_ ((if_neg (detail.decimal_ne_nil q)).trans (detail.str2u16_decimal hq))
  rw [hf]
  exact .bracket_port (fun hc => absurd (h.ipv6_chars hf _ hc) (by decide))
    (List.length_pos_iff.mp h.length_pos) (detail.not_mem_decimal _ (by decide))

/-- **An address is read as it was printed**, whatever port is the default. -/
theorem of_text_ip_port {net : Inet} {a : address} (h : a.Posix net) (hport : a.port < 65536)
    (port : ℕ) : of_text net (a.ip_port net) port = .ok a := by
  unfold ip_port
  split
  · next hf => exact of_text_ipv4_port h hf port hport
  · next hf => exact of_text_ipv6_port h hf port hport

/-- The texts of addresses of different families differ in their first character. -/
theorem inet_of_ip_port {net : Inet} {a b : address} (ha : a.Posix net) (hb : b.Posix net)
    (h : a.ip_port net = b.ip_port net) : a.inet = b.inet := by
  have hfirst : ∀ c : address, c.Posix net → ((c.ip_port net).head? = some '[' ↔ c.inet = .ipv6) := by
    intro c hc
    unfold ip_port
    cases hf : c.inet with
    | ipv4 =>
        obtain ⟨x, xs, hx⟩ := List.exists_cons_of_ne_nil (List.length_pos_iff.mp hc.length_pos)
        have hin := hc.ipv4_chars hf x (by rw [hx]; exact List.mem_cons_self ..)
        refine iff_of_false ?_ (by simp)
        simp only [hx, List.cons_append, List.head?_cons, Option.some.injEq]
        rintro rfl
        exact absurd hin (by decide)
    | ipv6 => exact iff_of_true rfl rfl
  have hiff := (hfirst a ha).symm.trans ((by rw [h] : _ ↔ _).trans (hfirst b hb))
  cases hfa : a.inet with
  | ipv4 =>
      cases hfb : b.inet with
      | ipv4 => rfl
      | ipv6 => exact absurd (hiff.mpr hfb) (by rw [hfa]; decide)
  | ipv6 => exact (hiff.mp hfa).symm

/-! ## The bytes of a record -/

/-- `address::address (a, l)` for a whole `sockaddr_storage`. -/
def of_storage (net : Inet) (a : address) : Result address :=
  let str := a.ip_port net
  if str.length < 3 ∨ str.length > 128 then
    .error (.logic_error ("Wrong internet IP address: " ++ String.ofList str))
  else .ok a

/-- `address::address (af, addr, port)` to its end: the structure that `of_bytes` fills is
handed to the constructor above. -/
def of_vector (net : Inet) (stack : Buffer) (af : Cdns.inet) (addr : List UInt8) (port : ℕ) :
    Result address := do
  let a ← of_bytes stack af addr port
  a.of_storage net

/-- How many bytes the constructor copies to `sin_addr` or `sin6_addr`, that is the last
argument of `memcpy`; none if it has thrown before. -/
def copied (addr : List UInt8) : ℕ :=
  if 4 > addr.length ∨ 128 < addr.length then 0 else addr.length

/-- The text of an address with a 16-bit port has a sensible length. -/
theorem of_storage_eq {net : Inet} {a : address} (hport : a.port < 65536)
    (hpos : 0 < (a.ip_text net).length) (hle : (a.ip_text net).length ≤ 45) :
    a.of_storage net = .ok a := by
  have h₁ := detail.decimal_length_le hport
  have h₂ : 0 < (detail.decimal a.port).length := List.length_pos_iff.mpr (detail.decimal_ne_nil _)
  have hlen : (a.ip_text net).length + 1 + (detail.decimal a.port).length ≤ (a.ip_port net).length ∧
      (a.ip_port net).length ≤ (a.ip_text net).length + 3 + (detail.decimal a.port).length := by
    unfold ip_port
    cases a.inet with
    | ipv4 =>
        simp only [List.length_append, List.length_cons]
        omega
    | ipv6 =>
        simp only [List.length_append, List.length_cons, List.length_nil]
        omega
  exact if_neg (by omega)

/-- The constructor throws, or takes a vector of the size of the address, which becomes the
bytes of the address; and it copies no more than there is room for in the address. -/
def Checked (net : Inet) (stack : Buffer) (af : Cdns.inet) (addr : List UInt8) (port : ℕ) :
    Prop :=
  ((∃ e, of_vector net stack af addr port = .error e ∧ e ≠ .overrun) ∨
    addr.length = af.size ∧ ∃ a, of_vector net stack af addr port = .ok a ∧ a.inet = af ∧
      a.ip = addr ∧ a.port = port) ∧
  copied addr ≤ af.size

section Vector

variable {net : Inet} {stack : Buffer} {af : Cdns.inet} {addr : List UInt8} {port : ℕ}

theorem of_vector_short (h : addr.length < 4 ∨ 128 < addr.length) :
    of_vector net stack af addr port = .error (.logic_error "Invalid network address size") := by
  have hbytes : of_bytes stack af addr port = .error (.logic_error "Invalid network address size") :=
    if_pos h
  rw [of_vector, hbytes, Result.error_bind]

/-- A vector that passes the test and fits into the structure. -/
theorem of_vector_fits (stack : Buffer) {addr : List UInt8} (hntop : ∀ l, l.length = af.size →
      0 < (net.ntop af l).length ∧ (net.ntop af l).length ≤ 45) (hport : port < 65536)
    (h₁ : 4 ≤ addr.length) (h₂ : addr.length ≤ af.room) :
    ∃ a, of_vector net stack af addr port = .ok a ∧ a.inet = af ∧ a.port = port ∧
      a.ip = slice (write stack 0 addr) 0 af.size := by
  obtain ⟨a, ha⟩ := (of_bytes_returns stack af addr port).mpr ⟨h₁, h₂⟩
  have ha' := ha
  unfold of_bytes at ha'
  split_ifs at ha'
  obtain ⟨hpos, hle⟩ := hntop _ (slice_length (write stack 0 addr) 0 af.size)
  refine ⟨a, ?_, ?_, ?_, ?_⟩
  · rw [of_vector, ha, Result.ok_bind, ← Except.ok.inj ha']
    exact of_storage_eq hport hpos hle
  all_goals rw [← Except.ok.inj ha']

/-- **Which vectors are checked.** For every family, 16-bit port and vector of bytes, and
with `inet_ntop` returning 1 to 45 characters: the constructor does what it should exactly
when the vector has fewer than 4 or more than 128 bytes, which it refuses, or the size of
an address of the family. Every other vector is copied to a field of another size. -/
theorem of_vector_checked_iff (hntop : ∀ l, l.length = af.size →
      0 < (net.ntop af l).length ∧ (net.ntop af l).length ≤ 45) (hport : port < 65536) :
    Checked net stack af addr port ↔
      addr.length < 4 ∨ 128 < addr.length ∨ addr.length = af.size := by
  have hsize : 4 ≤ af.size ∧ af.size ≤ af.room ∧ af.room ≤ 20 := by
    cases af with
    | ipv4 => decide
    | ipv6 => decide
  constructor
  · rintro ⟨hcases, hcopied⟩
    by_contra hno
    -- the vector passes the test and is not refused
    unfold copied at hcopied
    rw [if_neg (by omega)] at hcopied
    rcases hcases with ⟨e, he, -⟩ | ⟨hlen, -⟩
    · obtain ⟨a, ha, -⟩ :=
        of_vector_fits stack hntop hport (by omega : 4 ≤ addr.length) (by omega)
      rw [he] at ha
      exact absurd ha (by simp)
    · omega
  · intro h
    unfold Checked copied
    by_cases hbad : addr.length < 4 ∨ 128 < addr.length
    · rw [if_pos hbad]
      exact ⟨Or.inl ⟨_, of_vector_short hbad, by simp⟩, Nat.zero_le _⟩
    · have hlen : addr.length = af.size := by omega
      rw [if_neg hbad]
      refine ⟨Or.inr ⟨hlen, ?_⟩, le_of_eq hlen⟩
      obtain ⟨a, ha, hf, hp, hip⟩ :=
        of_vector_fits stack hntop hport (by omega : 4 ≤ addr.length) (by omega)
      refine ⟨a, ha, hf, ?_, hp⟩
      rw [hip, ← hlen]
      exact slice_write_same stack 0 addr

end Vector

end address

/-- The text `inet_ntop` makes of an IPv4 address. -/
def dotted (l : List UInt8) : Str :=
  ['.'].intercalate (l.map fun b => detail.decimal b.toNat)

/-- A C library that prints IPv4 addresses, and reads one of them. -/
def Inet.sample : Inet where
  pton := fun af s => if af = .ipv4 ∧ s = "9.9.9.9".toList then some [9, 9, 9, 9] else none
  pton_length := by
    intro af s l h
    split_ifs at h with hcond
    rw [← Option.some.inj h, hcond.1]
    rfl
  ntop := fun af l => match af with
    | .ipv4 => dotted l
    | .ipv6 => "::".toList

namespace address

/-- Four numbers below 256 and three dots. -/
theorem dotted_length {l : List UInt8} (h : l.length = 4) :
    0 < (dotted l).length ∧ (dotted l).length ≤ 45 := by
  obtain ⟨a, b, c, d, rfl⟩ := List.length_eq_four.mp h
  have hle : ∀ x : UInt8, (detail.decimal x.toNat).length ≤ 5 := fun x =>
    detail.decimal_length_le (lt_trans x.toNat_lt (by decide))
  have h₁ := hle a
  have h₂ := hle b
  have h₃ := hle c
  have h₄ := hle d
  have hpos : 0 < (detail.decimal a.toNat).length :=
    List.length_pos_iff.mpr (detail.decimal_ne_nil _)
  simp [dotted, List.intercalate, List.intersperse]
  omega

/-- The four bytes of an A record. -/
theorem of_vector_checked_iff_sample :
    Checked Inet.sample (fun _ => 0) .ipv4 [9, 9, 9, 9] 53 :=
  (of_vector_checked_iff (fun _ h => dotted_length h) (by decide)).mpr
    (Or.inr (Or.inr rfl))

/-- **Five bytes** of data in an A record are taken for an address: the fifth is copied
behind the field. -/
theorem of_vector_five_bytes :
    (∃ a, of_vector Inet.sample (fun _ => 0) .ipv4 [9, 9, 9, 9, 7] 0 = .ok a) ∧
      ¬ Checked Inet.sample (fun _ => 0) .ipv4 [9, 9, 9, 9, 7] 0 := by
  have hfits := @of_vector_fits Inet.sample .ipv4 0 (fun _ => 0) [9, 9, 9, 9, 7]
    (fun _ h => dotted_length h) (by decide) (by decide) (by decide)
  obtain ⟨a, ha, -⟩ := hfits
  exact ⟨⟨a, ha⟩, fun hchecked => absurd hchecked.2 (by decide)⟩

end address

end Cdns
