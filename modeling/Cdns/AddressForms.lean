/-
The texts that are addresses, and equality of addresses (`network/srcz/address.cpp`).

`detail::split` looks for colons and brackets before any address is parsed; what it makes of a
text is `Splits`, and nothing else (`split_eq_ok`). All texts that stand for an address are read
as that address (`of_text_round_trip`). Of the other texts some are read as well: what follows a
closing bracket is looked at only if it starts with the last colon, and a port goes through
`strtol`, which skips white space, takes a sign and stops at a blank or at a NUL
(`of_text_form_iff`).

`operator==` compares the arrays of two IPv6 addresses, and in C++ that compares where they are
(`eq_agrees_iff`).
-/
import Cdns.AddressText

set_option autoImplicit false

namespace Cdns

/-! ## Texts of an address -/

namespace detail

/-- A text is split in one of the five ways. -/
theorem split_eq_ok {s : Str} {a : ip_port_t} : split s = .ok a ↔ Splits s a := by
  refine ⟨fun h => ?_, Splits.split⟩
  -- a way in which the text can be split is the way in which it was
  have hsame : ∀ {b}, Splits s b → Splits s a := by
    intro b hb
    rw [hb.split] at h
    rw [← Except.ok.inj h]
    exact hb
  by_cases hne : s = []
  · rw [hne] at h
    exact absurd h (by simp [split])
  by_cases hfirst : s.head? = some '['
  · obtain ⟨t, rfl⟩ : ∃ t, s = '[' :: t := by
      obtain ⟨c, t, rfl⟩ := List.exists_cons_of_ne_nil hne
      rw [List.head?_cons, Option.some.injEq] at hfirst
      exact ⟨t, by rw [hfirst]⟩
    by_cases hclose : ']' ∈ t
    · obtain ⟨ip, rest, rfl, hip⟩ := List.eq_append_cons_of_mem hclose
      have hform : '[' :: (ip ++ ']' :: rest) = '[' :: ip ++ [']'] ++ rest := by simp
      rw [hform] at h hsame ⊢
      by_cases hempty : ip = []
      · rw [hempty] at h
        exact absurd h (by simp [split, List.idxOf?_cons])
      by_cases hrest : ∃ port, rest = ':' :: port ∧ ':' ∉ port
      · obtain ⟨port, rfl, hport⟩ := hrest
        exact hsame (.bracket_port hip hempty hport)
      · refine hsame (.bracket hip hempty ?_)
        intro port heq
        by_contra hport
        exact hrest ⟨port, heq, hport⟩
    · have hnone : ('[' :: t).idxOf? ']' = none := by
        rw [List.idxOf?_eq_none_iff, List.mem_cons, not_or]
        exact ⟨by decide, hclose⟩
      unfold split at h
      rw [hnone] at h
      simp at h
  · by_cases hcolon : ':' ∈ s
    · obtain ⟨ip, port, rfl, hip⟩ := List.eq_append_cons_of_mem hcolon
      by_cases hport : ':' ∈ port
      · refine hsame (.colons hfirst ?_)
        have hpos := List.count_pos_iff.mpr hport
        rw [List.count_append, List.count_cons_self]
        omega
      · exact hsame (.colon hfirst hip hport)
    · exact hsame (.bare hne hfirst hcolon)

end detail

namespace address

/-- **Address text round trip.** Take an address whose text is as POSIX says, with two colons at
least if it is IPv6. With its port, as `ip_port` prints it, the text is read as the address; alone
or, for IPv6, in brackets it is read with the default port; with any other port it is read with
that port. -/
theorem of_text_round_trip {net : Inet} {a : address} (h : a.Posix net)
    (hcolons : a.inet = .ipv6 → 2 ≤ (a.ip_text net).count ':') (hport : a.port < 65536) {q : ℕ}
    (hq : q < 65536) (p : ℕ) :
    of_text net (a.ip_port net) p = .ok a ∧
      of_text net (a.ip_text net) p = .ok { a with port := p } ∧
      (a.inet = .ipv6 →
        of_text net ('[' :: a.ip_text net ++ [']']) p = .ok { a with port := p }) ∧
      (a.inet = .ipv4 →
        of_text net (a.ip_text net ++ ':' :: detail.decimal q) p = .ok { a with port := q }) ∧
      (a.inet = .ipv6 → of_text net ('[' :: a.ip_text net ++ [']'] ++ ':' :: detail.decimal q) p
        = .ok { a with port := q }) := by
  have hne : a.ip_text net ≠ [] := List.length_pos_iff.mp h.length_pos
  have hhead := h.head_ne []
  rw [List.append_nil] at hhead
  refine ⟨of_text_ip_port h hport p, ?_, ?_, fun hf => of_text_ipv4_port h hf p hq,
    fun hf => of_text_ipv6_port h hf p hq⟩
  · -- alone: an IPv6 address has colons enough, an IPv4 address has none
    refine of_text_splits h ?_ (if_pos rfl)
    cases hf : a.inet with
    | ipv4 => exact .bare hne hhead fun hc => absurd (h.ipv4_chars hf _ hc) (by decide)
    | ipv6 => exact .colons hhead (hcolons hf)
  · intro hf
    refine of_text_splits h ?_ (if_pos rfl)
    have hbracket : detail.Splits ('[' :: a.ip_text net ++ [']'] ++ []) ⟨a.ip_text net, [], true⟩ :=
      .bracket (fun hc => absurd (h.ipv6_chars hf _ hc) (by decide)) hne fun port heq =>
        absurd heq (by simp)
    rw [List.append_nil] at hbracket
    rw [hf]
    exact hbracket

/-! ## Forms -/

/-- The forms in which an address can be given. -/
inductive form where
  | ip4
  | ip4_port
  | ip6
  | bracket
  | bracket_port
  deriving DecidableEq, Repr

/-- Decimal digits. -/
def Digits (port : Str) : Prop := port ≠ [] ∧ ∀ c ∈ port, c.isDigit = true

/-- A decimal number in 0..65535. -/
def IsPort (port : Str) : Prop := Digits port ∧ detail.number port ≤ 65535

/-- The text has the form, with addresses that `inet_pton` takes. -/
def HasForm (net : Inet) (s : Str) : form → Prop
  | .ip4 => (net.pton .ipv4 s).isSome
  | .ip4_port => ∃ ip port, s = ip ++ ':' :: port ∧ (net.pton .ipv4 ip).isSome ∧ IsPort port
  | .ip6 => (net.pton .ipv6 s).isSome
  | .bracket => ∃ ip, s = '[' :: ip ++ [']'] ∧ (net.pton .ipv6 ip).isSome
  | .bracket_port => ∃ ip port, s = '[' :: ip ++ [']'] ++ ':' :: port ∧
      (net.pton .ipv6 ip).isSome ∧ IsPort port

/-- The form that a text can have, by its first and last character and its colons. -/
def shape (s : Str) : form :=
  if s.head? = some '[' then if s.getLast? = some ']' then .bracket else .bracket_port
  else if s.count ':' = 0 then .ip4
  else if s.count ':' = 1 then .ip4_port
  else .ip6

/-- **A text that is read without its oddities**: no NUL is in it; behind the closing bracket of a
text that starts with a bracket comes nothing, or a colon and digits; and behind the only colon
of any other text come digits. -/
structure Regular (s : Str) : Prop where
  nul : '\x00' ∉ s
  bracket : ∀ ip rest, s = '[' :: ip ++ [']'] ++ rest → ']' ∉ ip →
    rest = [] ∨ ∃ port, rest = ':' :: port ∧ Digits port
  colon : ∀ ip port, s = ip ++ ':' :: port → s.head? ≠ some '[' → ':' ∉ ip → ':' ∉ port →
    Digits port

theorem Digits.not_mem {port : Str} (h : Digits port) {c : Char} (hc : c.isDigit = false) :
    c ∉ port := by
  intro hmem
  rw [h.2 c hmem] at hc
  exact absurd hc (by simp)

end address

/-- What POSIX says of the texts that `inet_pton` takes: digits and dots, or also hexadecimal
digits and colons, of which there are two at least. -/
structure Inet.Accepts (net : Inet) : Prop where
  ipv4_chars : ∀ s, (net.pton .ipv4 s).isSome → ∀ c ∈ s, c ∈ "0123456789.".toList
  ipv6_chars : ∀ s, (net.pton .ipv6 s).isSome → ∀ c ∈ s, c ∈ "0123456789abcdefABCDEF.:".toList
  ipv6_colons : ∀ s, (net.pton .ipv6 s).isSome → 2 ≤ s.count ':'

namespace address

section Forms

variable {net : Inet} {s : Str} {f : form}

/-- An address that is not in brackets does not start with one. -/
theorem head_ne_of_chars {s set : Str} (h : ∀ c ∈ s, c ∈ set) (hset : '[' ∉ set) {rest : Str}
    (hrest : rest.head? ≠ some '[') : (s ++ rest).head? ≠ some '[' := by
  cases s with
  | nil => exact hrest
  | cons c cs =>
      rw [List.cons_append, List.head?_cons, ne_eq, Option.some.injEq]
      rintro rfl
      exact hset (h _ List.mem_cons_self)

/-- **A text has no other form than its shape.** -/
theorem HasForm.eq_shape (hnet : net.Accepts) (h : HasForm net s f) : f = shape s := by
  unfold shape
  cases f with
  | ip4 =>
      have hchars := hnet.ipv4_chars s h
      have hhead : s.head? ≠ some '[' := by
        have hhead := @head_ne_of_chars s _ hchars (by decide) [] (by simp)
        rwa [List.append_nil] at hhead
      have hcolon : s.count ':' = 0 :=
        List.count_eq_zero.mpr fun hc => absurd (hchars _ hc) (by decide)
      rw [if_neg hhead, if_pos hcolon]
  | ip4_port =>
      obtain ⟨ip, port, rfl, hip, hport, -⟩ := h
      have hchars := hnet.ipv4_chars ip hip
      have hhead := @head_ne_of_chars ip _ hchars (by decide) (':' :: port) (by simp)
      have hcolon : (ip ++ ':' :: port).count ':' = 1 := by
        rw [List.count_append, List.count_cons_self, List.count_eq_zero.mpr (hport.not_mem (by decide)),
          List.count_eq_zero.mpr fun hc => absurd (hchars _ hc) (by decide)]
      rw [if_neg hhead, hcolon]
      rfl
  | ip6 =>
      have hchars := hnet.ipv6_chars s h
      have hhead : s.head? ≠ some '[' := by
        have hhead := @head_ne_of_chars s _ hchars (by decide) [] (by simp)
        rwa [List.append_nil] at hhead
      have hcolons := hnet.ipv6_colons s h
      rw [if_neg hhead, if_neg (by omega), if_neg (by omega)]
  | bracket =>
      obtain ⟨ip, rfl, -⟩ := h
      rw [if_pos (by simp), if_pos List.getLast?_concat]
  | bracket_port =>
      obtain ⟨ip, port, rfl, -, hport, -⟩ := h
      rw [if_pos (by simp), if_neg]
      intro hlast
      -- the last character is a digit
      have hmem : ']' ∈ port := by
        rw [List.getLast?_append_of_ne_nil _ (by simp), List.getLast?_cons,
          List.getLast?_eq_getLast_of_ne_nil hport.1] at hlast
        rw [← Option.some.inj hlast]
        exact List.getLast_mem hport.1
      exact hport.not_mem (by decide) hmem

/-- A text is cut in one way at the first occurrence of a character. -/
theorem cut_unique {c : Char} {l₁ l₂ m₁ m₂ : Str} (h : l₁ ++ c :: m₁ = l₂ ++ c :: m₂)
    (h₁ : c ∉ l₁) (h₂ : c ∉ l₂) : l₁ = l₂ ∧ m₁ = m₂ := by
  have hlen : l₁.length = l₂.length := by
    have hidx := detail.idxOf?_append_cons m₁ h₁
    rw [h, detail.idxOf?_append_cons m₂ h₂] at hidx
    exact (Option.some.inj hidx).symm
  obtain ⟨hl, hm⟩ := List.append_inj h hlen
  exact ⟨hl, (List.cons.inj hm).2⟩

/-- A text that does not start with a bracket and has no NUL. -/
theorem regular_of_plain (hnul : '\x00' ∉ s) (hhead : s.head? ≠ some '[')
    (hcolon : ∀ ip port, s = ip ++ ':' :: port → ':' ∉ ip → ':' ∉ port → Digits port) :
    Regular s := by
  refine ⟨hnul, ?_, fun ip port heq _ => hcolon ip port heq⟩
  intro ip rest heq _
  rw [heq] at hhead
  exact absurd (by simp) hhead

/-- A text in brackets. -/
theorem regular_of_bracket {ip : Str} (hnul : '\x00' ∉ ip) (hip : ']' ∉ ip) (rest : Str)
    (hrest : rest = [] ∨ ∃ port, rest = ':' :: port ∧ Digits port) :
    Regular ('[' :: ip ++ [']'] ++ rest) := by
  refine ⟨?_, ?_, ?_⟩
  · have hrest' : '\x00' ∉ rest := by
      rcases hrest with rfl | ⟨port, rfl, hport⟩
      · exact List.not_mem_nil
      · rw [List.mem_cons, not_or]
        exact ⟨by decide, hport.not_mem (by decide)⟩
    simp only [List.cons_append, List.mem_cons, List.mem_append, List.not_mem_nil, or_false, not_or]
    exact ⟨by decide, ⟨hnul, by decide⟩, hrest'⟩
  · intro ip' rest' heq hip'
    have hcut : ip ++ ']' :: rest = ip' ++ ']' :: rest' := by simpa using heq
    obtain ⟨-, hsame⟩ := cut_unique hcut hip hip'
    rw [← hsame]
    exact hrest
  · intro ip' port heq hhead
    exact absurd (by simp) hhead

/-- A text with a form has no oddities. -/
theorem HasForm.regular (hnet : net.Accepts) (h : HasForm net s f) : Regular s := by
  cases f with
  | ip4 =>
      have hchars := hnet.ipv4_chars s h
      have hhead : s.head? ≠ some '[' := by
        have hhead := @head_ne_of_chars s _ hchars (by decide) [] (by simp)
        rwa [List.append_nil] at hhead
      refine regular_of_plain (fun hc => absurd (hchars _ hc) (by decide)) hhead ?_
      intro ip port heq
      have hmem : ':' ∈ s := by rw [heq]; exact List.mem_append_right _ List.mem_cons_self
      exact absurd (hchars _ hmem) (by decide)
  | ip4_port =>
      obtain ⟨ip, port, rfl, hip, hport, -⟩ := h
      have hchars := hnet.ipv4_chars ip hip
      have hhead := @head_ne_of_chars ip _ hchars (by decide) (':' :: port) (by simp)
      refine regular_of_plain ?_ hhead ?_
      · rw [List.mem_append, List.mem_cons, not_or, not_or]
        exact ⟨fun hc => absurd (hchars _ hc) (by decide), by decide, hport.not_mem (by decide)⟩
      · intro ip' port' heq hip' _
        obtain ⟨-, hsame⟩ :=
          cut_unique heq (fun hc => absurd (hchars _ hc) (by decide)) hip'
        rw [← hsame]
        exact hport
  | ip6 =>
      have hchars := hnet.ipv6_chars s h
      have hhead : s.head? ≠ some '[' := by
        have hhead := @head_ne_of_chars s _ hchars (by decide) [] (by simp)
        rwa [List.append_nil] at hhead
      refine regular_of_plain (fun hc => absurd (hchars _ hc) (by decide)) hhead ?_
      intro ip port heq hip hport
      -- there is one colon at most
      have hcolons := hnet.ipv6_colons s h
      rw [heq, List.count_append, List.count_cons_self, List.count_eq_zero.mpr hip,
        List.count_eq_zero.mpr hport] at hcolons
      omega
  | bracket =>
      obtain ⟨ip, rfl, hip⟩ := h
      have hchars := hnet.ipv6_chars ip hip
      have hreg := regular_of_bracket (fun hc => absurd (hchars _ hc) (by decide))
        (fun hc => absurd (hchars _ hc) (by decide)) [] (Or.inl rfl)
      rw [List.append_nil] at hreg
      exact hreg
  | bracket_port =>
      obtain ⟨ip, port, rfl, hip, hport, -⟩ := h
      have hchars := hnet.ipv6_chars ip hip
      exact regular_of_bracket (fun hc => absurd (hchars _ hc) (by decide))
        (fun hc => absurd (hchars _ hc) (by decide)) _ (Or.inr ⟨port, rfl, hport⟩)

/-- A text that is read and has no oddities has a form. -/
theorem Regular.hasForm {p : ℕ} {a : address} (hreg : Regular s) (h : of_text net s p = .ok a) :
    ∃ f, HasForm net s f := by
  obtain ⟨b, hsplit, hport, hinet, hpton⟩ := of_text_eq_ok.mp h
  have hnul : ∀ t : Str, (∀ c ∈ t, c ∈ s) → Str.c_str t = t := by
    intro t ht
    exact Str.c_str_of_no_nul fun hc => hreg.nul (ht _ hc)
  -- a port of digits was read by `str2u16`
  have hread : ∀ port, b.port = port → Digits port → IsPort port := by
    intro port heq hdigits
    rw [heq, if_neg hdigits.1, detail.str2u16_digits hdigits.1 hdigits.2] at hport
    exact ⟨hdigits, hport.2⟩
  cases detail.split_eq_ok.mp hsplit with
  | @bracket_port ip port hip hne hcolon =>
      rw [hnul ip (by intro c hc; simp [hc])] at hpton
      rcases hreg.bracket ip _ rfl hip with hnil | ⟨port', heq, hdigits⟩
      · exact absurd hnil (by simp)
      · obtain rfl : port = port' := (List.cons.inj heq).2
        refine ⟨.bracket_port, ip, port, rfl, ?_, hread port rfl hdigits⟩
        rw [hinet] at hpton
        exact Option.isSome_of_eq_some hpton
  | @bracket ip rest hip hne hrest =>
      rw [hnul ip (by intro c hc; simp [hc])] at hpton
      rcases hreg.bracket ip rest rfl hip with hnil | ⟨port, heq, hdigits⟩
      · refine ⟨.bracket, ip, by rw [hnil, List.append_nil], ?_⟩
        rw [hinet] at hpton
        exact Option.isSome_of_eq_some hpton
      · exact absurd (hrest port heq) (hdigits.not_mem (by decide))
  | colons hfirst hcolons =>
      rw [hnul s fun _ hc => hc] at hpton
      refine ⟨.ip6, ?_⟩
      rw [hinet] at hpton
      exact Option.isSome_of_eq_some hpton
  | @colon ip port hfirst hip hcolon =>
      rw [hnul ip (by intro c hc; simp [hc])] at hpton
      have hdigits := hreg.colon ip port rfl hfirst hip hcolon
      refine ⟨.ip4_port, ip, port, rfl, ?_, hread port rfl hdigits⟩
      rw [hinet] at hpton
      exact Option.isSome_of_eq_some hpton
  | bare hne hfirst hcolon =>
      rw [hnul s fun _ hc => hc] at hpton
      refine ⟨.ip4, ?_⟩
      rw [hinet] at hpton
      exact Option.isSome_of_eq_some hpton

/-- **Which texts are addresses.** Take any text that the constructor does not refuse, with a
library that takes the texts POSIX says. It has exactly one of the forms `ip4`, `ip4:port`,
`ip6`, `[ip6]` and `[ip6]:port` if and only if it has no NUL, nothing but a colon and digits
behind a closing bracket, and nothing but digits behind a single colon. -/
theorem of_text_form_iff (hnet : net.Accepts) {p : ℕ} {a : address}
    (h : of_text net s p = .ok a) : (∃! f, HasForm net s f) ↔ Regular s := by
  constructor
  · rintro ⟨f, hf, -⟩
    exact hf.regular hnet
  · intro hreg
    obtain ⟨f, hf⟩ := hreg.hasForm h
    refine ⟨f, hf, fun g hg => ?_⟩
    rw [hg.eq_shape hnet, hf.eq_shape hnet]

end Forms

/-! ### A library with two addresses -/

/-- The bytes of the address `::1`. -/
def loopback : List UInt8 := [0, 0, 0, 0, 0, 0, 0, 0, 0, 0, 0, 0, 0, 0, 0, 1]

/-- A library that reads `9.9.9.9` and `::1`. -/
def sampleNet : Inet where
  pton := fun af s => match af with
    | .ipv4 => if s = "9.9.9.9".toList then some [9, 9, 9, 9] else none
    | .ipv6 => if s = "::1".toList then some loopback else none
  pton_length := by
    intro af s l h
    cases af with
    | ipv4 =>
        dsimp only at h
        split_ifs at h
        rw [← Option.some.inj h]
        rfl
    | ipv6 =>
        dsimp only at h
        split_ifs at h
        rw [← Option.some.inj h]
        rfl
  ntop := fun af l => match af with
    | .ipv4 => dotted l
    | .ipv6 => if l = loopback then "::1".toList else "::".toList

theorem sampleNet_ipv4 {s : Str} (h : (sampleNet.pton .ipv4 s).isSome) : s = "9.9.9.9".toList := by
  by_contra hne
  have hnone : sampleNet.pton .ipv4 s = none := if_neg hne
  rw [hnone] at h
  exact absurd h (by simp)

theorem sampleNet_ipv6 {s : Str} (h : (sampleNet.pton .ipv6 s).isSome) : s = "::1".toList := by
  by_contra hne
  have hnone : sampleNet.pton .ipv6 s = none := if_neg hne
  rw [hnone] at h
  exact absurd h (by simp)

theorem sampleNet_accepts : sampleNet.Accepts where
  ipv4_chars := by
    intro s h
    rw [sampleNet_ipv4 h]
    exact List.all_iff_forall_prop.mp (by decide)
  ipv6_chars := by
    intro s h
    rw [sampleNet_ipv6 h]
    exact List.all_iff_forall_prop.mp (by decide)
  ipv6_colons := by
    intro s h
    rw [sampleNet_ipv6 h]
    decide

/-- `[::1]:443`. -/
def sampleLoopback : address := ⟨.ipv6, loopback, 443, rfl⟩

theorem sampleLoopback_posix : sampleLoopback.Posix sampleNet where
  length_pos := by decide
  length_le := by decide
  ipv4_chars := fun hf => absurd hf (by decide)
  ipv6_chars := fun _ => List.all_iff_forall_prop.mp (by decide)
  undone := rfl

theorem of_text_round_trip_sample :
    of_text sampleNet (sampleLoopback.ip_port sampleNet) 53 = .ok sampleLoopback ∧
      of_text sampleNet (sampleLoopback.ip_text sampleNet) 53
        = .ok { sampleLoopback with port := 53 } := by
  obtain ⟨h₁, h₂, -⟩ := of_text_round_trip sampleLoopback_posix (fun _ => by decide) (by decide)
    (by decide : 80 < 65536) 53
  exact ⟨h₁, h₂⟩

/-- Behind the bracket comes a port. -/
theorem of_text_form_iff_sample :
    Regular (sampleLoopback.ip_port sampleNet) ∧
      ∃! f, HasForm sampleNet (sampleLoopback.ip_port sampleNet) f := by
  have hreg : Regular (sampleLoopback.ip_port sampleNet) :=
    @regular_of_bracket "::1".toList (by decide) (by decide) (':' :: detail.decimal 443)
      (Or.inr ⟨_, rfl, by decide, fun c => detail.decimal_isDigit⟩)
  exact ⟨hreg, (of_text_form_iff sampleNet_accepts
    (of_text_ip_port sampleLoopback_posix (by decide) 53)).mpr hreg⟩

/-- **What follows a bracket is not looked at**: a text is read that has none of the forms. -/
theorem of_text_behind_bracket :
    of_text sampleNet "[::1]x".toList 53 = .ok { sampleLoopback with port := 53 } ∧
      ¬ ∃! f, HasForm sampleNet "[::1]x".toList f := by
  have hsplit : detail.Splits ('[' :: "::1".toList ++ [']'] ++ ['x']) ⟨"::1".toList, [], true⟩ :=
    .bracket (by decide) (by decide) fun port heq => absurd heq (by simp)
  refine ⟨of_text_splits sampleLoopback_posix hsplit (if_pos rfl), ?_⟩
  rintro ⟨f, hf, -⟩
  rcases (hf.regular sampleNet_accepts).bracket "::1".toList ['x'] rfl (by decide) with
    h | ⟨port, h, -⟩
  · exact absurd h (by simp)
  · exact absurd h (by simp)

/-! ## Equality -/

/-- `address::operator==`, on the addresses at two places of the memory. `s6_addr` is an array,
and `==` on two arrays compares their places. -/
def eq (memory : ℕ → address) (i j : ℕ) : Bool :=
  let a := memory i
  let b := memory j
  if b.inet ≠ a.inet then false
  else
    match a.inet with
    | .ipv4 => a.ip == b.ip && a.port == b.port
    | .ipv6 => i == j && a.port == b.port

/-- The texts of two addresses are the same only if the addresses are. -/
theorem ip_port_inj {net : Inet} {a b : address} (ha : a.Posix net) (hb : b.Posix net)
    (hpa : a.port < 65536) (hpb : b.port < 65536) : a.ip_port net = b.ip_port net ↔ a = b := by
  refine ⟨fun h => ?_, fun h => by rw [h]⟩
  have hread := of_text_ip_port ha hpa 0
  rw [h, of_text_ip_port hb hpb 0] at hread
  exact (Except.ok.inj hread).symm

/-- What equality should be: the same family, bytes and port, which is the same text. -/
def Agrees (net : Inet) (memory : ℕ → address) (i j : ℕ) : Prop :=
  (eq memory i j = true ↔ (memory i).inet = (memory j).inet ∧ (memory i).ip = (memory j).ip ∧
    (memory i).port = (memory j).port) ∧
  (eq memory i j = true ↔ (memory i).ip_port net = (memory j).ip_port net)

/-- The same address twice, in the sense of `operator==`. -/
theorem eq_iff (memory : ℕ → address) (i j : ℕ) :
    eq memory i j = true ↔ memory i = memory j ∧ ((memory i).inet = .ipv6 → i = j) := by
  unfold eq
  dsimp only
  by_cases hfamily : (memory j).inet ≠ (memory i).inet
  · rw [if_pos hfamily]
    refine iff_of_false (by simp) ?_
    rintro ⟨heq, -⟩
    exact hfamily (by rw [heq])
  rw [if_neg hfamily]
  have hsame : memory i = memory j ↔
      (memory i).ip = (memory j).ip ∧ (memory i).port = (memory j).port := by
    obtain hfam := not_not.mp hfamily
    generalize memory i = a at hfam ⊢
    generalize memory j = b at hfam ⊢
    obtain ⟨inet, ip, port, hlen⟩ := a
    obtain ⟨inet', ip', port', hlen'⟩ := b
    dsimp only at hfam
    simp [hfam]
  split
  · next hf =>
    rw [hf, hsame]
    simp
  · next hf =>
    rw [hf]
    simp only [Bool.and_eq_true, beq_iff_eq, forall_const]
    constructor
    · rintro ⟨rfl, -⟩
      exact ⟨rfl, rfl⟩
    · rintro ⟨-, rfl⟩
      exact ⟨rfl, rfl⟩

/-- **When equality agrees with the printed identity.** For any two addresses, with their texts as
POSIX says: `operator==` tells whether family, bytes and port are the same, and whether the texts
are, exactly when the two are not two copies of one IPv6 address. -/
theorem eq_agrees_iff {net : Inet} {memory : ℕ → address} {i j : ℕ} (hi : (memory i).Posix net)
    (hj : (memory j).Posix net) (hpi : (memory i).port < 65536) (hpj : (memory j).port < 65536) :
    Agrees net memory i j ↔ ¬ (i ≠ j ∧ (memory i).inet = .ipv6 ∧ memory i = memory j) := by
  have hsame : ((memory i).inet = (memory j).inet ∧ (memory i).ip = (memory j).ip ∧
      (memory i).port = (memory j).port) ↔ memory i = memory j := by
    generalize memory i = a
    generalize memory j = b
    obtain ⟨inet, ip, port, hlen⟩ := a
    obtain ⟨inet', ip', port', hlen'⟩ := b
    simp
  rw [Agrees, hsame, ip_port_inj hi hj hpi hpj, eq_iff]
  tauto

theorem sampleServer4_length : ([9, 9, 9, 9] : List UInt8).length = inet.ipv4.size := rfl

/-- `9.9.9.9:53`. -/
def sampleServer4 : address := ⟨.ipv4, [9, 9, 9, 9], 53, sampleServer4_length⟩

theorem sampleServer4_posix : sampleServer4.Posix sampleNet where
  length_pos := by decide
  length_le := by decide
  ipv4_chars := fun _ => List.all_iff_forall_prop.mp (by decide)
  ipv6_chars := fun hf => absurd hf (by decide)
  undone := rfl

theorem eq_agrees_iff_sample : Agrees sampleNet (fun _ => sampleServer4) 0 1 :=
  (eq_agrees_iff sampleServer4_posix sampleServer4_posix (by decide) (by decide)).mpr
    fun h => absurd h.2.1 (by decide)

/-- **A copy of an IPv6 address** is not equal to it. -/
theorem eq_copy : ¬ Agrees sampleNet (fun _ => sampleLoopback) 0 1 := by
  rintro ⟨h, -⟩
  exact absurd (h.mpr ⟨rfl, rfl, rfl⟩) (by decide)

end address

end Cdns
