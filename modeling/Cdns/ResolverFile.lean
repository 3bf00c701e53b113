/-
The list of resolvers, written and read back.

The reader understands columns in quotes, which may have commas in them; the writer quotes
nothing. A line without quotes is cut at its commas (`parse_line_intercalate`), so the line
of a resolver has as many columns more than three as its host name has commas
(`parse_resolver_line`), and a file with such a line is refused. Nothing else can go wrong:
the address and the key have neither commas nor quotes in their texts, and a host name that
was read has no line feed, carriage return or quote in it and is not too long
(`parse_line_words`). So a list survives exactly when no host name has a comma
(`round_trip_iff`).
-/
import Cdns.Csv

set_option autoImplicit false

namespace Cdns

open Lib.Split

/-! ## The texts of a line -/

/-- A word of letters, digits, dots, colons and brackets is plain and has no comma. -/
theorem csv.plain_of_chars {w : Str} (hlen : w.length ≤ 32001)
    (h : ∀ c ∈ w, c.isDigit = true ∨ c ∈ "abcdefABCDEF.:[]".toList) : Plain w ∧ ',' ∉ w := by
  have hother : ∀ c, c.isDigit = false → c ∉ "abcdefABCDEF.:[]".toList → c ∉ w := by
    intro c h₁ h₂ hc
    rcases h c hc with h₃ | h₃
    · rw [h₁] at h₃
      exact absurd h₃ (by simp)
    · exact h₂ h₃
  refine ⟨⟨?_, ?_, ?_, hlen⟩, ?_⟩
  all_goals exact hother _ (by decide) (by decide)

/-- The text of an address. -/
theorem address.ip_port_plain {net : Inet} {a : address} (h : a.Posix net) (hport : a.port < 65536) :
    csv.Plain (a.ip_port net) ∧ ',' ∉ a.ip_port net := by
  have hip : ∀ c ∈ a.ip_text net, c.isDigit = true ∨ c ∈ "abcdefABCDEF.:[]".toList := by
    have hset : ∀ c ∈ "0123456789abcdef.:".toList,
        c.isDigit = true ∨ c ∈ "abcdefABCDEF.:[]".toList := List.all_iff_forall_prop.mp (by decide)
    have hsub : ∀ c ∈ "0123456789.".toList, c ∈ "0123456789abcdef.:".toList :=
      List.all_iff_forall_prop.mp (by decide)
    intro c hc
    cases hf : a.inet with
    | ipv4 => exact hset c (hsub c (h.ipv4_chars hf c hc))
    | ipv6 => exact hset c (h.ipv6_chars hf c hc)
  have hlen := h.length_le
  have hdigits := detail.decimal_length_le hport
  apply csv.plain_of_chars
  · unfold ip_port
    cases a.inet with
    | ipv4 =>
        simp only [List.length_append, List.length_cons]
        omega
    | ipv6 =>
        simp only [List.length_append, List.length_cons, List.length_nil]
        omega
  · intro c hc
    unfold ip_port at hc
    rcases List.mem_append.mp hc with hc | hc
    · cases hf : a.inet with
      | ipv4 =>
          rw [hf] at hc
          exact hip c hc
      | ipv6 =>
          rw [hf] at hc
          simp only [List.cons_append, List.mem_cons, List.mem_append, List.not_mem_nil,
            or_false] at hc
          rcases hc with rfl | hc | rfl
          · exact Or.inr (by decide)
          · exact hip c hc
          · exact Or.inr (by decide)
    · rcases List.mem_cons.mp hc with rfl | hc
      · exact Or.inr (by decide)
      · exact Or.inl (detail.decimal_isDigit hc)

namespace crypt

theorem hex_digit_char {n : ℕ} (h : n < 16) :
    (hex_digit n).isDigit = true ∨ hex_digit n ∈ "abcdefABCDEF.:[]".toList := by
  interval_cases n
  all_goals decide

theorem bin2hex_chars (key : List UInt8) :
    ∀ c ∈ bin2hex key, c.isDigit = true ∨ c ∈ "abcdefABCDEF.:[]".toList := by
  have hbyte : ∀ b : UInt8, ∀ c ∈ hex_byte b,
      c.isDigit = true ∨ c ∈ "abcdefABCDEF.:[]".toList := by
    intro b c hc
    have hlt := b.toNat_lt
    simp only [hex_byte, List.mem_cons, List.not_mem_nil, or_false] at hc
    rcases hc with rfl | rfl
    · exact hex_digit_char (by omega)
    · exact hex_digit_char (by omega)
  -- two bytes in each turn
  induction key using bin2hex.induct with
  | case1 a b rest ih =>
      intro c hc
      rw [bin2hex] at hc
      simp only [List.mem_append] at hc
      rcases hc with (hc | hc) | hc
      · exact hbyte a c hc
      · exact hbyte b c hc
      · split_ifs at hc with hrest
        · exact absurd hc List.not_mem_nil
        · rcases List.mem_cons.mp hc with rfl | hc
          · exact Or.inr (by decide)
          · exact ih c hc
  | case2 key hkey =>
      intro c hc
      rw [bin2hex] at hc
      · exact absurd hc List.not_mem_nil
      · exact hkey

theorem bin2hex_length (key : List UInt8) : (bin2hex key).length ≤ 3 * key.length := by
  induction key using bin2hex.induct with
  | case1 a b rest ih =>
      rw [bin2hex]
      simp only [List.length_append, hex_byte, List.length_cons, List.length_nil]
      split_ifs with hrest
      · simp only [List.length_nil]
        omega
      · simp only [List.length_cons]
        omega
  | case2 key hkey =>
      rw [bin2hex]
      · exact Nat.zero_le _
      · exact hkey

theorem length_le_bin2hex (key : List UInt8) : key.length ≤ (bin2hex key).length + 1 := by
  induction key using bin2hex.induct with
  | case1 a b rest ih =>
      rw [bin2hex]
      simp only [List.length_append, hex_byte, List.length_cons, List.length_nil]
      split_ifs with hrest
      · rw [hrest]
        decide
      · simp only [List.length_cons]
        omega
  | case2 key hkey =>
      match key, hkey with
      | [], _ => exact Nat.zero_le _
      | [_], _ => exact le_refl _
      | a :: b :: rest, hkey => exact absurd rfl (hkey a b rest)

/-- The text of a key. -/
theorem bin2hex_plain (key : pubkey) : csv.Plain (bin2hex key.bytes) ∧ ',' ∉ bin2hex key.bytes := by
  refine csv.plain_of_chars ?_ (bin2hex_chars key.bytes)
  have h := bin2hex_length key.bytes
  rw [key.length_eq] at h
  omega

end crypt

/-! ## Resolvers that were read -/

theorem address.of_text_port_lt {net : Inet} {s : Str} {port : ℕ} {a : address} (hport : port < 65536)
    (h : of_text net s port = .ok a) : a.port < 65536 := by
  obtain ⟨b, -, hread, -, -⟩ := of_text_eq_ok.mp h
  -- the port is the default, or was read
  by_cases hb : b.port = []
  · rw [if_pos hb] at hread
    rw [← Except.ok.inj hread]
    exact hport
  · rw [if_neg hb] at hread
    unfold detail.str2u16 at hread
    dsimp only at hread
    split_ifs at hread with h₁ h₂ h₃
    rw [← Except.ok.inj hread]
    omega

/-- What is known of a resolver that was read. -/
structure listed_resolver.Read (r : listed_resolver) : Prop where
  hostname : csv.Plain r.hostname
  hostname_ne : r.hostname ≠ []
  port : r.address.port < 65536

theorem column_mem {headers cols : List Str} {header w : Str}
    (h : column headers cols header = some w) : w ∈ cols := by
  unfold column at h
  obtain ⟨i, -, hi⟩ := Option.bind_eq_some_iff.mp h
  exact List.mem_of_getElem? hi

theorem parse_resolver_read {lib : Listing} {headers cols : List Str} {p : proto}
    {r : listed_resolver} (hcols : ∀ w ∈ cols, csv.Plain w)
    (h : parse_resolver lib headers cols p = .ok r) : r.Read := by
  unfold parse_resolver at h
  dsimp only at h
  split at h
  · exact absurd h (by simp)
  · exact absurd h (by simp)
  · next c cs hname =>
    split at h
    · exact absurd h (by simp)
    · exact absurd h (by simp)
    · obtain ⟨key, -, h⟩ := Result.bind_eq_ok.mp h
      obtain ⟨addr, haddr, h⟩ := Result.bind_eq_ok.mp h
      rw [← Except.ok.inj h]
      exact ⟨hcols _ (column_mem hname), List.cons_ne_nil c cs,
        address.of_text_port_lt (by decide) haddr⟩

/-- **Every resolver that was read** has a plain host name and a 16-bit port. -/
theorem parse_lines_read {lib : Listing} {headers : List Str} {p : proto} {lines : List Str}
    (hlines : ∀ l ∈ lines, '\n' ∉ l) {n size : ℕ} {rs : List listed_resolver}
    (h : parse_lines lib headers p lines n size = .ok rs) : ∀ r ∈ rs, r.Read := by
  induction lines generalizing n size rs with
  | nil =>
      rw [← Except.ok.inj h]
      intro r hr
      exact absurd hr List.not_mem_nil
  | cons line rest ih =>
      obtain ⟨hline, hrest⟩ := List.forall_mem_cons.mp hlines
      rw [parse_lines] at h
      obtain ⟨cols, hcols, h⟩ := Result.bind_eq_ok.mp h
      split_ifs at h with h₁ h₂
      · exact ih hrest h
      · obtain ⟨r₀, hr₀, h⟩ := Result.bind_eq_ok.mp h
        obtain ⟨rs', hrs', h⟩ := Result.bind_eq_ok.mp h
        rw [← Except.ok.inj h]
        intro r hr
        rcases List.mem_cons.mp hr with rfl | hr
        · exact parse_resolver_read (csv.parse_line_words hline hcols) hr₀
        · exact ih hrest hrs' r hr

theorem parse_resolvers_list_read {lib : Listing} {name : Str} {file : Option Str} {p : proto}
    {rs : List listed_resolver} (h : parse_resolvers_list lib name file p = .ok rs) :
    ∀ r ∈ rs, r.Read := by
  unfold parse_resolvers_list at h
  cases file with
  | none => exact absurd h (by simp)
  | some text =>
      dsimp only at h
      split at h
      · rw [← Except.ok.inj h]
        intro r hr
        exact absurd hr List.not_mem_nil
      · next line rest hsplit =>
        obtain ⟨headers, -, h⟩ := Result.bind_eq_ok.mp h
        split_ifs at h
        refine parse_lines_read ?_ h
        intro l hl
        exact (mem_splitOn (hsplit ▸ List.mem_cons_of_mem line hl)).1

/-! ## Reading what was written -/

/-- The names of the three columns. -/
def saved_headers : List Str :=
  ["Resolver address".toList, "Provider name".toList, "Provider public key".toList]

theorem parse_headers_line : csv.parse_line headers_line 0 = .ok saved_headers := by
  decide

section RoundTrip

variable {lib : Listing}

/-- What the library is expected to do with the address and the key of a resolver. -/
structure listed_resolver.Printed (lib : Listing) (r : listed_resolver) : Prop where
  address : r.address.Posix lib.net
  key : lib.sodium_hex2bin (crypt.bin2hex r.public_key.bytes) = some r.public_key.bytes

/-- **The line of a resolver** has a column for each part of its host name. -/
theorem parse_resolver_line {r : listed_resolver} (hread : r.Read) (hlib : r.Printed lib)
    (size : ℕ) : csv.parse_line (resolver_line lib.net r) size
      = .ok (r.address.ip_port lib.net :: r.hostname.splitOn ',' ++
          [crypt.bin2hex r.public_key.bytes]) := by
  have hjoin : [','].intercalate (r.address.ip_port lib.net :: r.hostname.splitOn ',' ++
      [crypt.bin2hex r.public_key.bytes]) = resolver_line lib.net r := by
    have hname : [','].intercalate (r.hostname.splitOn ',') = r.hostname :=
      List.intercalate_splitOn ','
    rw [List.cons_append, List.intercalate_cons_of_ne_nil (by simp),
      intercalate_concat _ (List.splitOn_ne_nil _ _), hname, resolver_line]
    simp
  rw [← hjoin]
  refine csv.parse_line_intercalate ?_ (crypt.bin2hex_plain _) (by simp) size
  intro p hp
  rcases List.mem_cons.mp hp with rfl | hp
  · exact address.ip_port_plain hlib.address hread.port
  · obtain ⟨hcomma, hsub⟩ := mem_splitOn hp
    exact ⟨hread.hostname.sublist hsub, hcomma⟩

/-- A resolver as it comes back: the name is that of the provider, and the flags have their
defaults. -/
def listed_resolver.relisted (p : proto) (r : listed_resolver) : listed_resolver :=
  { r with id := r.hostname, net_proto := p, dnssec := true, namecoin := false, logging := false }

/-- The address, the host name and the key are the same. -/
def listed_resolver.same (r : listed_resolver) : Cdns.address × Str × pubkey :=
  (r.address, r.hostname, r.public_key)

theorem hex2bin_bin2hex {key : pubkey}
    (h : lib.sodium_hex2bin (crypt.bin2hex key.bytes) = some key.bytes) :
    crypt.hex2bin lib.sodium_hex2bin (crypt.bin2hex key.bytes) = .ok key := by
  have hlen := crypt.length_le_bin2hex key.bytes
  rw [key.length_eq] at hlen
  unfold crypt.hex2bin
  dsimp only
  rw [if_neg (by omega), h]
  exact dif_pos key.length_eq

/-- The three columns of a line give the resolver back. -/
theorem parse_resolver_saved {r : listed_resolver} (hread : r.Read) (hlib : r.Printed lib)
    (p : proto) :
    parse_resolver lib saved_headers
        [r.address.ip_port lib.net, r.hostname, crypt.bin2hex r.public_key.bytes] p
      = .ok (r.relisted p) := by
  -- the columns by the names of their headers
  have haddr : column saved_headers [r.address.ip_port lib.net, r.hostname,
      crypt.bin2hex r.public_key.bytes] "Resolver address".toList
        = some (r.address.ip_port lib.net) := rfl
  have hhost : column saved_headers [r.address.ip_port lib.net, r.hostname,
      crypt.bin2hex r.public_key.bytes] "Provider name".toList = some r.hostname := rfl
  have hkey : column saved_headers [r.address.ip_port lib.net, r.hostname,
      crypt.bin2hex r.public_key.bytes] "Provider public key".toList
        = some (crypt.bin2hex r.public_key.bytes) := rfl
  have hother : ∀ header ∉ saved_headers, column saved_headers [r.address.ip_port lib.net,
      r.hostname, crypt.bin2hex r.public_key.bytes] header = none := by
    intro header hno
    rw [column, find_col, List.idxOf?_eq_none_iff.mpr hno]
    rfl
  have hlen := crypt.length_le_bin2hex r.public_key.bytes
  rw [r.public_key.length_eq] at hlen
  have hkeyne : crypt.bin2hex r.public_key.bytes ≠ [] := by
    intro hnil
    rw [hnil, List.length_nil] at hlen
    omega
  have haddrne : r.address.ip_port lib.net ≠ [] := by
    unfold address.ip_port
    simp
  obtain ⟨c, cs, hc⟩ := List.exists_cons_of_ne_nil hread.hostname_ne
  obtain ⟨k, ks, hk⟩ := List.exists_cons_of_ne_nil hkeyne
  obtain ⟨a, as, ha⟩ := List.exists_cons_of_ne_nil haddrne
  have hkeyok := hex2bin_bin2hex hlib.key
  have haddrok := address.of_text_ip_port hlib.address hread.port crypt_port
  unfold parse_resolver
  dsimp only
  rw [haddr, hhost, hkey, hother "Name".toList (by decide),
    hother "DNSSEC validation".toList (by decide), hother "Namecoin".toList (by decide),
    hother "No logs".toList (by decide)]
  rw [hk] at hkeyok ⊢
  rw [ha] at haddrok ⊢
  rw [hc]
  simp only [Option.getD_some, Option.getD_none, hkeyok, haddrok, Result.ok_bind]
  rw [listed_resolver.relisted, hc]
  rfl

/-- The lines of the file. -/
theorem save_resolvers_lines {rs : List listed_resolver}
    (hrs : ∀ r ∈ rs, r.Read ∧ r.Printed lib) :
    (save_resolvers lib.net rs).splitOn '\n'
      = headers_line :: (rs.map (resolver_line lib.net) ++ [[]]) := by
  have hheaders : '\n' ∉ headers_line := by decide
  rw [save_resolvers, List.splitOn_append_cons_self_of_not_mem hheaders]
  congr 1
  induction rs with
  | nil => rfl
  | cons r rs ih =>
      obtain ⟨⟨hread, hlib⟩, hrest⟩ := List.forall_mem_cons.mp hrs
      have hline : '\n' ∉ resolver_line lib.net r := by
        have h₁ := (address.ip_port_plain hlib.address hread.port).1.line_feed
        have h₂ := (crypt.bin2hex_plain r.public_key).1.line_feed
        unfold resolver_line
        simp only [List.mem_append, List.mem_cons, not_or]
        exact ⟨⟨h₁, by decide, hread.hostname.line_feed⟩, by decide, h₂⟩
      rw [List.flatMap_cons, List.append_assoc, List.singleton_append,
        List.splitOn_append_cons_self_of_not_mem hline, ih hrest]
      rfl

/-- An empty line is skipped. -/
theorem parse_lines_end (headers : List Str) (p : proto) (n size : ℕ) :
    parse_lines lib headers p [[]] n size = .ok [] := rfl

/-- How many columns a line has. -/
theorem columns_eq_iff (r : listed_resolver) :
    (r.address.ip_port lib.net :: r.hostname.splitOn ',' ++
      [crypt.bin2hex r.public_key.bytes]).length = saved_headers.length ↔ ',' ∉ r.hostname := by
  have hthree : saved_headers.length = 3 := rfl
  rw [← length_splitOn_eq_one, hthree]
  simp only [List.cons_append, List.length_cons, List.length_append, List.length_nil]
  omega

/-- Lines without more commas than they should have are read. -/
theorem parse_lines_saved {rs : List listed_resolver} (hrs : ∀ r ∈ rs, r.Read ∧ r.Printed lib)
    (hcomma : ∀ r ∈ rs, ',' ∉ r.hostname) (p : proto) (n size : ℕ) :
    parse_lines lib saved_headers p (rs.map (resolver_line lib.net) ++ [[]]) n size
      = .ok (rs.map (listed_resolver.relisted p)) := by
  induction rs generalizing n size with
  | nil => exact parse_lines_end saved_headers p n size
  | cons r rs ih =>
      obtain ⟨⟨hread, hlib⟩, hrest⟩ := List.forall_mem_cons.mp hrs
      obtain ⟨hr, hcomma'⟩ := List.forall_mem_cons.mp hcomma
      rw [List.map_cons, List.cons_append, parse_lines, parse_resolver_line hread hlib,
        Result.ok_bind, if_neg (by simp), if_neg (not_not_intro ((columns_eq_iff r).mpr hr)),
        List.splitOn_eq_singleton hr, List.cons_append, List.singleton_append,
        parse_resolver_saved hread hlib, Result.ok_bind, ih hrest hcomma']
      rfl

/-- Lines that were read have no more commas than they should have. -/
theorem parse_lines_commas {rs : List listed_resolver} (hrs : ∀ r ∈ rs, r.Read ∧ r.Printed lib)
    {p : proto} {n size : ℕ} (h : (parse_lines lib saved_headers p
      (rs.map (resolver_line lib.net) ++ [[]]) n size).returns) :
    ∀ r ∈ rs, ',' ∉ r.hostname := by
  induction rs generalizing n size with
  | nil =>
      intro r hr
      exact absurd hr List.not_mem_nil
  | cons r rs ih =>
      obtain ⟨⟨hread, hlib⟩, hrest⟩ := List.forall_mem_cons.mp hrs
      rw [List.map_cons, List.cons_append, parse_lines, parse_resolver_line hread hlib,
        Result.ok_bind, if_neg (by simp)] at h
      split_ifs at h with hcount
      · exact absurd h (Result.not_returns_error _)
      · obtain ⟨r', -, h⟩ := Result.returns_bind.mp h
        obtain ⟨rs', hrs', -⟩ := Result.returns_bind.mp h
        exact List.forall_mem_cons.mpr
          ⟨(columns_eq_iff r).mp (not_not.mp hcount), ih hrest ⟨rs', hrs'⟩⟩

/-- Behind its headers, the file is read line by line. -/
theorem parse_saved_file {rs : List listed_resolver} (hrs : ∀ r ∈ rs, r.Read ∧ r.Printed lib)
    (name : Str) (p : proto) :
    parse_resolvers_list lib name (some (save_resolvers lib.net rs)) p
      = parse_lines lib saved_headers p (rs.map (resolver_line lib.net) ++ [[]]) 1 0 := by
  unfold parse_resolvers_list
  dsimp only
  rw [save_resolvers_lines hrs]
  dsimp only
  rw [parse_headers_line, Result.ok_bind, if_neg (by decide)]

/-- **When a list of resolvers survives.** Take any list that was read from a file, with the
library printing and reading its addresses and keys as documented. The file that
`save_resolvers` writes is read without a failure, with the same addresses, host names and
keys in the same order, exactly when no host name has a comma. -/
theorem resolvers_round_trip_iff {name name' : Str} {file : Option Str} {p p' : proto}
    {rs : List listed_resolver} (h : parse_resolvers_list lib name file p = .ok rs)
    (hlib : ∀ r ∈ rs, r.Printed lib) :
    (∃ rs', parse_resolvers_list lib name' (some (save_resolvers lib.net rs)) p' = .ok rs' ∧
        rs'.map listed_resolver.same = rs.map listed_resolver.same) ↔
      ∀ r ∈ rs, ',' ∉ r.hostname := by
  have hrs : ∀ r ∈ rs, r.Read ∧ r.Printed lib := fun r hr =>
    ⟨parse_resolvers_list_read h r hr, hlib r hr⟩
  rw [parse_saved_file hrs]
  constructor
  · rintro ⟨rs', hrs', -⟩
    exact parse_lines_commas hrs ⟨rs', hrs'⟩
  · intro hcomma
    refine ⟨_, parse_lines_saved hrs hcomma p' 1 0, ?_⟩
    rw [List.map_map]
    rfl

end RoundTrip

/-! ### A list that survives, and one that does not -/

/-- The value of a hexadecimal digit. -/
def hex_value (c : Char) : Option ℕ :=
  if c.isDigit then some (c.toNat - 48)
  else if c ∈ "ABCDEF".toList then some (c.toNat - 55)
  else if c ∈ "abcdef".toList then some (c.toNat - 87)
  else none

/-- Pairs of digits as bytes. -/
def hex_pairs : Str → Option (List UInt8)
  | [] => some []
  | [_] => none
  | a :: b :: rest => do
      let x ← hex_value a
      let y ← hex_value b
      let bytes ← hex_pairs rest
      some (UInt8.ofNat (16 * x + y) :: bytes)

/-- Libraries that know the address 9.9.9.9 and read the digits of a key. -/
def sampleListing : Listing where
  net := Inet.sample
  sodium_hex2bin := fun hex => hex_pairs (hex.filter fun c => c ∉ ": \t\r\n".toList)

/-- The address 9.9.9.9 with the port of DNSCrypt. -/
def sampleAt : address := ⟨.ipv4, [9, 9, 9, 9], 443, rfl⟩

theorem sampleAt_posix : sampleAt.Posix Inet.sample where
  length_pos := by decide
  length_le := by decide
  ipv4_chars := fun _ => List.all_iff_forall_prop.mp (by decide)
  ipv6_chars := fun h => absurd h (by decide)
  undone := by decide

/-- A resolver at that address. -/
def sampleListed (hostname : Str) : listed_resolver where
  id := hostname
  hostname := hostname
  public_key := Block.zero 32
  address := sampleAt
  net_proto := .udp
  dnssec := true
  namecoin := false
  logging := false

theorem sampleListed_printed (hostname : Str) :
    (sampleListed hostname).Printed sampleListing := by
  have hkey : sampleListing.sodium_hex2bin (crypt.bin2hex (Block.zero 32).bytes)
      = some (Block.zero 32).bytes := by decide +kernel
  exact ⟨sampleAt_posix, hkey⟩

theorem sampleListed_read {hostname : Str} (h : csv.Plain hostname) (hne : hostname ≠ []) :
    (sampleListed hostname).Read := ⟨h, hne, by show 443 < 65536; decide⟩

theorem resolvers_round_trip_iff_sample : ∃ rs',
    parse_resolvers_list sampleListing [] (some (save_resolvers sampleListing.net
      [sampleListed "a.b".toList])) .tcp = .ok rs' ∧
    rs'.map listed_resolver.same = [(sampleListed "a.b".toList).same] := by
  have hplain : csv.Plain "a.b".toList := ⟨by decide, by decide, by decide, by decide⟩
  have hrs : ∀ r ∈ [sampleListed "a.b".toList], r.Read ∧ r.Printed sampleListing := by
    intro r hr
    rw [List.mem_singleton.mp hr]
    exact ⟨sampleListed_read hplain (by decide), sampleListed_printed _⟩
  have hcomma : ∀ r ∈ [sampleListed "a.b".toList], ',' ∉ r.hostname := by
    intro r hr
    rw [List.mem_singleton.mp hr]
    decide
  -- a file with this resolver in it
  have hfile := (parse_saved_file hrs [] .udp).trans (parse_lines_saved hrs hcomma .udp 1 0)
  exact (resolvers_round_trip_iff hfile fun r hr => by
    rw [List.mem_singleton.mp hr]
    exact sampleListed_printed "a.b".toList).mpr fun r hr => by
      rw [List.mem_singleton.mp hr]
      decide

/-- A file with a host name in quotes. -/
def sampleQuoted : Str :=
  headers_line ++ '\n' :: "9.9.9.9:443,\"a,b\",".toList ++ crypt.bin2hex (Block.zero 32).bytes

/-- **A host name with a comma** is read in quotes, written without them, and then taken for
two columns. -/
theorem quoted_comma_lost :
    parse_resolvers_list sampleListing [] (some sampleQuoted) .udp
        = .ok [sampleListed "a,b".toList] ∧
      (∀ r ∈ [sampleListed "a,b".toList], r.Printed sampleListing) ∧
      ¬ ∃ rs', parse_resolvers_list sampleListing [] (some (save_resolvers sampleListing.net
          [sampleListed "a,b".toList])) .udp = .ok rs' ∧
        rs'.map listed_resolver.same = [sampleListed "a,b".toList].map listed_resolver.same := by
  have hplain : csv.Plain "a,b".toList := ⟨by decide, by decide, by decide, by decide⟩
  have hread : (sampleListed "a,b".toList).Read := sampleListed_read hplain (by decide)
  have hrs : ∀ r ∈ [sampleListed "a,b".toList], r.Read ∧ r.Printed sampleListing := by
    intro r hr
    rw [List.mem_singleton.mp hr]
    exact ⟨hread, sampleListed_printed _⟩
  refine ⟨?_, fun r hr => (hrs r hr).2, ?_⟩
  · -- the line in quotes has three columns
    have hlines : sampleQuoted.splitOn '\n' = [headers_line,
        "9.9.9.9:443,\"a,b\",".toList ++ crypt.bin2hex (Block.zero 32).bytes] := by
      decide +kernel
    have hcols : csv.parse_line ("9.9.9.9:443,\"a,b\",".toList ++
        crypt.bin2hex (Block.zero 32).bytes) 0 = .ok [(sampleListed "a,b".toList).address.ip_port
          sampleListing.net, "a,b".toList, crypt.bin2hex (Block.zero 32).bytes] := by
      decide +kernel
    have hresolver := parse_resolver_saved hread (sampleListed_printed _) .udp
    unfold parse_resolvers_list
    dsimp only
    rw [hlines]
    dsimp only
    rw [parse_headers_line, Result.ok_bind, if_neg (by decide), parse_lines, hcols, Result.ok_bind,
      if_neg (by simp), if_neg (by decide)]
    exact (congrArg (· >>= fun r => do
      let rs ← parse_lines sampleListing saved_headers .udp [] 2 3
      Except.ok (r :: rs)) hresolver).trans rfl
  · rintro ⟨rs', hrs', -⟩
    rw [parse_saved_file hrs] at hrs'
    have hcomma := parse_lines_commas hrs ⟨rs', hrs'⟩ _ (List.mem_singleton_self _)
    exact absurd hcomma (by decide)

end Cdns
