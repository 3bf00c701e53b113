/-
The list of DNSCrypt resolvers: `csv::parse_line` (`dns/crypt/srcz/csv.cpp`),
`parse_resolvers_list` and `save_resolvers` (`dns/crypt/srcz/resolver.cpp`), and the text
of a key (`crypt/crypt.cpp`).

A file is a text and `parse_line` reads it up to the next line feed, so the file is taken
for the list of its lines here. A line that no line feed ends is the last one and leaves
the stream in a failed state, which ends the loop over the lines.

The vector of words is kept from one line to the next and is longer than the words of the
line while that is read. Only the texts of two errors show its size.

`sodium_hex2bin` belongs to libsodium and is a parameter: the bytes it writes to a buffer
of 32 bytes, with the separators `": \t\r\n"`, if it returns 0.
-/
import Cdns.AddressText
import Cdns.Sodium

set_option autoImplicit false

namespace Cdns

/-! ## Columns -/

namespace csv

/-- `csv::separator`. -/
def separator : Char := ','

/-- `csv::quote`. -/
def quote : Char := '"'

/-- What `parse_line` knows in the middle of a line: the words it has finished, the current
word, the size of the vector and the two flags. -/
structure state where
  words : List Str
  word : Str
  size : ℕ
  quote_flag : Bool
  closing_quote_flag : Bool

/-- The state at the start of a line, with the size that the vector has from the last. -/
def state.start (size : ℕ) : state := ⟨[], [], max size 1, false, false⟩

/-- `++i` and `cur_word`. -/
def cur_word (s : state) : state :=
  { s with words := s.words ++ [s.word], word := [], size := max s.size (s.words.length + 2) }

/-- One character of a line. -/
def parse_char (s : state) (ch : Char) : Result state :=
  if (separator ≠ ch ∧ quote ≠ ch ∧ '\r' ≠ ch) ∨ (separator = ch ∧ s.quote_flag = true) then
    if 32000 < s.word.length then .error (.runtime_error "Too long word in column")
    else .ok { s with word := s.word ++ [ch] }
  else if quote = ch then
    if s.quote_flag then
      .ok (cur_word { s with quote_flag := false, closing_quote_flag := true })
    else if s.word ≠ [] then
      .error (.runtime_error ("CSV column: " ++ toString s.size ++ " has qutation mark after ("
        ++ toString s.word.length ++ "): " ++ String.ofList s.word))
    else .ok { s with quote_flag := true }
  else if separator = ch then
    if s.closing_quote_flag = false then .ok (cur_word s)
    else if s.word ≠ [] then
      .error (.runtime_error ("CSV column: " ++ toString s.words.length
        ++ ", has text after closing quote (" ++ toString s.word.length ++ "): "
        ++ String.ofList s.word))
    else .ok { s with closing_quote_flag := false }
  -- a carriage return is dropped, also between quotes
  else .ok s

/-- The end of a line. -/
def finish (s : state) : Result (List Str) :=
  if s.quote_flag then
    .error (.runtime_error ("Unclosed quote in CSV column: " ++ toString s.size ++ ", at word("
      ++ toString s.word.length ++ ") " ++ String.ofList s.word))
  else .ok (if s.closing_quote_flag = false ∧ (0 < s.words.length ∨ s.word ≠ [])
    then s.words ++ [s.word] else s.words)

/-- The loop of `parse_line`. -/
def parse_chars : Str → state → Result state
  | [], s => .ok s
  | ch :: line, s => do
      let s ← parse_char s ch
      parse_chars line s

/-- `csv::parse_line` on one line, with a vector of `size` words. -/
def parse_line (line : Str) (size : ℕ) : Result (List Str) := do
  let s ← parse_chars line (state.start size)
  finish s

end csv

/-! ## Keys -/

namespace crypt

/-- `setw (2) << hex << uppercase` of half a byte. -/
def hex_digit (n : ℕ) : Char := if n < 10 then Char.ofNat (48 + n) else Char.ofNat (55 + n)

/-- The two digits of a byte. -/
def hex_byte (b : UInt8) : Str := [hex_digit (b.toNat / 16), hex_digit (b.toNat % 16)]

/-- `detail::bin2hex` for an even number of bytes, with a colon after each pair but the
last. -/
def bin2hex : List UInt8 → Str
  | a :: b :: rest => hex_byte a ++ hex_byte b ++ (if rest = [] then [] else ':' :: bin2hex rest)
  | _ => []

/-- `detail::hex2bin`, that is the constructor of a key from a text. -/
def hex2bin (sodium_hex2bin : Str → Option (List UInt8)) (hex : Str) : Result pubkey :=
  let invalid := .error (.runtime_error ("Invalid crypto key: " ++ String.ofList (Str.c_str hex)))
  if 8 > hex.length then invalid
  else
    match sodium_hex2bin hex with
    | none => invalid
    | some key => if h : key.length = 32 then .ok ⟨key, h⟩ else invalid

end crypt

/-! ## Resolvers -/

/-- `dns::crypt::resolver`, as it is listed. -/
structure listed_resolver where
  id : Str
  hostname : Str
  public_key : pubkey
  address : Cdns.address
  net_proto : proto
  dnssec : Bool
  namecoin : Bool
  logging : Bool

/-- What the library functions do. -/
structure Listing where
  net : Inet
  sodium_hex2bin : Str → Option (List UInt8)

/-- `csv_max_columns`. -/
def csv_max_columns : ℕ := 50

/-- `dns::crypt::defaults::port`. -/
def crypt_port : ℕ := 443

/-- `find_col`: the first column of that header, if the line has it. -/
def find_col (headers cols : List Str) (header : Str) : Option ℕ :=
  (headers.idxOf? header).filter fun i => i < cols.length

/-- The column of a header. -/
def column (headers cols : List Str) (header : Str) : Option Str :=
  (find_col headers cols header).bind fun i => cols[i]?

/-- `sys::ascii_strcasecmp (col, text) == 0` for a small-letter text. -/
def strcaseeq (col text : Str) : Bool := ascii_tolower (Str.c_str col) == text

/-- `parse_resolver`. -/
def parse_resolver (lib : Listing) (headers cols : List Str) (defp : proto) :
    Result listed_resolver :=
  let col := column headers cols
  match col "Provider name".toList with
  | none => .error (.runtime_error "Resolvers list is missing a provider name")
  | some [] => .error (.runtime_error "Resolvers list is missing a provider name")
  | some (c :: cs) =>
      let provider_name := c :: cs
      let name := (col "Name".toList).getD provider_name
      match (col "Provider public key".toList).getD [], (col "Resolver address".toList).getD [] with
      | [], _ => .error (.runtime_error ("Public key is missing for [" ++ String.ofList name ++ "]"))
      | _ :: _, [] =>
          .error (.runtime_error ("Resolver address is missing for [" ++ String.ofList name ++ "]"))
      | k :: key, a :: addr => do
          let public_key ← crypt.hex2bin lib.sodium_hex2bin (k :: key)
          let address ← address.of_text lib.net (a :: addr) crypt_port
          .ok { id := name, hostname := provider_name, public_key, address, net_proto := defp
                dnssec := (col "DNSSEC validation".toList).all fun c => strcaseeq c "yes".toList
                namecoin := (col "Namecoin".toList).any fun c => strcaseeq c "yes".toList
                logging := (col "No logs".toList).any fun c => strcaseeq c "no".toList }

/-- The loop over the lines behind the headers; `lines` is the number of the last line and
`size` the size of the vector of columns. -/
def parse_lines (lib : Listing) (headers : List Str) (defproto : proto) :
    List Str → ℕ → ℕ → Result (List listed_resolver)
  | [], _, _ => .ok []
  | line :: rest, lines, size => do
      let lines := lines + 1
      let cols ← csv.parse_line line size
      if cols = [] then parse_lines lib headers defproto rest lines cols.length
      else if cols.length ≠ headers.length then
        .error (.runtime_error ("CSV line: " ++ toString lines ++ ", columns: "
          ++ toString cols.length ++ " != " ++ toString headers.length ++ " (headers)"))
      else do
        let r ← parse_resolver lib headers cols defproto
        let rs ← parse_lines lib headers defproto rest lines cols.length
        .ok (r :: rs)

/-- `parse_resolvers_list`; `file` is what is in the file, if it can be read. -/
def parse_resolvers_list (lib : Listing) (file_name : Str) (file : Option Str) (defproto : proto) :
    Result (List listed_resolver) :=
  match file with
  | none =>
      .error (.runtime_error ("Failed to read resolvers from: " ++ String.ofList file_name))
  | some text =>
      match text.splitOn '\n' with
      | [] => .ok []
      | line :: rest => do
          let headers ← csv.parse_line line 0
          if headers.length < 3 ∨ headers.length > csv_max_columns then
            .error (.runtime_error "Invalid number of columns in the CSV resolver file")
          else parse_lines lib headers defproto rest 1 0

/-- The line `save_resolvers` writes for a resolver, without its line feed. -/
def resolver_line (net : Inet) (r : listed_resolver) : Str :=
  r.address.ip_port net ++ ',' :: r.hostname ++ ',' :: crypt.bin2hex r.public_key.bytes

/-- The first line of the file. -/
def headers_line : Str := "Resolver address,Provider name,Provider public key".toList

/-- `save_resolvers`: the text of the file. -/
def save_resolvers (net : Inet) (rs : List listed_resolver) : Str :=
  headers_line ++ '\n' :: rs.flatMap fun r => resolver_line net r ++ ['\n']

end Cdns
