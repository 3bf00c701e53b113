/-
The files of a configuration: `dns::hosts` (`dns/srcz/hosts.cpp`), the list of resolvers
(`responder::from_file` in `dns/srcz/responder.cpp`), and `responder::reload`, which reads
all of them.

A file is its text, and a file that cannot be opened is `none`. Both readers go through
the text from the front. `ignore` can skip a part of it, so their loops count the
characters that are left, which is no restriction (`hosts_loop_mono`,
`from_file_loop_mono`).

`reload` replaces what the responder holds piece by piece, and an exception leaves it
with the pieces that were replaced until then. It is a function on states that also says
what was thrown.
-/
import Cdns.Responder

set_option autoImplicit false

namespace Cdns

open Lib.Unordered

/-! ## Hosts -/

/-- `network::is_ip_address`. -/
def is_ip_address (net : Inet) (str : Str) : Result inet :=
  if (net.pton .ipv4 str).isSome then .ok .ipv4
  else if (net.pton .ipv6 str).isSome then .ok .ipv6
  else .error (.runtime_error ("Invalid IP address: " ++ String.ofList str))

namespace hosts

/-- `hosts::host_ip_map_`, in the order in which the names were seen. -/
abbrev host_ip_map := List (Str × Str)

/-- `std::string &str = host_ip_map_[word]; if (str.empty()) str = ip;`. What is in the map
is not empty. -/
def add (map : host_ip_map) (word ip : Str) : host_ip_map :=
  if (map.lookup word).isSome then map else map ++ [(word, ip)]

/-- The end of a line: a word behind an address is a name. -/
def end_line (map : host_ip_map) (word ip : Str) : host_ip_map :=
  if word ≠ [] ∧ ip ≠ [] then add map word ip else map

/-- `'\r' == ch || '\t' == ch || '\v' == ch || ' ' == ch`. -/
def is_blank (ch : Char) : Bool := ch == '\r' || ch == '\t' || ch == '\x0b' || ch == ' '

/-- The loop of the constructor, over the characters. -/
def hosts_loop (net : Inet) (file_name : Str) (disable_ipv6 : Bool) :
    ℕ → Str → Str → Str → host_ip_map → Result host_ip_map
  | 0, _, ip, word, map => .ok (end_line map word ip)
  | _ + 1, [], ip, word, map => .ok (end_line map word ip)
  | n + 1, ch :: f, ip, word, map =>
      if ch = '\n' ∨ ch = '#' then
        let f := if ch = '#' then Str.ignore 100000 '\n' f else f
        hosts_loop net file_name disable_ipv6 n f [] [] (end_line map word ip)
      else if is_blank ch then
        if word = [] then hosts_loop net file_name disable_ipv6 n f ip [] map
        else if ip = [] then
          match is_ip_address net (Str.c_str word) with
          | .error e => .error e
          | .ok af =>
              if af = .ipv4 ∨ disable_ipv6 = false then
                hosts_loop net file_name disable_ipv6 n f word [] map
              else
                hosts_loop net file_name disable_ipv6 n (Str.ignore 100000 '\n' f) [] [] map
        else hosts_loop net file_name disable_ipv6 n f ip [] (add map word ip)
      else
        let word := word ++ [ch]
        if 2048 ≤ word.length then
          .error (.runtime_error ("Too long word: " ++ String.ofList word ++ " in hosts file: "
            ++ String.ofList file_name))
        else hosts_loop net file_name disable_ipv6 n f ip word map

/-- `hosts::hosts (file_name, disable_ipv6)`. -/
def of_file (net : Inet) (files : Str → Option Str) (file_name : Str) (disable_ipv6 : Bool) :
    Result host_ip_map :=
  match files file_name with
  | none => .error (.runtime_error ("failed to open file: " ++ String.ofList file_name))
  | some text => hosts_loop net file_name disable_ipv6 (text.length + 1) text [] [] []

/-- The count is no restriction when it exceeds the length of the text. -/
theorem hosts_loop_mono (net : Inet) (file_name : Str) (disable_ipv6 : Bool) {n : ℕ} (m : ℕ) :
    ∀ {text : Str}, text.length < n → ∀ (ip word : Str) (map : host_ip_map),
      hosts_loop net file_name disable_ipv6 (n + m) text ip word map =
        hosts_loop net file_name disable_ipv6 n text ip word map := by
  induction n with
  | zero => exact fun h => absurd h (by omega)
  | succ n ih =>
      intro text h ip word map
      rw [Nat.add_right_comm]
      cases text with
      | nil => rfl
      | cons ch f =>
          have hlen : f.length < n := by
            rw [List.length_cons] at h
            omega
          have hskip := Str.ignore_length_le 100000 '\n' f
          rw [hosts_loop, hosts_loop]
          dsimp only
          -- in every branch the loop goes on with no more than the rest
          split_ifs
          · exact ih (by omega) _ _ _
          · exact ih (by omega) _ _ _
          · exact ih (by omega) _ _ _
          · cases is_ip_address net (Str.c_str word) with
            | error e => rfl
            | ok af =>
                dsimp only
                split_ifs
                · exact ih (by omega) _ _ _
                · exact ih (by omega) _ _ _
          · exact ih (by omega) _ _ _
          · rfl
          · exact ih (by omega) _ _ _

end hosts

/-! ## Resolvers -/

namespace responder

/-- `dns::defaults::port`. -/
def default_port : ℕ := 53

/-- The keys of a `resolv.conf` that are no servers. -/
def resolv_key : List Str := ["search".toList, "domain".toList, "sortlist".toList, "options".toList]

/-- `result.emplace_back`, for a word that is an address. -/
def add_provider (net : Inet) (noipv6 : Bool) (p : proto) (result : List provider) (word : Str) :
    Result (List provider) := do
  let addr ← address.of_text net word default_port
  .ok (if addr.inet = .ipv4 ∨ noipv6 = false then result ++ [⟨addr, p, none⟩] else result)

/-- The loop of `from_file`. A word that the file ends with leaves the stream at its end,
and then `ignore` fails. -/
def from_file_loop (net : Inet) (noipv6 : Bool) (p : proto) :
    ℕ → Str → List provider → Result (List provider)
  | 0, _, result => .ok result
  | n + 1, f, result =>
      match Str.read_word f with
      | none => .ok result
      | some (word, f) =>
          if word.head? = some '#' ∨ word ∈ resolv_key then
            from_file_loop net noipv6 p n (Str.ignore 100000 '\n' f) result
          else if word = "nameserver".toList then
            match Str.read_word f with
            | none => .ok result
            | some (word, f) =>
                if f = [] then .ok result
                else do
                  let result ← add_provider net noipv6 p result word
                  from_file_loop net noipv6 p n (Str.ignore 100000000000 '\n' f) result
          else do
            let result ← add_provider net noipv6 p result word
            from_file_loop net noipv6 p n f result

/-- `responder::from_file`. -/
def from_file (net : Inet) (f : Str) (noipv6 : Bool) (p : proto) : Result (List provider) :=
  from_file_loop net noipv6 p (f.length + 1) f []

/-- The count is no restriction when it exceeds the length of the text. -/
theorem from_file_loop_mono (net : Inet) (noipv6 : Bool) (p : proto) {n : ℕ} (m : ℕ) :
    ∀ {f : Str}, f.length < n → ∀ result : List provider,
      from_file_loop net noipv6 p (n + m) f result = from_file_loop net noipv6 p n f result := by
  induction n with
  | zero => exact fun h => absurd h (by omega)
  | succ n ih =>
      intro f h result
      rw [Nat.add_right_comm, from_file_loop, from_file_loop]
      cases hword : Str.read_word f with
      | none => rfl
      | some a =>
          obtain ⟨word, rest⟩ := a
          have hlt := Str.read_word_length_lt hword
          have hskip := Str.ignore_length_le 100000 '\n' rest
          dsimp only
          split_ifs
          · exact ih (by omega) _
          · cases hserver : Str.read_word rest with
            | none => rfl
            | some b =>
                obtain ⟨server, rest'⟩ := b
                have hlt' := Str.read_word_length_lt hserver
                have hskip' := Str.ignore_length_le 100000000000 '\n' rest'
                dsimp only
                split_ifs
                · rfl
                · cases add_provider net noipv6 p result server with
                  | error e => rfl
                  | ok result' => exact ih (by omega) _
          · cases add_provider net noipv6 p result word with
            | error e => rfl
            | ok result' => exact ih (by omega) _

end responder

/-! ## Reloading -/

/-- `dns::responder_parameters`, as far as a running responder looks at them. The lists are
hash sets in the source, here in the order of an iteration. -/
structure responder_parameters where
  /-- a `double` -/
  timeout : Float
  resolvers : Str
  hosts : Str
  onion : Str
  noipv6 : Bool
  net_proto : proto
  whitelists : List Str
  blacklists : List Str

/-- What `reload` reads, and how hash sets place their elements. -/
structure Disk where
  net : Inet
  files : Str → Option Str
  H : Placement Str

/-- The text of a stream on a file. A file that cannot be opened has none. -/
def Disk.text (d : Disk) (file_name : Str) : Str := (d.files file_name).getD []

/-- `filter::filter (file_name)`. -/
def Filter.of_file (d : Disk) (file_name : Str) : Result Filter :=
  Filter.of_stream d.H (d.text file_name)

namespace responder

/-- `for (const auto &fn : files) list->merge (filter (fn));`: the list as far as it got,
and what was thrown. -/
def merge_files (d : Disk) : Filter → List Str → Filter × Option Exn
  | list, [] => (list, none)
  | list, fn :: fns =>
      match Filter.of_file d fn with
      | .error e => (list, some e)
      | .ok other => merge_files d (list.merge d.H other) fns

/-- The onion provider of the parameters. -/
def onion_of (d : Disk) (params : responder_parameters) : Result (Option provider) :=
  if params.onion ≠ [] then do
    let onion_addr ← address.of_text d.net params.onion 5353
    .ok (some ⟨onion_addr, .udp, none⟩)
  else .ok none

/-- The hosts map of the parameters. -/
def hosts_of (d : Disk) (params : responder_parameters) : Result hosts.host_ip_map :=
  if params.hosts ≠ [] then hosts.of_file d.net d.files (Str.c_str params.hosts) params.noipv6
  else .ok []

/-- The resolvers of the parameters. -/
def resolvers_of (d : Disk) (params : responder_parameters) : Result (List provider) :=
  from_file d.net (d.text params.resolvers) params.noipv6 params.net_proto

/-- `reload` behind the handler of `runtime_error`. -/
def reload_rest (d : Disk) (params : responder_parameters) (r : responder) :
    responder × Option Exn :=
  let r := { r with noipv6 := params.noipv6 }
  let (list, thrown) := merge_files d Filter.empty params.whitelists
  let r := { r with whitelist := list }
  match thrown with
  | some e => (r, some e)
  | none =>
      let (list, thrown) := merge_files d Filter.empty params.blacklists
      let r := { r with blacklist := list }
      match thrown with
      | some e => (r, some e)
      | none =>
          match onion_of d params with
          | .error e => (r, some e)
          | .ok onion =>
              let r := { r with onion_provider := onion }
              match hosts_of d params with
              | .error e => (r, some e)
              | .ok map => ({ r with hosts := map }, none)

/-- `responder::reload`: the responder after it, and what it has thrown. -/
def reload (d : Disk) (params : responder_parameters) (r : responder) : responder × Option Exn :=
  match resolvers_of d params with
  | .ok rslvs => reload_rest d params { r with dns_providers := rslvs }
  | .error e => if e.is_runtime_error then reload_rest d params r else (r, some e)

end responder

end Cdns
