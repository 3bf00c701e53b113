/-
Options: `dns::detail::options` (`dns/srcz/options.cpp`) and `dns::crypt::options`
(`dns/crypt/srcz/crypt_options.cpp`), read from a configuration file or from the command line.

What `getopt_long` makes of a command line is an argument here: the flags with their arguments, in
its order, and another character for one that it does not know. `PKGDATADIR` is set when the program
is built. The timeout is any number that `atof` reads; what is too low shows when a timer is made.
-/
import Cdns.Start

set_option autoImplicit false

namespace Cdns

open Lib.Unordered

/-- `struct option`. -/
structure option where
  name : Str
  has_arg : Bool
  val : Char
  deriving DecidableEq

/-- `dns::detail::options` and `dns::crypt::options`. -/
structure options extends start_parameters, crypt_parameters where
  connections_count_max : ℕ
  max_log_level : ℕ
  syslog : Bool
  disable_exceptions : Bool
  daemonize : Bool
  listener_ip : Str
  log_file : Str
  user_name : Str

namespace options

/-! ## Flags -/

/-- `_long_options_`. -/
def long_options : List option := [
  ⟨"local-address".toList, true, 'a'⟩,
  ⟨"daemonize".toList, false, 'd'⟩,
  ⟨"resolvers-list".toList, true, 'L'⟩,
  ⟨"logfile".toList, true, 'l'⟩,
  ⟨"loglevel".toList, true, 'm'⟩,
  ⟨"exceptions".toList, false, 'x'⟩,
  ⟨"syslog".toList, false, 's'⟩,
  ⟨"max-active-requests".toList, true, 'n'⟩,
  ⟨"user".toList, true, 'u'⟩,
  ⟨"tcp-only".toList, false, 't'⟩,
  ⟨"min-ttl".toList, true, 'M'⟩,
  ⟨"onion".toList, true, 'O'⟩,
  ⟨"no-ipv6".toList, false, '6'⟩,
  ⟨"blacklist".toList, true, 'B'⟩,
  ⟨"whitelist".toList, true, 'W'⟩,
  ⟨"hosts".toList, true, 'H'⟩,
  ⟨"timeout".toList, true, 'T'⟩,
  ⟨"cachedir".toList, true, 'E'⟩,
  ⟨"version".toList, false, 'V'⟩,
  ⟨"help".toList, false, 'h'⟩]

/-- What the constructor of `crypt::options` adds to them. -/
def crypt_long_options : List option := [
  ⟨"crypt-resolvers".toList, true, 'D'⟩,
  ⟨"server-pubkey".toList, true, 'P'⟩,
  ⟨"server-secretkey".toList, true, 'S'⟩,
  ⟨"server-certificate".toList, true, 'C'⟩,
  ⟨"server-name".toList, true, 'N'⟩]

/-- `flags::long_options`, without the entry that ends them. -/
def flags (crypt : Bool) : List option :=
  if crypt then long_options ++ crypt_long_options else long_options

/-- One of the characters that `normalize` looks for. -/
def is_separator (c : Char) : Bool := c == '-' || c == '_'

/-- `detail::normalize`: only the first separator is taken out. -/
def normalize (word : Str) : Str :=
  let pos := word.findIdx is_separator
  let word := if pos < word.length then word.take pos ++ word.drop (1 + pos) else word
  ascii_tolower word

/-- `flags::find_option`. -/
def find_option (crypt : Bool) (optname : Str) : Option option :=
  (flags crypt).find? fun opt => optname == normalize opt.name

/-! ## Values -/

/-- `options::options`. -/
def default (pkgdatadir : Str) : options where
  resolvers := pkgdatadir ++ "/dns-resolvers.txt".toList
  hosts := []
  onion := []
  noipv6 := false
  net_proto := .udp
  whitelists := []
  blacklists := []
  cachedir := []
  min_ttl := 60
  dnscrypt_resolvers_file := pkgdatadir ++ "/dnscrypt-resolvers.csv".toList
  server_pubkey_file := []
  server_secretkey_file := []
  server_certificate_file := []
  server_hostname := []
  timeout := 7.5
  connections_count_max := 250
  max_log_level := 6
  syslog := false
  disable_exceptions := false
  daemonize := false
  listener_ip := "127.0.0.1:53".toList
  log_file := []
  user_name := []

/-- The timeout of the default options is not too low. -/
theorem default_timeout (pkgdatadir : Str) :
    timeout.make (default pkgdatadir).timeout = .ok () := by
  show timeout.make 7.5 = .ok ()
  decide

/-- `strtoul (str, &endptr, 10)`: the number, and the text `endptr` points to. An `unsigned long`
has 64 bits, and a number behind a minus is negated there. -/
def strtoul (str : Str) : ℕ × Str :=
  let s := str.dropWhile Str.is_space
  let neg := s.head? == some '-'
  let s := if s.head? = some '-' ∨ s.head? = some '+' then s.drop 1 else s
  let digits := s.takeWhile Char.isDigit
  if digits = [] then (0, str)
  else
    let n := digits.foldl (fun n c => 10 * n + (c.toNat - 48)) 0
    (if n > 2 ^ 64 - 1 then 2 ^ 64 - 1 else if neg then (2 ^ 64 - n) % 2 ^ 64 else n,
      s.dropWhile Char.isDigit)

/-- `std::isxdigit`. -/
def isxdigit (c : Char) : Bool := c.isDigit || ('a' ≤ c.toLower && c.toLower ≤ 'f')

/-- The number that digits write. -/
def of_digits (base : ℕ) (digits : Str) : ℕ :=
  digits.foldl
    (fun n c => base * n + if c.isDigit then c.toNat - 48 else c.toLower.toNat - 87) 0

/-- Whether a text begins with a minus, and what is behind its sign. -/
def split_sign (s : Str) : Bool × Str :=
  (s.head? == some '-', if s.head? = some '-' ∨ s.head? = some '+' then s.drop 1 else s)

/-- The digits in front of a point and behind it, and what is behind them all. -/
def split_point (is_digit : Char → Bool) (s : Str) : Str × Str × Str :=
  let (whole, s) := (s.takeWhile is_digit, s.dropWhile is_digit)
  if s.head? = some '.' then
    (whole, (s.drop 1).takeWhile is_digit, (s.drop 1).dropWhile is_digit)
  else (whole, [], s)

/-- The exponent that a letter announces. Without digits there is none. -/
def exponent (letter : Char) (s : Str) : ℤ :=
  let (neg, t) := split_sign (s.drop 1)
  let n : ℤ := of_digits 10 (t.takeWhile Char.isDigit)
  if s.head?.map Char.toLower = some letter then if neg then -n else n else 0

/-- The number behind the sign, unless there is none: in hexadecimal with an exponent of 2, or in
decimal with one of 10. -/
def strtod (s : Str) : Option Float :=
  if ascii_tolower (s.take 3) = "inf".toList then some (1 / 0)
  else if ascii_tolower (s.take 3) = "nan".toList then some (0 / 0)
  else
    let (hex, hex_part, t) := split_point isxdigit (s.drop 2)
    if ascii_tolower (s.take 2) = "0x".toList ∧ hex ++ hex_part ≠ [] then
      let m := of_digits 16 (hex ++ hex_part)
      let e := exponent 'p' t - 4 * hex_part.length
      -- a half is 5 / 10
      some (if e < 0 then .ofScientific (m * 5 ^ e.natAbs) true e.natAbs
        else .ofScientific (m * 2 ^ e.natAbs) false 0)
    else
      let (dec, dec_part, t) := split_point Char.isDigit s
      let e := exponent 'e' t - dec_part.length
      if dec ++ dec_part = [] then none
      else some (.ofScientific (of_digits 10 (dec ++ dec_part)) (decide (e < 0)) e.natAbs)

/-- `std::atof`, in the C locale: 0 for a text that does not begin with a number. -/
def atof (str : Str) : Float :=
  let (neg, s) := split_sign (str.dropWhile Str.is_space)
  match strtod s with
  | none => 0
  | some x => if neg then -x else x

example : (atof " -0x.8p+2".toList, atof "12.5e-1x".toList, atof ".".toList) = (-2, 1.25, 0) := by
  decide +kernel

/-- `static_cast<unsigned short>` of a `long`. -/
def to_ushort (n : ℤ) : ℕ := (n % 2 ^ 16).toNat

/-- `std::unordered_set::emplace`. -/
def emplace (H : Placement Str) (l : List Str) (s : Str) : List Str :=
  if l.any (· == s) then l else H.place l s

/-- `detail::options::apply_option`, and whether to go on. -/
def base_apply_option (H : Placement Str) (o : options) (opt_flag : Char) (optarg : Str) :
    Result (options × Bool) :=
  match opt_flag with
  | 'a' => .ok ({ o with listener_ip := optarg }, true)
  | 'd' => .ok ({ o with daemonize := true }, true)
  | 'h' => .ok (o, false)
  | 'l' => .ok ({ o with log_file := optarg }, true)
  | 'L' => .ok ({ o with resolvers := optarg }, true)
  | 's' => .ok ({ o with syslog := true }, true)
  | 'm' =>
      let (log_level, endptr) := detail.strtol optarg
      if optarg = [] ∨ endptr ≠ [] ∨ log_level < 0 then
        .error (.runtime_error "Invalid max log level")
      else .ok ({ o with max_log_level := to_ushort log_level }, true)
  | 'n' =>
      let (connections_max, endptr) := strtoul optarg
      if optarg = [] ∨ endptr ≠ [] ∨ connections_max ≤ 0 ∨ connections_max > 2 ^ 32 - 1 then
        .error (.runtime_error "Invalid max number of active request")
      else .ok ({ o with connections_count_max := connections_max }, true)
  | 'u' => .ok ({ o with user_name := optarg }, true)
  | 't' => .ok ({ o with net_proto := .tcp }, true)
  | 'V' => .ok (o, false)
  | 'x' => .ok ({ o with disable_exceptions := true }, true)
  -- `atoi` is `strtol` without its limits checked
  | 'M' => .ok ({ o with min_ttl := to_ushort (detail.strtol optarg).1 }, true)
  | 'O' => .ok ({ o with onion := optarg }, true)
  | '6' => .ok ({ o with noipv6 := true }, true)
  | 'B' => .ok ({ o with blacklists := emplace H o.blacklists optarg }, true)
  | 'W' => .ok ({ o with whitelists := emplace H o.whitelists optarg }, true)
  | 'H' => .ok ({ o with hosts := optarg }, true)
  | 'T' => .ok ({ o with timeout := atof optarg }, true)
  | 'E' => .ok ({ o with cachedir := optarg }, true)
  | _ => .error (.runtime_error "Unknown option!")

/-- `apply_option`, of `crypt::options` or of its base. -/
def apply_option (crypt : Bool) (H : Placement Str) (o : options) (opt_flag : Char)
    (optarg : Str) : Result (options × Bool) :=
  if crypt then
    match opt_flag with
    | 'D' => .ok ({ o with dnscrypt_resolvers_file := optarg }, true)
    | 'P' => .ok ({ o with server_pubkey_file := optarg }, true)
    | 'S' => .ok ({ o with server_secretkey_file := optarg }, true)
    | 'C' => .ok ({ o with server_certificate_file := optarg }, true)
    | 'N' => .ok ({ o with server_hostname := optarg }, true)
    | _ => base_apply_option H o opt_flag optarg
  else base_apply_option H o opt_flag optarg

/-! ## Files -/

/-- A line of `parse_file`. Help and version are not supported there, and nothing comes of them. -/
def parse_line (crypt : Bool) (H : Placement Str) (o : options) (line : Str) : Result options :=
  if line ≠ [] ∧ line.head? ≠ some '#' ∧ line.length < 512 then
    match Str.read_word line with
    | none => .ok o
    | some (word, rest) =>
        match find_option crypt (normalize word) with
        | none => .ok o
        | some opt =>
            let word := ((Str.read_word rest).map Prod.fst).getD []
            if opt.has_arg = false ∧
                (word = "no".toList ∨ word = "off".toList ∨ word = "false".toList) then .ok o
            else do
              let (o, _) ← apply_option crypt H o opt.val (Str.c_str word)
              .ok o
  else .ok o

/-- `std::getline`: the line, and the rest of the stream unless it has failed. -/
def getline (text : Str) : Str × Option Str :=
  if text = [] then ([], none)
  else (text.takeWhile fun c => c != '\n', some ((text.dropWhile fun c => c != '\n').drop 1))

/-- The loop of `parse_file`. A turn takes a character, or is one of the last two. -/
def parse_file_loop (crypt : Bool) (H : Placement Str) :
    ℕ → options → Option Str → Result options
  | 0, o, _ => .ok o
  | _ + 1, o, none => .ok o
  | n + 1, o, some text => do
      let o ← parse_line crypt H o (getline text).1
      parse_file_loop crypt H n o (getline text).2

/-- `options::parse_file`. There are no lines in a file that cannot be opened. -/
def parse_file (crypt : Bool) (H : Placement Str) (o : options) (file : Option Str) :
    Result options :=
  parse_file_loop crypt H ((file.getD []).length + 2) o file

/-! ## Command lines -/

/-- The loop over what `getopt_long` returns. -/
def apply_options (crypt : Bool) (H : Placement Str) :
    options → List (Char × Str) → Result (options × Bool)
  | o, [] => .ok (o, true)
  | o, (opt_flag, optarg) :: rest => do
      let (o, go) ← apply_option crypt H o opt_flag optarg
      if go then apply_options crypt H o rest else .ok (o, false)

/-- `options::options_apply`. -/
def options_apply (o : options) : Result options :=
  let o := if o.daemonize = true ∧ o.log_file = [] then { o with syslog := true } else o
  if o.log_file ≠ [] ∧ o.syslog = true then
    .error (.runtime_error "--logfile and --syslog are mutually exclusive")
  else .ok o

/-- A command line: its words, and what `getopt_long` returns for them. -/
structure Args where
  argv : List Str
  getopt_long : List (Char × Str)

/-- The file that is named by a command line, when its only argument is no option. -/
def Args.file (args : Args) : Option Str :=
  match args.argv with
  | [_, fn] => if fn.head? ≠ some '-' ∧ fn ≠ [] then some fn else none
  | _ => none

/-- The two ways of `parse`. -/
def parse_args (crypt : Bool) (d : Disk) (args : Args) (o : options) : Result (options × Bool) :=
  match args.file with
  | some fn => do
      let o ← parse_file crypt d.H o (d.files fn)
      .ok (o, true)
  | none => apply_options crypt d.H o args.getopt_long

/-- `options::parse`, and whether to go on. -/
def parse (crypt : Bool) (d : Disk) (args : Args) (o : options) : Result (options × Bool) := do
  let (o, go) ← parse_args crypt d args o
  if go then do
    let o ← options_apply o
    .ok (o, true)
  else .ok (o, false)

end options

/-- `cdaemon::cdaemon (argc, argv)`, up to the event loop. -/
def daemon.main (pkgdatadir : Str) (x : Startup) (args : options.Args) : Result (Option daemon) := do
  let (o, go) ← options.parse true x.reading.disk args (options.default pkgdatadir)
  if go then do
    let d ← make_crypt x o.tostart_parameters o.tocrypt_parameters
    .ok (some d)
  else .ok none

end Cdns
