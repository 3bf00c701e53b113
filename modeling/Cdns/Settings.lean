/-
What the options of a configuration come to.

A line of a file gives an argument to an option, or nothing (`directive`), and so does each flag of
a command line. What the options are in the end depends on what each of them was given, and on
nothing else (`of_given`): most of them keep the last argument, a flag without one stays set, and
the two kinds of lists are collected. The loops of `parse`, which read a file by lines and words and
change one field after the other, arrive at exactly that (`parse_iff`).

The names of the options are not compared as they stand: `normalize` takes out the first separator
only. No two names become the same by that (`find_option_name`), so every option can be given in a
file, and a file that was written from a command line is read as that (`written_parse_iff`).
-/
import Cdns.Lib.Split
import Cdns.Options

set_option autoImplicit false

namespace Cdns

open Lib.Split Lib.Unordered

namespace options

/-! ## What is given -/

/-- **What a line gives**: the first word names an option, and the second is its argument. -/
def directive (crypt : Bool) (line : Str) : Option (Char × Str) :=
  if line.head? ≠ some '#' ∧ line.length < 512 then
    (words Str.is_space line).head?.bind fun word =>
      (find_option crypt (normalize word)).bind fun opt =>
        let arg := (words Str.is_space line).getD 1 []
        -- an option without an argument may be denied
        if opt.has_arg = false ∧
            (arg = "no".toList ∨ arg = "off".toList ∨ arg = "false".toList) then none
        else some (opt.val, Str.c_str arg)
  else none

/-- What the lines of a text give. -/
def directives (crypt : Bool) (text : Str) : List (Char × Str) :=
  (text.splitOn '\n').filterMap (directive crypt)

/-- The arguments that were given to an option, in their order. -/
def given (ds : List (Char × Str)) (c : Char) : List Str :=
  ds.filterMap fun x => if x.1 = c then some x.2 else none

/-- The last argument, or the default. -/
def last (args : List Str) (default : Str) : Str := args.getLast?.getD default

/-- **What the options are**, by what each of them was given. -/
def of_given (H : Placement Str) (pkgdatadir : Str) (g : Char → List Str) : options where
  resolvers := last (g 'L') (pkgdatadir ++ "/dns-resolvers.txt".toList)
  hosts := last (g 'H') []
  onion := last (g 'O') []
  noipv6 := !(g '6').isEmpty
  net_proto := if (g 't').isEmpty then .udp else .tcp
  whitelists := (g 'W').foldl (emplace H) []
  blacklists := (g 'B').foldl (emplace H) []
  cachedir := last (g 'E') []
  min_ttl := (g 'M').getLast?.elim 60 fun arg => to_ushort (detail.strtol arg).1
  dnscrypt_resolvers_file := last (g 'D') (pkgdatadir ++ "/dnscrypt-resolvers.csv".toList)
  server_pubkey_file := last (g 'P') []
  server_secretkey_file := last (g 'S') []
  server_certificate_file := last (g 'C') []
  server_hostname := last (g 'N') []
  timeout := (g 'T').getLast?.elim 7.5 atof
  connections_count_max := (g 'n').getLast?.elim 250 fun arg => (strtoul arg).1
  max_log_level := (g 'm').getLast?.elim 6 fun arg => to_ushort (detail.strtol arg).1
  syslog := !(g 's').isEmpty
  disable_exceptions := !(g 'x').isEmpty
  daemonize := !(g 'd').isEmpty
  listener_ip := last (g 'a') "127.0.0.1:53".toList
  log_file := last (g 'l') []
  user_name := last (g 'u') []

/-- An argument that is a number which is not negative. -/
def IsLevel (arg : Str) : Prop := arg ≠ [] ∧ (detail.strtol arg).2 = [] ∧ 0 ≤ (detail.strtol arg).1

/-- An argument that is a number of 32 bits, and not zero. -/
def IsCount (arg : Str) : Prop :=
  arg ≠ [] ∧ (strtoul arg).2 = [] ∧ 0 < (strtoul arg).1 ∧ (strtoul arg).1 < 2 ^ 32

/-- What an option may be given. -/
def Accepts (crypt : Bool) (c : Char) (arg : Str) : Prop :=
  (∃ opt ∈ flags crypt, opt.val = c) ∧ (c = 'm' → IsLevel arg) ∧ (c = 'n' → IsCount arg)

/-- The flag asks for a text instead of a daemon. -/
def Asks (c : Char) : Prop := c = 'h' ∨ c = 'V'

/-! ## One option -/

section Apply

variable {crypt : Bool} {H : Placement Str} {pkgdatadir : Str} {g : Char → List Str} {c : Char}
  {arg : Str}

/-- One argument more. -/
def push (g : Char → List Str) (c : Char) (arg : Str) : Char → List Str :=
  fun c' => if c' = c then g c' ++ [arg] else g c'

/-- An accepted argument is one more that was given. -/
theorem base_apply_option_of_accepts (h : Accepts false c arg) :
    base_apply_option H (of_given H pkgdatadir g) c arg =
      .ok (of_given H pkgdatadir (push g c arg), !(c == 'h' || c == 'V')) := by
  obtain ⟨⟨opt, hopt, rfl⟩, hlevel, hcount⟩ := h
  simp only [flags, long_options, Bool.false_eq_true, if_false, List.mem_cons, List.not_mem_nil,
    or_false] at hopt
  rcases hopt with rfl | rfl | rfl | rfl | rfl | rfl | rfl | rfl | rfl | rfl | rfl | rfl | rfl |
    rfl | rfl | rfl | rfl | rfl | rfl | rfl
  -- the two numbers are checked first
  case inr.inr.inr.inr.inl =>
    obtain ⟨hne, hend, hnum⟩ := hlevel rfl
    unfold base_apply_option
    dsimp only
    rw [if_neg (by simp [hne, hend, hnum])]
    simp [of_given, push, last]
  case inr.inr.inr.inr.inr.inr.inr.inl =>
    obtain ⟨hne, hend, hpos, hlt⟩ := hcount rfl
    unfold base_apply_option
    dsimp only
    rw [if_neg (not_or.mpr ⟨hne, not_or.mpr ⟨not_not.mpr hend, by omega⟩⟩)]
    simp [of_given, push, last]
  all_goals simp [base_apply_option, of_given, push, last]

/-- What is applied was accepted. -/
theorem accepts_of_base_apply_option {o : options} {y : options × Bool}
    (h : base_apply_option H o c arg = .ok y) : Accepts false c arg := by
  unfold base_apply_option at h
  split at h
  case h_7 =>
    dsimp only at h
    split_ifs at h with hbad
    simp only [not_or, not_not, not_lt] at hbad
    exact ⟨by decide, fun _ => hbad, by simp⟩
  case h_8 =>
    dsimp only at h
    split_ifs at h with hbad
    simp only [not_or, not_not, not_le] at hbad
    exact ⟨by decide, by simp, fun _ => ⟨hbad.1, hbad.2.1, hbad.2.2.1, by omega⟩⟩
  case h_21 => exact absurd h (by simp)
  all_goals exact ⟨by decide, by simp, by simp⟩

theorem Accepts.added (h : Accepts false c arg) : Accepts true c arg := by
  obtain ⟨⟨opt, hopt, hval⟩, hnumbers⟩ := h
  exact ⟨⟨opt, List.mem_append_left _ hopt, hval⟩, hnumbers⟩

/-- **What applying an option does**: it fails, or the argument is accepted, and is one more that
was given. -/
theorem apply_option_iff {y : options × Bool} :
    apply_option crypt H (of_given H pkgdatadir g) c arg = .ok y ↔
      Accepts crypt c arg ∧
        y = (of_given H pkgdatadir (push g c arg), !(c == 'h' || c == 'V')) := by
  have hbase : base_apply_option H (of_given H pkgdatadir g) c arg = .ok y ↔
      Accepts false c arg ∧
        y = (of_given H pkgdatadir (push g c arg), !(c == 'h' || c == 'V')) := by
    constructor
    · intro h
      have haccepts := accepts_of_base_apply_option h
      rw [base_apply_option_of_accepts haccepts] at h
      exact ⟨haccepts, (Except.ok.inj h).symm⟩
    · rintro ⟨haccepts, rfl⟩
      exact base_apply_option_of_accepts haccepts
  unfold apply_option
  cases crypt with
  | false =>
      rw [if_neg (by simp)]
      exact hbase
  | true =>
      rw [if_pos rfl]
      split
      case h_6 h₁ h₂ h₃ h₄ h₅ =>
        -- a flag of the base
        rw [hbase]
        refine and_congr_left fun _ => ⟨Accepts.added, ?_⟩
        rintro ⟨⟨opt, hopt, rfl⟩, hnumbers⟩
        refine ⟨⟨opt, ?_, rfl⟩, hnumbers⟩
        rcases List.mem_append.mp hopt with hopt | hopt
        · exact hopt
        · simp only [crypt_long_options, List.mem_cons, List.not_mem_nil, or_false] at hopt
          rcases hopt with rfl | rfl | rfl | rfl | rfl
          · exact absurd rfl h₁
          · exact absurd rfl h₂
          · exact absurd rfl h₃
          · exact absurd rfl h₄
          · exact absurd rfl h₅
      all_goals
        constructor
        · intro h
          refine ⟨⟨by decide, by simp, by simp⟩, ?_⟩
          rw [← Except.ok.inj h]
          simp [of_given, push, last]
        · rintro ⟨-, rfl⟩
          simp [of_given, push, last]

end Apply

/-! ## Many options -/

section Many

variable {crypt : Bool} {H : Placement Str} {pkgdatadir : Str}

/-- What was given behind something else. -/
def after (g : Char → List Str) (ds : List (Char × Str)) : Char → List Str :=
  fun c => g c ++ given ds c

theorem after_nil (g : Char → List Str) : after g [] = g := by
  funext c
  exact List.append_nil (g c)

theorem after_cons (g : Char → List Str) (c : Char) (arg : Str) (ds : List (Char × Str)) :
    after (push g c arg) ds = after g ((c, arg) :: ds) := by
  funext c'
  unfold after push given
  rw [List.filterMap_cons]
  by_cases h : c' = c
  · rw [if_pos h, if_pos h.symm, List.append_assoc]
    rfl
  · rw [if_neg h, if_neg fun h' => h h'.symm]

theorem after_none (ds : List (Char × Str)) : after (fun _ => []) ds = given ds := by
  funext c
  exact List.nil_append _

theorem default_eq : default pkgdatadir = of_given H pkgdatadir fun _ => [] := rfl

/-- What a file gives is applied one by one, whatever it asks for. -/
def apply_directive (crypt : Bool) (H : Placement Str) (o : options) (x : Char × Str) :
    Result options :=
  (apply_option crypt H o x.1 x.2).map Prod.fst

theorem apply_directives_iff {o : options} (ds : List (Char × Str)) : ∀ g : Char → List Str,
    ds.foldlM (apply_directive crypt H) (of_given H pkgdatadir g) = .ok o ↔
      (∀ x ∈ ds, Accepts crypt x.1 x.2) ∧ o = of_given H pkgdatadir (after g ds) := by
  induction ds with
  | nil =>
      intro g
      rw [after_nil]
      constructor
      · intro h
        exact ⟨fun _ hx => absurd hx List.not_mem_nil, (Except.ok.inj h).symm⟩
      · rintro ⟨-, rfl⟩
        rfl
  | cons x ds ih =>
      intro g
      rw [List.foldlM_cons, Result.bind_eq_ok, List.forall_mem_cons, ← after_cons]
      constructor
      · rintro ⟨o₁, h₁, h⟩
        unfold apply_directive at h₁
        cases happly : apply_option crypt H (of_given H pkgdatadir g) x.1 x.2 with
        | error e =>
            rw [happly] at h₁
            exact absurd h₁ (by simp [Except.map])
        | ok y =>
            obtain ⟨haccepts, rfl⟩ := apply_option_iff.mp happly
            rw [happly] at h₁
            rw [← Except.ok.inj h₁, ih] at h
            exact ⟨⟨haccepts, h.1⟩, h.2⟩
      · rintro ⟨⟨haccepts, hrest⟩, rfl⟩
        refine ⟨of_given H pkgdatadir (push g x.1 x.2), ?_, (ih _).mpr ⟨hrest, rfl⟩⟩
        rw [apply_directive, apply_option_iff.mpr ⟨haccepts, rfl⟩]
        rfl

/-- A command line goes on to its end if nothing is asked for. -/
theorem apply_options_iff {o : options} (ds : List (Char × Str)) : ∀ g : Char → List Str,
    apply_options crypt H (of_given H pkgdatadir g) ds = .ok (o, true) ↔
      (∀ x ∈ ds, Accepts crypt x.1 x.2 ∧ ¬ Asks x.1) ∧
        o = of_given H pkgdatadir (after g ds) := by
  induction ds with
  | nil =>
      intro g
      rw [after_nil]
      constructor
      · intro h
        exact ⟨fun _ hx => absurd hx List.not_mem_nil, (Prod.mk.inj (Except.ok.inj h)).1.symm⟩
      · rintro ⟨-, rfl⟩
        rfl
  | cons x ds ih =>
      intro g
      obtain ⟨c, arg⟩ := x
      have hasks : (!(c == 'h' || c == 'V')) = true ↔ ¬ Asks c := by simp [Asks]
      rw [apply_options, Result.bind_eq_ok, List.forall_mem_cons, ← after_cons]
      constructor
      · rintro ⟨y, hy, h⟩
        obtain ⟨haccepts, rfl⟩ := apply_option_iff.mp hy
        dsimp only at h
        split_ifs at h with hgo
        · obtain ⟨hrest, ho⟩ := (ih _).mp h
          exact ⟨⟨⟨haccepts, hasks.mp hgo⟩, hrest⟩, ho⟩
        · exact absurd (Prod.mk.inj (Except.ok.inj h)).2 (by simp)
      · rintro ⟨⟨⟨haccepts, hno⟩, hrest⟩, rfl⟩
        refine ⟨_, apply_option_iff.mpr ⟨haccepts, rfl⟩, ?_⟩
        dsimp only
        rw [if_pos (hasks.mpr hno)]
        exact (ih _).mpr ⟨hrest, rfl⟩

end Many

/-! ## Lines -/

section Lines

variable {crypt : Bool} {H : Placement Str}

/-- The words of a line, as they are read. -/
theorem words_of_read_word {text word rest : Str} (h : Str.read_word text = some (word, rest)) :
    words Str.is_space text = word :: words Str.is_space rest := by
  obtain ⟨ws, rfl, hws, hrest⟩ := Str.read_word_eq h
  obtain ⟨hne, hword⟩ := Str.read_word_spec h
  rw [words_append_left hws]
  cases rest with
  | nil =>
      rw [List.append_nil, words_eq_singleton hne hword]
      rfl
  | cons c rest =>
      rw [words_append_cons word rest (hrest c rfl), words_eq_singleton hne hword]
      have hcons : words Str.is_space (c :: rest) = words Str.is_space rest :=
        words_append_cons [] rest (hrest c rfl)
      rw [hcons]
      rfl

theorem words_of_read_none {text : Str} (h : Str.read_word text = none) :
    words Str.is_space text = [] := by
  have hall := words_append_left (Str.read_word_eq_none h) []
  rw [List.append_nil] at hall
  exact hall

/-- A line does what it gives. -/
theorem parse_line_eq (o : options) (line : Str) :
    parse_line crypt H o line =
      (directive crypt line).toList.foldlM (apply_directive crypt H) o := by
  unfold parse_line directive
  by_cases hline : line.head? ≠ some '#' ∧ line.length < 512
  · by_cases hnil : line = []
    · rw [hnil, if_neg (by simp)]
      rfl
    · rw [if_pos ⟨hnil, hline⟩, if_pos hline]
      cases hread : Str.read_word line with
      | none =>
          rw [words_of_read_none hread]
          rfl
      | some p =>
          obtain ⟨word, rest⟩ := p
          rw [words_of_read_word hread]
          dsimp only [List.head?_cons, Option.bind_some]
          cases hfind : find_option crypt (normalize word) with
          | none => rfl
          | some opt =>
              have harg : ((Str.read_word rest).map Prod.fst).getD [] =
                  (word :: words Str.is_space rest).getD 1 [] := by
                cases hrest : Str.read_word rest with
                | none =>
                    rw [words_of_read_none hrest]
                    rfl
                | some p =>
                    obtain ⟨arg, rest'⟩ := p
                    rw [words_of_read_word hrest]
                    rfl
              dsimp only [Option.bind_some]
              rw [harg]
              split_ifs
              · rfl
              · rw [Option.toList_some, List.foldlM_cons, apply_directive]
                cases apply_option crypt H o opt.val
                    (Str.c_str ((word :: words Str.is_space rest).getD 1 [])) with
                | error e => rfl
                | ok y => rfl
  · rw [if_neg fun h => hline h.2, if_neg hline]
    rfl

theorem getline_line {line : Str} (h : '\n' ∉ line) (rest : Str) :
    getline (line ++ '\n' :: rest) = (line, some rest) := by
  have hline := Str.bne_of_not_mem h
  rw [getline, if_neg (by simp), List.takeWhile_append_of_pos hline,
    List.dropWhile_append_of_pos hline, List.takeWhile_cons_of_neg (by simp),
    List.dropWhile_cons_of_neg (by simp), List.append_nil]
  rfl

theorem getline_last {line : Str} (h : '\n' ∉ line) (hne : line ≠ []) :
    getline line = (line, some []) := by
  have hline := Str.bne_of_not_mem h
  rw [getline, if_neg hne, List.takeWhile_eq_self_iff.mpr hline,
    List.dropWhile_eq_nil_iff.mpr hline]
  rfl

/-- **The loop goes through the lines of a text.** The turn that finds the end of the file does
nothing. -/
theorem parse_file_loop_eq (text : Str) : ∀ (n : ℕ) (o : options), text.length + 2 ≤ n →
    parse_file_loop crypt H n o (some text) =
      (text.splitOn '\n').foldlM (parse_line crypt H) o := by
  have hend : ∀ (n : ℕ) (o : options), 2 ≤ n → parse_file_loop crypt H n o (some []) = .ok o := by
    intro n o hn
    obtain ⟨n, rfl⟩ := Nat.exists_eq_add_of_le' hn
    rfl
  induction text using induction_pieces '\n' with
  | last line hline =>
      intro n o hn
      rw [List.splitOn_eq_singleton hline]
      by_cases hne : line = []
      · rw [hne, hend n o (by omega)]
        rfl
      · have hlen : 0 < line.length := List.length_pos_iff.mpr hne
        obtain ⟨n, rfl⟩ := Nat.exists_eq_add_of_le' (show 1 ≤ n by omega)
        rw [parse_file_loop, getline_last hline hne, List.foldlM_cons]
        congr 1
        funext o'
        exact hend n o' (by omega)
  | cons line rest hline ih =>
      intro n o hn
      rw [List.length_append, List.length_cons] at hn
      obtain ⟨n, rfl⟩ := Nat.exists_eq_add_of_le' (show 1 ≤ n by omega)
      rw [parse_file_loop, getline_line hline, List.splitOn_append_cons_self,
        List.splitOn_eq_singleton hline, List.singleton_append, List.foldlM_cons]
      congr 1
      funext o'
      exact ih n o' (by omega)

/-- What a file does is what its lines give. -/
theorem parse_file_eq (o : options) (text : Str) :
    parse_file crypt H o (some text) =
      (directives crypt text).foldlM (apply_directive crypt H) o := by
  have hlines : ∀ (lines : List Str) (o : options), lines.foldlM (parse_line crypt H) o =
      (lines.filterMap (directive crypt)).foldlM (apply_directive crypt H) o := by
    intro lines
    induction lines with
    | nil =>
        intro o
        rfl
    | cons line lines ih =>
        intro o
        have hcons : (line :: lines).filterMap (directive crypt) =
            (directive crypt line).toList ++ lines.filterMap (directive crypt) := by
          rw [List.filterMap_cons]
          cases directive crypt line with
          | none => rfl
          | some x => rfl
        rw [List.foldlM_cons, parse_line_eq, hcons, List.foldlM_append]
        congr 1
        funext o'
        exact ih o'
  rw [parse_file, parse_file_loop_eq text _ o (by simp), hlines]
  rfl

end Lines

/-! ## Configurations -/

section Parse

variable {crypt : Bool} {d d' : Disk} {args args' : Args} {pkgdatadir : Str} {o : options}

/-- What a configuration gives, be it in a file or on the command line. -/
def said (crypt : Bool) (d : Disk) (args : Args) : List (Char × Str) :=
  args.file.elim args.getopt_long fun fn => directives crypt (d.text fn)

/-- What the options are before they are checked against each other. -/
theorem parse_args_iff :
    parse_args crypt d args (default pkgdatadir) = .ok (o, true) ↔
      (∀ x ∈ said crypt d args, Accepts crypt x.1 x.2 ∧ (args.file = none → ¬ Asks x.1)) ∧
        o = of_given d.H pkgdatadir (given (said crypt d args)) := by
  unfold parse_args said
  rw [@default_eq d.H, ← after_none]
  cases hfile : args.file with
  | none =>
      dsimp only [Option.elim]
      rw [apply_options_iff]
      simp
  | some fn =>
      dsimp only [Option.elim]
      have hread : ∀ o : options, parse_file crypt d.H o (d.files fn) =
          (directives crypt (d.text fn)).foldlM (apply_directive crypt d.H) o := by
        intro o
        unfold Disk.text
        cases hfn : d.files fn with
        | none => rfl
        | some text => exact parse_file_eq o text
      have hok : ∀ r : Result options, (r >>= fun o => .ok (o, true)) = .ok (o, true) ↔
          r = .ok o := by
        intro r
        cases r with
        | error e => simp [Result.error_bind]
        | ok a => simp [Result.ok_bind]
      rw [hok, hread, apply_directives_iff]
      simp

/-- The options that are checked against each other. -/
theorem options_apply_iff {o o' : options} :
    options_apply o = .ok o' ↔ (o.log_file = [] ∨ o.syslog = false) ∧
      o' = { o with syslog := o.syslog || (o.daemonize && o.log_file.isEmpty) } := by
  have hsyslog : (if o.daemonize = true ∧ o.log_file = [] then { o with syslog := true } else o) =
      { o with syslog := o.syslog || (o.daemonize && o.log_file.isEmpty) } := by
    split_ifs with h
    · rw [h.1, h.2]
      simp
    · have hnot : (o.daemonize && o.log_file.isEmpty) = false := by simpa using h
      rw [hnot, Bool.or_false]
  unfold options_apply
  dsimp only
  rw [hsyslog]
  constructor
  · intro h
    split_ifs at h with hboth
    refine ⟨?_, (Except.ok.inj h).symm⟩
    by_contra hcon
    simp only [not_or, Bool.not_eq_false] at hcon
    exact hboth ⟨hcon.1, by simp [hcon.2]⟩
  · rintro ⟨hlog, rfl⟩
    rw [if_neg]
    rintro ⟨hne, hs⟩
    rcases hlog with hlog | hlog
    · exact hne hlog
    · have hempty : o.log_file.isEmpty = false := by simpa using hne
      simp [hlog, hempty] at hs

/-- The two halves of `parse`. -/
theorem parse_eq_ok :
    parse crypt d args (default pkgdatadir) = .ok (o, true) ↔
      ∃ o₁, parse_args crypt d args (default pkgdatadir) = .ok (o₁, true) ∧
        options_apply o₁ = .ok o := by
  unfold parse
  rw [Result.bind_eq_ok]
  constructor
  · rintro ⟨⟨o₁, go⟩, hargs, h⟩
    dsimp only at h
    split_ifs at h with hgo
    · obtain ⟨o₂, happly, h⟩ := Result.bind_eq_ok.mp h
      obtain ⟨rfl, -⟩ := Prod.mk.inj (Except.ok.inj h)
      rw [hgo] at hargs
      exact ⟨o₁, hargs, happly⟩
    · exact absurd (Prod.mk.inj (Except.ok.inj h)).2 (by simp)
  · rintro ⟨o₁, hargs, happly⟩
    refine ⟨(o₁, true), hargs, ?_⟩
    dsimp only
    rw [if_pos rfl, happly]
    rfl

/-- **What a configuration comes to.** Whatever the lines of the file or the flags on the command
line are, and in whatever order: `parse` returns options to start with exactly if every argument
that is given to an option is accepted by it, no text is asked for on the command line, and there is
no log file together with the flag for the system log. The options are then those that are given,
the last argument of each or all arguments of a list, and a daemon without a log file uses the
system log. -/
theorem parse_iff {crypt : Bool} {d : Disk} {args : Args} {pkgdatadir : Str} {o : options} :
    parse crypt d args (default pkgdatadir) = .ok (o, true) ↔
      (∀ x ∈ said crypt d args, Accepts crypt x.1 x.2 ∧ (args.file = none → ¬ Asks x.1)) ∧
      (last (given (said crypt d args) 'l') [] = [] ∨ given (said crypt d args) 's' = []) ∧
      o = { of_given d.H pkgdatadir (given (said crypt d args)) with
        syslog := !(given (said crypt d args) 's').isEmpty ||
          (!(given (said crypt d args) 'd').isEmpty &&
            (last (given (said crypt d args) 'l') []).isEmpty) } := by
  rw [parse_eq_ok]
  constructor
  · rintro ⟨o₁, hargs, happly⟩
    obtain ⟨haccepts, rfl⟩ := parse_args_iff.mp hargs
    obtain ⟨hlog, rfl⟩ := options_apply_iff.mp happly
    refine ⟨haccepts, hlog.imp_right fun h => ?_, rfl⟩
    simpa [of_given] using h
  · rintro ⟨haccepts, hlog, rfl⟩
    refine ⟨_, parse_args_iff.mpr ⟨haccepts, rfl⟩, options_apply_iff.mpr ⟨?_, rfl⟩⟩
    refine hlog.imp_right fun h => ?_
    simp [of_given, h]

end Parse

/-! ## Writing a file -/

section Write

variable {crypt : Bool} {c : Char} {arg : Str}

theorem no_space_of_all {w : Str} (h : w.all (fun ch => !Str.is_space ch) = true) :
    ∀ ch ∈ w, Str.is_space ch = false := by
  intro ch hch
  simpa using List.all_eq_true.mp h ch hch

/-- **Every option is found under its name.** -/
theorem find_option_name {opt : option} (h : opt ∈ flags crypt) :
    find_option crypt (normalize opt.name) = some opt := by
  have hall : (flags crypt).all
      (fun opt => find_option crypt (normalize opt.name) == some opt) = true := by
    cases crypt with
    | false => decide +kernel
    | true => decide +kernel
  exact eq_of_beq (List.all_eq_true.mp hall opt h)

/-- The names of the options are words. -/
theorem name_word {opt : option} (h : opt ∈ flags crypt) :
    opt.name ≠ [] ∧ opt.name.length < 20 ∧ opt.name.head? ≠ some '#' ∧
      ∀ ch ∈ opt.name, Str.is_space ch = false := by
  have hall : (flags crypt).all (fun opt => !opt.name.isEmpty && opt.name.length < 20 &&
      opt.name.head? != some '#' && opt.name.all fun ch => !Str.is_space ch) = true := by
    cases crypt with
    | false => decide +kernel
    | true => decide +kernel
  have hopt := List.all_eq_true.mp hall opt h
  simp only [Bool.and_eq_true, bne_iff_ne, decide_eq_true_eq] at hopt
  obtain ⟨⟨⟨hne, hlen⟩, hhash⟩, hspace⟩ := hopt
  exact ⟨by simpa using hne, hlen, hhash, no_space_of_all hspace⟩

/-- The line that gives an argument to an option. -/
def line (opt : option) (arg : Str) : Str := if opt.has_arg then opt.name ++ ' ' :: arg else opt.name

/-- An argument that can stand in a line. -/
structure IsWord (arg : Str) : Prop where
  ne_nil : arg ≠ []
  no_space : ∀ ch ∈ arg, Str.is_space ch = false
  no_nul : '\x00' ∉ arg
  length_lt : arg.length < 490

/-- What can be written for an option. -/
def Writes (opt : option) (arg : Str) : Prop :=
  (opt.has_arg = true → IsWord arg) ∧ (opt.has_arg = false → arg = [])

/-- **A line gives what was written.** -/
theorem directive_line {opt : option} (hopt : opt ∈ flags crypt) (h : Writes opt arg) :
    directive crypt (line opt arg) = some (opt.val, arg) ∧ '\n' ∉ line opt arg := by
  obtain ⟨hne, hlen, hhash, hname⟩ := name_word hopt
  have hfind := find_option_name hopt
  have hfeed : ∀ w : Str, (∀ ch ∈ w, Str.is_space ch = false) → '\n' ∉ w := by
    intro w hw hmem
    exact absurd (hw _ hmem) (by decide)
  cases harg : opt.has_arg with
  | true =>
      have hword := h.1 harg
      have hline : line opt arg = opt.name ++ ' ' :: arg := by rw [line, if_pos harg]
      have hwords : words Str.is_space (line opt arg) = [opt.name, arg] := by
        rw [hline, words_append_cons _ _ rfl, words_eq_singleton hne hname,
          words_eq_singleton hword.ne_nil hword.no_space, List.singleton_append]
      have hhead : (line opt arg).head? ≠ some '#' := by
        rw [hline, List.head?_append_of_ne_nil _ hne]
        exact hhash
      have hshort : (line opt arg).length < 512 := by
        have := hword.length_lt
        rw [hline, List.length_append, List.length_cons]
        omega
      refine ⟨?_, ?_⟩
      · rw [directive, if_pos ⟨hhead, hshort⟩, hwords]
        dsimp only [List.head?_cons, Option.bind_some]
        rw [hfind]
        dsimp only [Option.bind_some]
        rw [if_neg (by rw [harg]; simp)]
        show some (opt.val, Str.c_str arg) = some (opt.val, arg)
        rw [Str.c_str_of_no_nul hword.no_nul]
      · rw [hline, List.mem_append, List.mem_cons, not_or, not_or]
        exact ⟨hfeed _ hname, by decide, hfeed _ hword.no_space⟩
  | false =>
      obtain rfl := h.2 harg
      have hline : line opt [] = opt.name := by rw [line, if_neg (by rw [harg]; simp)]
      refine ⟨?_, ?_⟩
      · rw [hline, directive, if_pos ⟨hhash, by omega⟩, words_eq_singleton hne hname]
        dsimp only [List.head?_cons, Option.bind_some]
        rw [hfind]
        dsimp only [Option.bind_some]
        rw [if_neg (by simp)]
        rfl
      · rw [hline]
        exact hfeed _ hname

/-- A file with a line for each argument. -/
def write (xs : List (option × Str)) : Str := xs.flatMap fun x => line x.1 x.2 ++ ['\n']

/-- What is written there, by flags. -/
def written (xs : List (option × Str)) : List (Char × Str) := xs.map fun x => (x.1.val, x.2)

/-- **A file gives what was written.** -/
theorem directives_write (xs : List (option × Str))
    (h : ∀ x ∈ xs, x.1 ∈ flags crypt ∧ Writes x.1 x.2) :
    directives crypt (write xs) = written xs := by
  induction xs with
  | nil => rfl
  | cons x xs ih =>
      obtain ⟨⟨hopt, hwrites⟩, hrest⟩ := List.forall_mem_cons.mp h
      obtain ⟨hdirective, hfeed⟩ := directive_line hopt hwrites
      have hsplit : (write (x :: xs)).splitOn '\n' = line x.1 x.2 :: (write xs).splitOn '\n' := by
        rw [write, List.flatMap_cons, List.append_assoc, List.singleton_append,
          List.splitOn_append_cons_self, List.splitOn_eq_singleton hfeed, List.singleton_append]
        rfl
      rw [directives, hsplit, List.filterMap_cons_some hdirective, written, List.map_cons]
      congr 1
      exact ih hrest

end Write

/-- An argument was given to the option with its flag. -/
theorem mem_iff_given {ds : List (Char × Str)} {c : Char} {arg : Str} :
    (c, arg) ∈ ds ↔ arg ∈ given ds c := by
  unfold given
  rw [List.mem_filterMap]
  constructor
  · intro h
    exact ⟨_, h, if_pos rfl⟩
  · rintro ⟨x, hx, h⟩
    split_ifs at h with hc
    rw [← hc, ← Option.some.inj h]
    exact hx

/-- **A file for a command line.** A file is written with a line for each argument of a command
line, in any order that keeps the arguments of each option in theirs. It comes to the same options,
or to none. -/
theorem written_parse_iff {crypt : Bool} {d d' : Disk} {args args' : Args} {fn pkgdatadir : Str}
    {xs : List (option × Str)} {o : options} (hplace : d'.H = d.H) (hfile : args.file = some fn)
    (htext : d.files fn = some (write xs)) (hxs : ∀ x ∈ xs, x.1 ∈ flags crypt ∧ Writes x.1 x.2)
    (hline : args'.file = none) (hasks : ∀ x ∈ xs, ¬ Asks x.1.val)
    (hgiven : ∀ c, given args'.getopt_long c = given (written xs) c) :
    parse crypt d args (default pkgdatadir) = .ok (o, true) ↔
      parse crypt d' args' (default pkgdatadir) = .ok (o, true) := by
  have hsaid : said crypt d args = written xs := by
    rw [said, hfile]
    show directives crypt (d.text fn) = _
    rw [Disk.text, htext]
    exact directives_write xs hxs
  have hsaid' : said crypt d' args' = args'.getopt_long := by
    rw [said, hline]
    rfl
  have hmem : ∀ x, x ∈ args'.getopt_long ↔ x ∈ written xs := by
    intro x
    rw [mem_iff_given (c := x.1), mem_iff_given (c := x.1), hgiven]
  -- nothing is asked for, so both go on to their ends
  have hno : ∀ x ∈ written xs, ¬ Asks x.1 := by
    intro x hx
    obtain ⟨y, hy, rfl⟩ := List.mem_map.mp hx
    exact hasks y hy
  have hargs : ∀ o₁, parse_args crypt d args (default pkgdatadir) = .ok (o₁, true) ↔
      parse_args crypt d' args' (default pkgdatadir) = .ok (o₁, true) := by
    intro o₁
    rw [parse_args_iff, parse_args_iff, hsaid, hsaid', hplace, funext hgiven]
    refine and_congr_left fun _ => ⟨?_, ?_⟩
    · intro h x hx
      have hx' := (hmem x).mp hx
      exact ⟨(h x hx').1, fun _ => hno x hx'⟩
    · intro h x hx
      exact ⟨(h x ((hmem x).mpr hx)).1, fun _ => hno x hx⟩
  rw [parse_eq_ok, parse_eq_ok]
  exact exists_congr fun o₁ => and_congr_left fun _ => hargs o₁

/-! ### A file and a command line -/

/-- A few lines. -/
def sampleLines : List (option × Str) := [
  (⟨"min-ttl".toList, true, 'M'⟩, "600".toList),
  (⟨"no-ipv6".toList, false, '6'⟩, []),
  (⟨"blacklist".toList, true, 'B'⟩, "b.txt".toList),
  (⟨"min-ttl".toList, true, 'M'⟩, "60".toList)]

/-- What `getopt_long` returns for them, in another order. -/
def sampleFlags : List (Char × Str) :=
  [('B', "b.txt".toList), ('M', "600".toList), ('M', "60".toList), ('6', [])]

/-- The file of these lines. -/
def sampleConfig : Disk := { responder.sampleDisk with files := fun _ => some (write sampleLines) }

/-- The file and the command line come to the same. -/
theorem written_parse_iff_sample : ∃ o,
    parse true sampleConfig ⟨["cdns".toList, "cdns.conf".toList], []⟩ (default []) = .ok (o, true) ∧
      o.min_ttl = 60 ∧ o.noipv6 = true ∧ o.blacklists = ["b.txt".toList] := by
  have hxs : ∀ x ∈ sampleLines, x.1 ∈ flags true ∧ Writes x.1 x.2 := by
    have hword : ∀ w : Str, w ≠ [] → w.all (fun ch => !Str.is_space ch) = true → '\x00' ∉ w →
        w.length < 490 → IsWord w := fun w h₁ h₂ h₃ h₄ => ⟨h₁, no_space_of_all h₂, h₃, h₄⟩
    intro x hx
    simp only [sampleLines, List.mem_cons, List.not_mem_nil, or_false] at hx
    rcases hx with rfl | rfl | rfl | rfl
    · exact ⟨by decide, fun _ => hword _ (by decide) (by decide) (by decide) (by decide), by simp⟩
    · exact ⟨by decide, by simp, fun _ => rfl⟩
    · exact ⟨by decide, fun _ => hword _ (by decide) (by decide) (by decide) (by decide), by simp⟩
    · exact ⟨by decide, fun _ => hword _ (by decide) (by decide) (by decide) (by decide), by simp⟩
  have hasks : ∀ x ∈ sampleLines, ¬ Asks x.1.val := by
    intro x hx
    simp only [sampleLines, List.mem_cons, List.not_mem_nil, or_false] at hx
    rcases hx with rfl | rfl | rfl | rfl <;> simp [Asks]
  have hgiven : ∀ c, given sampleFlags c = given (written sampleLines) c := by
    intro c
    by_cases hm : c = 'M'
    · rw [hm]
      decide
    · by_cases hb : c = 'B'
      · rw [hb]
        decide
      · have h₁ : 'M' ≠ c := fun h => hm h.symm
        have h₂ : 'B' ≠ c := fun h => hb h.symm
        simp [given, written, sampleLines, sampleFlags, List.filterMap_cons, h₁, h₂]
  have hcommand : ∃ o, parse true responder.sampleDisk
      ⟨["cdns".toList, "-6".toList], sampleFlags⟩ (default []) = .ok (o, true) ∧
        o.min_ttl = 60 ∧ o.noipv6 = true ∧ o.blacklists = ["b.txt".toList] :=
    ⟨_, rfl, rfl, rfl, rfl⟩
  obtain ⟨o, hparse, hvalues⟩ := hcommand
  have hplace : responder.sampleDisk.H = sampleConfig.H := rfl
  have hline : (⟨["cdns".toList, "-6".toList], sampleFlags⟩ : Args).file = none := rfl
  exact ⟨o, (written_parse_iff hplace rfl rfl hxs hline hasks hgiven).mpr hparse, hvalues⟩

end options

/-- The program starts with options of its configuration, and is a daemon as any other. -/
theorem daemon.main_made {pkgdatadir : Str} {x : Startup} {args : options.Args} {d : daemon}
    (h : daemon.main pkgdatadir x args = .ok (some d)) :
    ∃ o, options.parse true x.reading.disk args (options.default pkgdatadir) = .ok (o, true) ∧
      Made x o.tostart_parameters d := by
  obtain ⟨⟨o, go⟩, hparse, h⟩ := Result.bind_eq_ok.mp h
  dsimp only at h
  split_ifs at h with hgo
  · obtain ⟨d', hmake, h⟩ := Result.bind_eq_ok.mp h
    obtain rfl := Option.some.inj (Except.ok.inj h)
    rw [hgo] at hparse
    exact ⟨o, hparse, Or.inr ⟨o.tocrypt_parameters, hmake⟩⟩
  · exact absurd (Except.ok.inj h) (by simp)

end Cdns
