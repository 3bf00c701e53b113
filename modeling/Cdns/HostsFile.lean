/-
A hosts file, read line by line: what the constructor of `dns::hosts` (`dns/srcz/hosts.cpp`)
makes of a text.

The constructor goes through the characters with an address and a word at hand. Seen from
the outside there are only lines: each is cut at its first `#`, its first word is an address
and the others are names for it. `run_line` says what the loop does on one line, wherever it
ends, and the rest is an induction over the lines.

A first word is looked at only when a blank follows it, so a line of one word may hold
anything.
-/
import Cdns.AddressForms
import Cdns.Lib.Split
import Cdns.Reload

set_option autoImplicit false

namespace Cdns.hosts

open Lib.Split

/-! ## Lines -/

/-- `hosts::response`. -/
def response (map : host_ip_map) (name : Str) : Str := (map.lookup name).getD []

/-- A line up to its first `#`. -/
def cut (line : Str) : Str := line.takeWhile fun ch => ch != '#'

/-- What stands behind that. -/
def comment (line : Str) : Str := (line.dropWhile fun ch => ch != '#').drop 1

/-- The words of a line. -/
def line_words (line : Str) : List Str := words is_blank (cut line)

/-- The first word of a line. -/
def first_word (line : Str) : Str :=
  ((cut line).dropWhile is_blank).takeWhile fun ch => !is_blank ch

/-- What follows it: nothing, or a blank and more. -/
def behind_word (line : Str) : Str :=
  ((cut line).dropWhile is_blank).dropWhile fun ch => !is_blank ch

/-- A blank follows the first word, and that is no address. -/
def Refused (net : Inet) (line : Str) : Prop :=
  behind_word line ≠ [] ∧ ∃ e, is_ip_address net (Str.c_str (first_word line)) = .error e

/-- The line of this address is passed over. -/
def Skipped (net : Inet) (disable_ipv6 : Bool) (word : Str) : Prop :=
  disable_ipv6 = true ∧ is_ip_address net (Str.c_str word) = .ok .ipv6

instance (net : Inet) (disable_ipv6 : Bool) (word : Str) :
    Decidable (Skipped net disable_ipv6 word) := inferInstanceAs (Decidable (_ ∧ _))

/-- What a line says about a name. -/
def line_answer (net : Inet) (disable_ipv6 : Bool) (name line : Str) : Option Str :=
  if (line_words line).tail.contains name = true ∧ ¬ Skipped net disable_ipv6 (first_word line) then
    some (first_word line)
  else none

/-- What a text says about a name: what the first line says that says something. -/
def answer (net : Inet) (disable_ipv6 : Bool) (text name : Str) : Str :=
  ((text.splitOn '\n').findSome? (line_answer net disable_ipv6 name)).getD []

/-- The words, comments and lines that are passed over are short enough. -/
structure Bounded (net : Inet) (disable_ipv6 : Bool) (line : Str) : Prop where
  words : ∀ word ∈ line_words line, word.length < 2048
  comment : (comment line).length ≤ 100000
  skipped : behind_word line ≠ [] → Skipped net disable_ipv6 (first_word line) →
    line.length ≤ 100000

/-! ## The loop -/

section Loop

variable (net : Inet) (file_name : Str) (disable_ipv6 : Bool)

/-- The loop, with a count that is no restriction. -/
def run (text ip word : Str) (map : host_ip_map) : Result host_ip_map :=
  hosts_loop net file_name disable_ipv6 (text.length + 1) text ip word map

variable {net file_name disable_ipv6}

theorem hosts_loop_eq_run {n : ℕ} {text : Str} (h : text.length < n) (ip word : Str)
    (map : host_ip_map) :
    hosts_loop net file_name disable_ipv6 n text ip word map
      = run net file_name disable_ipv6 text ip word map := by
  obtain ⟨m, rfl⟩ := Nat.exists_eq_add_of_lt h
  have hmono := hosts_loop_mono net file_name disable_ipv6 m (Nat.lt_succ_self text.length) ip word
    map
  rw [run, ← hmono]
  congr 1
  omega

theorem run_line_feed (f ip word : Str) (map : host_ip_map) :
    run net file_name disable_ipv6 ('\n' :: f) ip word map
      = run net file_name disable_ipv6 f [] [] (end_line map word ip) := rfl

theorem run_comment (f ip word : Str) (map : host_ip_map) :
    run net file_name disable_ipv6 ('#' :: f) ip word map
      = run net file_name disable_ipv6 (Str.ignore 100000 '\n' f) [] [] (end_line map word ip) := by
  have hlen := Str.ignore_length_le 100000 '\n' f
  exact hosts_loop_eq_run (Nat.lt_succ_of_le hlen) [] [] (end_line map word ip)

variable {ch : Char}

/-- A blank is neither the end of a line nor the start of a comment. -/
theorem blank_ne (hb : is_blank ch = true) : ¬ (ch = '\n' ∨ ch = '#') := by
  rintro (rfl | rfl)
  · exact absurd hb (by decide)
  · exact absurd hb (by decide)

theorem run_blank (hb : is_blank ch = true) (f ip : Str) (map : host_ip_map) :
    run net file_name disable_ipv6 (ch :: f) ip [] map
      = run net file_name disable_ipv6 f ip [] map := by
  rw [run, hosts_loop, if_neg (blank_ne hb), if_pos hb, if_pos rfl]
  rfl

theorem run_name (hb : is_blank ch = true) (f : Str) {ip word : Str} (hip : ip ≠ [])
    (hword : word ≠ []) (map : host_ip_map) :
    run net file_name disable_ipv6 (ch :: f) ip word map
      = run net file_name disable_ipv6 f ip [] (add map word ip) := by
  rw [run, hosts_loop, if_neg (blank_ne hb), if_pos hb, if_neg hword, if_neg hip]
  rfl

theorem run_char (hstop : ch ≠ '\n') (hcomment : ch ≠ '#') (hb : is_blank ch = false) (f ip : Str)
    {word : Str} (hlen : (word ++ [ch]).length < 2048) (map : host_ip_map) :
    run net file_name disable_ipv6 (ch :: f) ip word map
      = run net file_name disable_ipv6 f ip (word ++ [ch]) map := by
  rw [run, hosts_loop, if_neg (not_or.mpr ⟨hstop, hcomment⟩), if_neg (by simp [hb])]
  dsimp only
  rw [if_neg (by omega)]
  rfl

/-- The word behind which the first blank stands should be an address. -/
theorem run_refused (hb : is_blank ch = true) (f : Str) {word : Str} (hword : word ≠ [])
    (map : host_ip_map) {e : Exn} (h : is_ip_address net (Str.c_str word) = .error e) :
    run net file_name disable_ipv6 (ch :: f) [] word map = .error e := by
  rw [run, hosts_loop, if_neg (blank_ne hb), if_pos hb, if_neg hword, if_pos rfl, h]

theorem run_skipped (hb : is_blank ch = true) (f : Str) {word : Str} (hword : word ≠ [])
    (map : host_ip_map) (h : Skipped net disable_ipv6 word) :
    run net file_name disable_ipv6 (ch :: f) [] word map
      = run net file_name disable_ipv6 (Str.ignore 100000 '\n' f) [] [] map := by
  have hlen := Str.ignore_length_le 100000 '\n' f
  rw [run, hosts_loop, if_neg (blank_ne hb), if_pos hb, if_neg hword, if_pos rfl, h.2]
  dsimp only
  rw [if_neg (by simp [h.1])]
  exact hosts_loop_eq_run (Nat.lt_succ_of_le hlen) [] [] map

theorem run_kept (hb : is_blank ch = true) (f : Str) {word : Str} (hword : word ≠ [])
    (map : host_ip_map) {af : inet} (h : is_ip_address net (Str.c_str word) = .ok af)
    (hkept : ¬ Skipped net disable_ipv6 word) :
    run net file_name disable_ipv6 (ch :: f) [] word map
      = run net file_name disable_ipv6 f word [] map := by
  have haf : af = .ipv4 ∨ disable_ipv6 = false := by
    rw [Skipped, h] at hkept
    cases af <;> simp_all
  rw [run, hosts_loop, if_neg (blank_ne hb), if_pos hb, if_neg hword, if_pos rfl, h]
  dsimp only
  rw [if_pos haf]
  rfl

/-- Blanks. -/
theorem run_blanks {bs : Str} (hbs : ∀ ch ∈ bs, is_blank ch = true) (f ip : Str)
    (map : host_ip_map) :
    run net file_name disable_ipv6 (bs ++ f) ip [] map
      = run net file_name disable_ipv6 f ip [] map := by
  induction bs with
  | nil => rfl
  | cons b bs ih =>
      obtain ⟨hb, hbs⟩ := List.forall_mem_cons.mp hbs
      rw [List.cons_append, run_blank hb, ih hbs]

/-- A character of a line before its comment. -/
def InLine (ch : Char) : Prop := ch ≠ '\n' ∧ ch ≠ '#'

/-- A word. -/
theorem run_word {w : Str} (hw : ∀ ch ∈ w, InLine ch ∧ is_blank ch = false) (f ip v : Str)
    (hlen : (v ++ w).length < 2048) (map : host_ip_map) :
    run net file_name disable_ipv6 (w ++ f) ip v map
      = run net file_name disable_ipv6 f ip (v ++ w) map := by
  induction w generalizing v with
  | nil => rw [List.nil_append, List.append_nil]
  | cons ch w ih =>
      obtain ⟨⟨hch, hb⟩, hw⟩ := List.forall_mem_cons.mp hw
      have hassoc : v ++ ch :: w = (v ++ [ch]) ++ w := by simp
      rw [hassoc] at hlen ⊢
      have hlen' : (v ++ [ch]).length < 2048 := by
        rw [List.length_append] at hlen
        omega
      rw [List.cons_append, run_char hch.1 hch.2 hb (w ++ f) ip hlen', ih hw (v ++ [ch]) hlen]

/-- **The names behind an address.** By induction on the line, with a part `w` of the first
of them already read; `tail` is not looked at. -/
theorem run_names {ip : Str} (hip : ip ≠ []) {l : Str} (hl : ∀ ch ∈ l, InLine ch) {w : Str}
    (hw : ∀ ch ∈ w, is_blank ch = false)
    (hlen : ∀ word ∈ words is_blank (w ++ l), word.length < 2048) (tail : Str) (map : host_ip_map) :
    ∃ map' w', run net file_name disable_ipv6 (l ++ tail) ip w map
        = run net file_name disable_ipv6 tail ip w' map' ∧
      end_line map' w' ip = (words is_blank (w ++ l)).foldl (fun m word => add m word ip) map := by
  induction l generalizing w map with
  | nil =>
      refine ⟨map, w, rfl, ?_⟩
      rw [List.append_nil]
      by_cases hne : w = []
      · subst hne
        rfl
      · rw [words_eq_singleton hne hw, end_line, if_pos ⟨hne, hip⟩]
        rfl
  | cons ch l ih =>
      obtain ⟨hch, hl⟩ := List.forall_mem_cons.mp hl
      rw [List.cons_append]
      by_cases hb : is_blank ch = true
      · have hnil : ∀ c ∈ ([] : Str), is_blank c = false := by simp
        rw [words_append_cons w l hb] at hlen ⊢
        by_cases hne : w = []
        · subst hne
          rw [run_blank hb]
          exact ih hl hnil hlen map
        · rw [words_eq_singleton hne hw] at hlen ⊢
          rw [run_name hb _ hip hne]
          exact ih hl hnil (fun word hword => hlen word (List.mem_cons_of_mem w hword)) _
      · have hb' : is_blank ch = false := by simpa using hb
        have hassoc : w ++ ch :: l = (w ++ [ch]) ++ l := by simp
        have hw' : ∀ c ∈ w ++ [ch], is_blank c = false := by
          intro c hc
          rcases List.mem_append.mp hc with hc | hc
          · exact hw c hc
          · rw [List.mem_singleton.mp hc]
            exact hb'
        rw [hassoc] at hlen ⊢
        have hlen' : (w ++ [ch]).length < 2048 := by
          obtain ⟨v, vs, hwords⟩ := words_append (by simp) hw' l
          have := hlen (w ++ [ch] ++ v) (hwords ▸ List.mem_cons_self ..)
          rw [List.length_append] at this
          omega
        rw [run_char hch.1 hch.2 hb' _ ip hlen']
        exact ih hl hw' hlen map

/-! ## One line -/

/-- What ends a line, and what follows. -/
def Ends (tail rest : Str) : Prop := (tail = [] ∧ rest = []) ∨ tail = '\n' :: rest

/-- The rest of a line is passed over. -/
theorem run_ignore {x : Str} (hx : '\n' ∉ x) (hlen : x.length ≤ 100000) {tail rest : Str}
    (htail : Ends tail rest) (map : host_ip_map) :
    run net file_name disable_ipv6 (Str.ignore 100000 '\n' (x ++ tail)) [] [] map
      = run net file_name disable_ipv6 rest [] [] map := by
  rcases htail with ⟨rfl, rfl⟩ | rfl
  · rw [List.append_nil, Str.ignore_last hx hlen]
  · rcases Nat.lt_or_eq_of_le hlen with hlt | heq
    · rw [Str.ignore_line hx hlt]
    · -- the end of the line is left, and is an empty line of its own
      have h := Str.ignore_append hx 0 ('\n' :: rest)
      rw [Nat.add_zero, heq] at h
      rw [h]
      exact run_line_feed rest [] [] map

/-- **The end of a line**, with or without a comment. -/
theorem run_stop {l : Str} (hl : '\n' ∉ l) (hlen : (comment l).length ≤ 100000) {tail rest : Str}
    (htail : Ends tail rest) (ip word : Str) (map : host_ip_map) :
    run net file_name disable_ipv6 ((l.dropWhile fun ch => ch != '#') ++ tail) ip word map
      = run net file_name disable_ipv6 rest [] [] (end_line map word ip) := by
  cases h : l.dropWhile fun ch => ch != '#' with
  | nil =>
      rcases htail with ⟨rfl, rfl⟩ | rfl
      · rfl
      · rfl
  | cons ch x =>
      have hch : ch = '#' := by
        have hfirst := List.head?_dropWhile_not (fun ch => ch != '#') l
        rw [h] at hfirst
        simpa using hfirst
      have hx : '\n' ∉ x := by
        intro hmem
        have hmem' : '\n' ∈ l.dropWhile fun ch => ch != '#' := by
          rw [h]
          exact List.mem_cons_of_mem ch hmem
        exact hl ((List.dropWhile_suffix _).subset hmem')
      have hcomment : comment l = x := by
        rw [comment, h]
        rfl
      rw [hcomment] at hlen
      rw [hch, List.cons_append, run_comment]
      exact run_ignore hx hlen htail _

/-- The parts of a line before its comment. -/
theorem cut_eq (l : Str) :
    cut l = (cut l).takeWhile is_blank ++ (first_word l ++ behind_word l) := by
  unfold first_word behind_word
  rw [List.takeWhile_append_dropWhile, List.takeWhile_append_dropWhile]

theorem first_word_no_blank (l : Str) : ∀ ch ∈ first_word l, is_blank ch = false := by
  intro ch hch
  simpa using List.mem_takeWhile_imp hch

/-- What follows the first word starts with a blank, and then there is a first word. -/
theorem behind_word_cons {l : Str} {b : Char} {r : Str} (h : behind_word l = b :: r) :
    is_blank b = true ∧ first_word l ≠ [] := by
  have hb : is_blank b = true := by
    have hfirst := List.head?_dropWhile_not (fun ch => !is_blank ch) ((cut l).dropWhile is_blank)
    rw [← behind_word, h] at hfirst
    simpa using hfirst
  refine ⟨hb, fun hnil => ?_⟩
  have hparts : first_word l ++ behind_word l = (cut l).dropWhile is_blank :=
    List.takeWhile_append_dropWhile
  have hfirst := List.head?_dropWhile_not is_blank (cut l)
  rw [← hparts, hnil, h] at hfirst
  exact absurd hb (by simpa using hfirst)

/-- The words of a line are the first one and those behind. -/
theorem line_words_eq {l : Str} {b : Char} {r : Str} (h : behind_word l = b :: r) :
    line_words l = first_word l :: words is_blank r := by
  obtain ⟨hb, hne⟩ := behind_word_cons h
  rw [line_words, cut_eq l, words_append_left fun ch hch => List.mem_takeWhile_imp hch, h,
    words_append_cons _ r hb, words_eq_singleton hne (first_word_no_blank l)]
  rfl

theorem line_answer_eq {l : Str} {b : Char} {r : Str} (h : behind_word l = b :: r) (name : Str) :
    line_answer net disable_ipv6 name l
      = if name ∈ words is_blank r ∧ ¬ Skipped net disable_ipv6 (first_word l) then
          some (first_word l) else none := by
  rw [line_answer, line_words_eq h, List.tail_cons]
  simp only [List.contains_iff_mem]

/-- A line of one word says nothing. -/
theorem line_answer_eq_none {l : Str} (h : behind_word l = []) (name : Str) :
    line_answer net disable_ipv6 name l = none := by
  have hwords : line_words l = words is_blank (first_word l) := by
    rw [line_words, cut_eq l, words_append_left fun ch hch => List.mem_takeWhile_imp hch, h,
      List.append_nil]
  have htail : (line_words l).tail = [] := by
    rw [hwords]
    by_cases hne : first_word l = []
    · rw [hne]
      rfl
    · rw [words_eq_singleton hne (first_word_no_blank l), List.tail_cons]
  rw [line_answer, htail]
  exact if_neg fun h => absurd h.1 (by simp)

/-! ### Names -/

theorem lookup_add (map : host_ip_map) (word ip name : Str) :
    (add map word ip).lookup name
      = (map.lookup name).or (if name = word then some ip else none) := by
  unfold add
  by_cases hname : name = word
  · subst hname
    rw [if_pos rfl]
    cases h : map.lookup name with
    | none => simp [List.lookup_append, h]
    | some v => simp [h]
  · have hbeq : (name == word) = false := by simpa using hname
    rw [if_neg hname, Option.or_none]
    split_ifs
    · rfl
    · simp [List.lookup_append, List.lookup_cons, hbeq]

/-- The names of a line get its address if they have none. -/
theorem lookup_foldl_add (names : List Str) (map : host_ip_map) (ip name : Str) :
    (names.foldl (fun m word => add m word ip) map).lookup name
      = (map.lookup name).or (if name ∈ names then some ip else none) := by
  induction names generalizing map with
  | nil => simp
  | cons word names ih =>
      rw [List.foldl_cons, ih, lookup_add, Option.or_assoc]
      by_cases hname : name = word
      · subst hname
        rw [if_pos rfl, if_pos (List.mem_cons_self ..)]
        rfl
      · have hmem : name ∈ word :: names ↔ name ∈ names := by
          rw [List.mem_cons, or_iff_right hname]
        rw [if_neg hname, Option.none_or]
        simp only [hmem]

/-- A first word is a word. -/
theorem first_word_length {l : Str} (h : ∀ word ∈ line_words l, word.length < 2048) :
    (first_word l).length < 2048 := by
  by_cases hne : first_word l = []
  · rw [hne]
    decide
  · obtain ⟨v, vs, hwords⟩ := words_append hne (first_word_no_blank l) (behind_word l)
    have hmem : first_word l ++ v ∈ line_words l := by
      rw [line_words, cut_eq l, words_append_left fun ch hch => List.mem_takeWhile_imp hch, hwords]
      exact List.mem_cons_self ..
    have hlen := h _ hmem
    rw [List.length_append] at hlen
    omega

/-- The characters of a line before its comment. -/
theorem inLine_of_mem_cut {l : Str} (hl : '\n' ∉ l) : ∀ ch ∈ cut l, InLine ch := by
  intro ch hch
  refine ⟨?_, by simpa using List.mem_takeWhile_imp hch⟩
  rintro rfl
  exact hl ((List.takeWhile_prefix _).subset hch)

theorem mem_cut_of_mem_behind {l : Str} {ch : Char} (h : ch ∈ first_word l ++ behind_word l) :
    ch ∈ cut l := by
  rw [cut_eq l]
  exact List.mem_append_right _ h

/-- The loop up to the end of the first word. -/
theorem run_first {l : Str} (hl : '\n' ∉ l) (hwords : ∀ word ∈ line_words l, word.length < 2048)
    (tail : Str) (map : host_ip_map) :
    run net file_name disable_ipv6 (l ++ tail) [] [] map
      = run net file_name disable_ipv6
          (behind_word l ++ ((l.dropWhile fun ch => ch != '#') ++ tail)) [] (first_word l) map := by
  have hblank : ∀ ch ∈ (cut l).takeWhile is_blank, is_blank ch = true :=
    fun ch hch => List.mem_takeWhile_imp hch
  have hfirst : ∀ ch ∈ first_word l, InLine ch ∧ is_blank ch = false := fun ch hch =>
    ⟨inLine_of_mem_cut hl ch (mem_cut_of_mem_behind (List.mem_append_left _ hch)),
      first_word_no_blank l ch hch⟩
  have hlen : (([] : Str) ++ first_word l).length < 2048 := first_word_length hwords
  have hparts : l ++ tail = (cut l).takeWhile is_blank ++ (first_word l ++
      (behind_word l ++ ((l.dropWhile fun ch => ch != '#') ++ tail))) := by
    rw [← List.append_assoc (first_word l), ← List.append_assoc _ (first_word l ++ behind_word l),
      ← cut_eq l, ← List.append_assoc, cut, List.takeWhile_append_dropWhile]
  rw [hparts, run_blanks hblank, run_word hfirst _ [] [] hlen, List.nil_append]

/-- What follows the first word, with the comment, is a part of the line. -/
theorem behind_suffix {l : Str} {b : Char} {r : Str} (h : behind_word l = b :: r) :
    r ++ (l.dropWhile fun ch => ch != '#') <:+ l := by
  refine ⟨(cut l).takeWhile is_blank ++ first_word l ++ [b], ?_⟩
  have hcut := cut_eq l
  rw [h] at hcut
  calc (cut l).takeWhile is_blank ++ first_word l ++ [b] ++ (r ++ l.dropWhile fun ch => ch != '#')
      = (cut l).takeWhile is_blank ++ (first_word l ++ b :: r)
          ++ l.dropWhile fun ch => ch != '#' := by simp
    _ = cut l ++ l.dropWhile fun ch => ch != '#' := by rw [← hcut]
    _ = l := List.takeWhile_append_dropWhile

/-- **One line of the file**: it is refused, or the names it has are added. -/
theorem run_line {l : Str} (hl : '\n' ∉ l) (hbound : Bounded net disable_ipv6 l) {tail rest : Str}
    (htail : Ends tail rest) (map : host_ip_map) :
    (Refused net l ∧ ∃ e, run net file_name disable_ipv6 (l ++ tail) [] [] map = .error e) ∨
    (¬ Refused net l ∧ ∃ map', run net file_name disable_ipv6 (l ++ tail) [] [] map
        = run net file_name disable_ipv6 rest [] [] map' ∧
      ∀ name, map'.lookup name = (map.lookup name).or (line_answer net disable_ipv6 name l)) := by
  rw [run_first hl hbound.words]
  cases hbehind : behind_word l with
  | nil =>
      -- the first word is not looked at
      refine Or.inr ⟨fun h => h.1 hbehind, map, ?_, fun name => ?_⟩
      · rw [List.nil_append, run_stop hl hbound.comment htail, end_line, if_neg fun h => h.2 rfl]
      · rw [line_answer_eq_none hbehind, Option.or_none]
  | cons b r =>
      obtain ⟨hb, hne⟩ := behind_word_cons hbehind
      have hr : ∀ ch ∈ r, InLine ch := by
        intro ch hch
        refine inLine_of_mem_cut hl ch (mem_cut_of_mem_behind (List.mem_append_right _ ?_))
        rw [hbehind]
        exact List.mem_cons_of_mem b hch
      rw [List.cons_append]
      cases haddr : is_ip_address net (Str.c_str (first_word l)) with
      | error e => exact Or.inl ⟨⟨by simp [hbehind], e, haddr⟩, e, run_refused hb _ hne map haddr⟩
      | ok af =>
          have hnot : ¬ Refused net l := by
            rintro ⟨-, e, he⟩
            rw [haddr] at he
            exact absurd he (by simp)
          refine Or.inr ⟨hnot, ?_⟩
          by_cases hskip : Skipped net disable_ipv6 (first_word l)
          · -- the rest of the line, with its comment
            refine ⟨map, ?_, fun name => ?_⟩
            · have hsuffix := behind_suffix hbehind
              have hlen := hbound.skipped (by simp [hbehind]) hskip
              rw [run_skipped hb _ hne map hskip, ← List.append_assoc]
              exact run_ignore (fun hmem => hl (hsuffix.subset hmem))
                (le_trans hsuffix.length_le hlen) htail map
            · rw [line_answer_eq hbehind, if_neg fun h => h.2 hskip, Option.or_none]
          · have hnil : ∀ ch ∈ ([] : Str), is_blank ch = false := by simp
            have hlen : ∀ word ∈ words is_blank ([] ++ r), word.length < 2048 := by
              intro word hword
              refine hbound.words word ?_
              rw [line_words_eq hbehind]
              exact List.mem_cons_of_mem _ hword
            obtain ⟨map', w', hrun, hend⟩ := run_names hne hr hnil hlen
              ((l.dropWhile fun ch => ch != '#') ++ tail) map
            refine ⟨end_line map' w' (first_word l), ?_, fun name => ?_⟩
            · rw [run_kept hb _ hne map haddr hskip, hrun, run_stop hl hbound.comment htail]
            · rw [hend, List.nil_append, lookup_foldl_add, line_answer_eq hbehind]
              simp only [hskip, not_false_eq_true, and_true]

/-! ## The file -/

/-- **All lines.** By induction over them: one is refused, or the first that names a name
answers for it. -/
theorem run_text {text : Str} (hbound : ∀ line ∈ text.splitOn '\n', Bounded net disable_ipv6 line)
    (map : host_ip_map) :
    ((∃ line ∈ text.splitOn '\n', Refused net line) ∧
      ∃ e, run net file_name disable_ipv6 text [] [] map = .error e) ∨
    ((¬ ∃ line ∈ text.splitOn '\n', Refused net line) ∧
      ∃ map', run net file_name disable_ipv6 text [] [] map = .ok map' ∧
        ∀ name, map'.lookup name = (map.lookup name).or
          ((text.splitOn '\n').findSome? (line_answer net disable_ipv6 name))) := by
  induction text using induction_pieces '\n' generalizing map with
  | last l hl =>
      have hlines : l.splitOn '\n' = [l] := List.splitOn_eq_singleton hl
      rw [hlines] at hbound ⊢
      have hline := @run_line net file_name disable_ipv6 l hl (hbound l (List.mem_singleton_self l))
        [] [] (Or.inl ⟨rfl, rfl⟩) map
      rw [List.append_nil] at hline
      obtain ⟨href, herr⟩ | ⟨href, map', hrun, hmap⟩ := hline
      · exact Or.inl ⟨⟨l, List.mem_singleton_self l, href⟩, herr⟩
      · refine Or.inr ⟨?_, map', hrun, fun name => ?_⟩
        · rintro ⟨line, hmem, h⟩
          rw [List.mem_singleton.mp hmem] at h
          exact href h
        · rw [hmap name]
          simp
  | cons l r hl ih =>
      have hlines : (l ++ '\n' :: r).splitOn '\n' = l :: r.splitOn '\n' := by
        rw [List.splitOn_append_cons_self, List.splitOn_eq_singleton hl, List.singleton_append]
      rw [hlines] at hbound ⊢
      obtain ⟨hboundl, hboundr⟩ := List.forall_mem_cons.mp hbound
      obtain ⟨href, herr⟩ | ⟨href, map', hrun, hmap⟩ :=
        @run_line net file_name disable_ipv6 l hl hboundl ('\n' :: r) r (Or.inr rfl) map
      · exact Or.inl ⟨⟨l, List.mem_cons_self .., href⟩, herr⟩
      · rw [hrun, List.exists_mem_cons_iff, or_iff_right href]
        refine (ih hboundr map').imp id ?_
        rintro ⟨hrefs, map'', hrun', hmap'⟩
        refine ⟨hrefs, map'', hrun', fun name => ?_⟩
        rw [hmap', hmap, Option.or_assoc]
        cases h : line_answer net disable_ipv6 name l with
        | none =>
            rw [List.findSome?_cons, h]
            rfl
        | some ip =>
            rw [List.findSome?_cons, h]
            rfl

/-- What the constructor is, once the file is open. -/
theorem of_file_eq {files : Str → Option Str} {text : Str} (hfile : files file_name = some text) :
    of_file net files file_name disable_ipv6 = run net file_name disable_ipv6 text [] [] [] := by
  rw [of_file, hfile]
  rfl

/-- The responses of a map that was read. -/
theorem response_of_file {files : Str → Option Str} {text : Str}
    (hfile : files file_name = some text)
    (hbound : ∀ line ∈ text.splitOn '\n', Bounded net disable_ipv6 line) {map : host_ip_map}
    (h : of_file net files file_name disable_ipv6 = .ok map) (name : Str) :
    response map name = answer net disable_ipv6 text name := by
  rw [of_file_eq hfile] at h
  obtain ⟨-, e, he⟩ | ⟨-, map', hmap, hlookup⟩ :=
    @run_text net file_name disable_ipv6 text hbound []
  · rw [he] at h
    exact absurd h (by simp)
  · rw [hmap] at h
    rw [← Except.ok.inj h, response, hlookup name, answer]
    rfl

/-- **What a hosts file is read as.** The constructor throws exactly when a line starts with a
word that a blank follows and that is no address, and if it does not, the first line that has
a name behind its address, and is not passed over, gives the response. -/
theorem of_file_iff {files : Str → Option Str} {text : Str} (hfile : files file_name = some text)
    (hbound : ∀ line ∈ text.splitOn '\n', Bounded net disable_ipv6 line) :
    ((∃ e, of_file net files file_name disable_ipv6 = .error e) ↔
      ∃ line ∈ text.splitOn '\n', Refused net line) ∧
    ∀ map, of_file net files file_name disable_ipv6 = .ok map →
      ∀ name, response map name = answer net disable_ipv6 text name := by
  refine ⟨?_, fun map h name => response_of_file hfile hbound h name⟩
  rw [of_file_eq hfile]
  obtain ⟨href, herr⟩ | ⟨href, map, hmap, -⟩ :=
    @run_text net file_name disable_ipv6 text hbound []
  · exact iff_of_true herr href
  · refine iff_of_false ?_ href
    rintro ⟨e, he⟩
    rw [hmap] at he
    exact absurd he (by simp)

end Loop

/-- A file with a comment, an address of each family and a line that is not ended. -/
def sampleText : Str := "# local\n9.9.9.9 a b#c\n::1 a b c\r\n9.9.9.9\tc".toList

theorem sampleText_bounded :
    ∀ line ∈ sampleText.splitOn '\n', Bounded address.sampleNet true line := by
  have hshort : ∀ line ∈ sampleText.splitOn '\n', (∀ word ∈ line_words line, word.length < 2048) ∧
      (comment line).length ≤ 100000 ∧ line.length ≤ 100000 := by decide
  intro line hline
  obtain ⟨hwords, hcomment, hlen⟩ := hshort line hline
  exact ⟨hwords, hcomment, fun _ _ => hlen⟩

/-- The only file. -/
def sampleFiles : Str → Option Str := fun _ => some sampleText

/-- The line for IPv6 is passed over, and the last one is read without its end. -/
theorem of_file_iff_sample :
    of_file address.sampleNet sampleFiles [] true
        = .ok [("a".toList, "9.9.9.9".toList), ("b".toList, "9.9.9.9".toList),
          ("c".toList, "9.9.9.9".toList)] ∧
      ∀ map, of_file address.sampleNet sampleFiles [] true = .ok map →
        response map "c".toList = "9.9.9.9".toList := by
  have hfile : sampleFiles [] = some sampleText := rfl
  have hanswer : answer address.sampleNet true sampleText "c".toList = "9.9.9.9".toList := by decide
  refine ⟨by decide, fun map h => ?_⟩
  rw [← hanswer]
  exact (of_file_iff hfile sampleText_bounded).2 map h "c".toList

/-! ## The responder -/

/-- **After a reload** that does not throw, the responder answers from the file. -/
theorem hosts_response_of_reload {d : Disk} {params : responder_parameters} {r : responder}
    {text : Str} (h : (responder.reload d params r).2 = none) (hhosts : params.hosts ≠ [])
    (hfile : d.files (Str.c_str params.hosts) = some text)
    (hbound : ∀ line ∈ text.splitOn '\n', Bounded d.net params.noipv6 line) (name : Str) :
    (responder.reload d params r).1.hosts_response name = answer d.net params.noipv6 text name := by
  have hmap := responder.reload_hosts h
  rw [responder.hosts_of, if_pos hhosts] at hmap
  exact response_of_file hfile hbound hmap name

end Cdns.hosts
