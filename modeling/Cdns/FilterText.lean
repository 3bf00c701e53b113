/-
Writing a filter: `filter::write` (`dns/srcz/filter.cpp`), and that the constructor reads the
same filter back.

`write` prints the four containers one after the other, each under a comment, and wraps the
lines. A word is preceded by a blank or a line end wherever it stands, so the constructor finds
the words that were printed (`rule_words_write_lines`). Each of them is classified as what it
was (`rule_of_text`): the asterisks are put back where `classify` took them off, except in front
of a suffix, whose dot is enough. And the rules that a filter holds have that same filter as
their canonical form (`Obtained.canon_contents`), because pruning has nothing left to do.
-/
import Cdns.FilterMerge

set_option autoImplicit false

namespace Cdns.Filter

open Lib.CoverSet Lib.Unordered

/-! ## `filter::write` -/

/-- The loop over the substrings; `line_len` is what stands on the line. -/
def write_substrings (max_len : ℕ) : ℕ → List Str → Str
  | _, [] => []
  | line_len, d :: ds =>
      let line_len := line_len + (d.length + 3)
      let word := '*' :: (d ++ ['*'])
      if line_len > max_len then '\n' :: (word ++ write_substrings max_len (d.length + 2) ds)
      else if d.length + 3 ≠ line_len then ' ' :: (word ++ write_substrings max_len line_len ds)
      else word ++ write_substrings max_len line_len ds

/-- The loops over the other containers. What is printed behind a word is `star`. -/
def write_words (max_len : ℕ) (star : Str) : ℕ → List Str → Str
  | _, [] => []
  | line_len, d :: ds =>
      let word := d ++ star
      let line_len := line_len + (word.length + 1)
      if line_len > max_len then '\n' :: (word ++ write_words max_len star word.length ds)
      else ' ' :: (word ++ write_words max_len star line_len ds)

/-- A comment above a container that is not empty. -/
def heading (title : Str) (ds : List Str) : Str := if ds ≠ [] then title else []

/-- `filter::write`, for any length of the lines. -/
def write_lines (max_len : ℕ) (f : Filter) : Str :=
  heading "\n# filter substring domains\n".toList f.substrings_.elems ++
    (write_substrings max_len 0 f.substrings_.elems ++
  (heading "\n\n# prefix domains\n".toList f.prefix_.elems ++
    (write_words max_len ['*'] 0 f.prefix_.elems ++
  (heading "\n\n# suffix domains\n".toList f.suffix_.elems ++
    (write_words max_len [] 0 f.suffix_.elems ++
  (heading "\n\n# exact hosts\n".toList f.exact_.elems ++
    write_words max_len [] 0 f.exact_.elems))))))

/-- `filter::write`. -/
def write (f : Filter) : Str := f.write_lines 85

/-! ## Words in a text -/

/-- A word of the reader that is not the start of a comment. -/
structure IsWord (w : Str) : Prop where
  ne_nil : w ≠ []
  no_space : ∀ c ∈ w, Str.is_space c = false
  no_comment : w.head? ≠ some '#'

/-- A word that stands before the text ends there. -/
def Breaks (text : Str) : Prop := ∀ c, text.head? = some c → Str.is_space c = true

theorem breaks_nil : Breaks [] := by
  intro c h
  exact absurd h (by simp)

theorem breaks_cons {c : Char} (hc : Str.is_space c = true) (t : Str) : Breaks (c :: t) := by
  intro c' h
  rw [← Option.some.inj h]
  exact hc

theorem rule_words_nil : rule_words [] = [] := rfl

theorem rule_words_space {c : Char} (hc : Str.is_space c = true) (t : Str) :
    rule_words (c :: t) = rule_words t := by
  have hread : Str.read_word (c :: t) = Str.read_word t := by
    rw [Str.read_word, Str.read_word, List.dropWhile_cons_of_pos hc]
  cases hr : Str.read_word t with
  | none =>
      rw [rule_words, rule_words_loop, hread, hr, rule_words, rule_words_loop, hr]
  | some p =>
      obtain ⟨word, rest⟩ := p
      rw [rule_words_of_read (hread.trans hr), rule_words_of_read hr]

theorem rule_words_append {w : Str} (hw : IsWord w) {rest : Str} (hrest : Breaks rest) :
    rule_words (w ++ rest) = w :: rule_words rest := by
  rw [rule_words_of_read (Str.read_word_append hw.ne_nil hw.no_space hrest), if_neg hw.no_comment]

/-! ## The words that `write` prints -/

theorem breaks_write_words (max_len : ℕ) (star : Str) (n : ℕ) (ds : List Str) {rest : Str}
    (hrest : Breaks rest) : Breaks (write_words max_len star n ds ++ rest) := by
  cases ds with
  | nil => exact hrest
  | cons d ds =>
      rw [write_words]
      split_ifs
      · exact breaks_cons (by decide) _
      · exact breaks_cons (by decide) _

/-- **A container is read back word by word**, wherever its lines are wrapped. -/
theorem rule_words_write_words (max_len : ℕ) (star : Str) {ds : List Str}
    (hds : ∀ d ∈ ds, IsWord (d ++ star)) (n : ℕ) {rest : Str} (hrest : Breaks rest) :
    rule_words (write_words max_len star n ds ++ rest) =
      ds.map (fun d => d ++ star) ++ rule_words rest := by
  -- each word is behind a blank, and the text behind it breaks again
  induction ds generalizing n with
  | nil => rfl
  | cons d ds ih =>
      have hd := hds d List.mem_cons_self
      have htail : ∀ m, rule_words ((d ++ star) ++ (write_words max_len star m ds ++ rest)) =
          (d ++ star) :: (ds.map (fun d => d ++ star) ++ rule_words rest) := by
        intro m
        rw [rule_words_append hd (breaks_write_words max_len star m ds hrest),
          ih (fun e he => hds e (List.mem_cons_of_mem d he)) m]
      rw [write_words]
      split_ifs
      · rw [List.cons_append, rule_words_space (by decide), List.append_assoc (d ++ star), htail]
        rfl
      · rw [List.cons_append, rule_words_space (by decide), List.append_assoc (d ++ star), htail]
        rfl

/-- The loop over the substrings prints no blank in front of its first word only. -/
theorem breaks_write_substrings (max_len : ℕ) {n : ℕ} (hn : 0 < n) (ds : List Str) {rest : Str}
    (hrest : Breaks rest) : Breaks (write_substrings max_len n ds ++ rest) := by
  cases ds with
  | nil => exact hrest
  | cons d ds =>
      rw [write_substrings]
      split_ifs with h₁ h₂
      · exact breaks_cons (by decide) _
      · exact breaks_cons (by decide) _
      · exact absurd h₂ (by omega)

theorem rule_words_write_substrings (max_len : ℕ) {ds : List Str}
    (hds : ∀ d ∈ ds, IsWord ('*' :: (d ++ ['*']))) (n : ℕ) {rest : Str} (hrest : Breaks rest) :
    rule_words (write_substrings max_len n ds ++ rest) =
      ds.map (fun d => '*' :: (d ++ ['*'])) ++ rule_words rest := by
  induction ds generalizing n with
  | nil => rfl
  | cons d ds ih =>
      have hd := hds d List.mem_cons_self
      have htail : ∀ m, 0 < m →
          rule_words (('*' :: (d ++ ['*'])) ++ (write_substrings max_len m ds ++ rest)) =
            ('*' :: (d ++ ['*'])) :: (ds.map (fun d => '*' :: (d ++ ['*'])) ++ rule_words rest) := by
        intro m hm
        rw [rule_words_append hd (breaks_write_substrings max_len hm ds hrest),
          ih (fun e he => hds e (List.mem_cons_of_mem d he)) m]
      rw [write_substrings]
      split_ifs
      · rw [List.cons_append, rule_words_space (by decide),
          List.append_assoc ('*' :: (d ++ ['*'])), htail _ (by omega)]
        rfl
      · rw [List.cons_append, rule_words_space (by decide),
          List.append_assoc ('*' :: (d ++ ['*'])), htail _ (by omega)]
        rfl
      · rw [List.append_assoc ('*' :: (d ++ ['*'])), htail _ (by omega)]
        rfl

/-! ## The comments -/

/-- A comment of one line is passed over. -/
theorem rule_words_comment {line : Str} (hline : '\n' ∉ line) (hlen : line.length < 9999999)
    (rest : Str) : rule_words ('#' :: ' ' :: (line ++ '\n' :: rest)) = rule_words rest := by
  have hread : Str.read_word (['#'] ++ ' ' :: (line ++ '\n' :: rest)) =
      some (['#'], ' ' :: (line ++ '\n' :: rest)) := by
    apply Str.read_word_append
    · simp
    · exact List.all_iff_forall_prop.mp (by decide)
    · exact breaks_cons (by decide) _
  rw [← List.singleton_append, rule_words_of_read hread, if_pos List.head?_cons, ← List.cons_append,
    Str.ignore_line]
  · simp [hline]
  · rw [List.length_cons]
    omega

/-- A title is a comment behind white space. -/
theorem rule_words_title {title lead line : Str}
    (htitle : title = lead ++ '#' :: ' ' :: (line ++ ['\n']))
    (hlead : ∀ c ∈ lead, Str.is_space c = true) (hline : '\n' ∉ line)
    (hlen : line.length < 9999999) (rest : Str) : rule_words (title ++ rest) = rule_words rest := by
  rw [htitle]
  clear htitle
  induction lead with
  | nil =>
      rw [List.nil_append, List.cons_append, List.cons_append, List.append_assoc,
        List.singleton_append, rule_words_comment hline hlen]
  | cons c lead ih =>
      rw [List.cons_append, List.cons_append, rule_words_space (hlead c List.mem_cons_self)]
      exact ih fun d hd => hlead d (List.mem_cons_of_mem c hd)

theorem rule_words_heading {title lead line : Str} (ds : List Str)
    (htitle : title = lead ++ '#' :: ' ' :: (line ++ ['\n']))
    (hlead : ∀ c ∈ lead, Str.is_space c = true) (hline : '\n' ∉ line)
    (hlen : line.length < 9999999) (rest : Str) :
    rule_words (heading title ds ++ rest) = rule_words rest := by
  unfold heading
  split_ifs
  · exact rule_words_title htitle hlead hline hlen rest
  · rfl

theorem breaks_heading (title : Str) (h : ∃ t, title = '\n' :: t) (ds : List Str) {rest : Str}
    (hrest : Breaks rest) : Breaks (heading title ds ++ rest) := by
  unfold heading
  split_ifs
  · obtain ⟨t, rfl⟩ := h
    exact breaks_cons (by decide) _
  · exact hrest

/-- The words that are printed for a filter. -/
def printed (f : Filter) : List Str :=
  f.substrings_.elems.map (fun d => '*' :: (d ++ ['*'])) ++
    (f.prefix_.elems.map (fun d => d ++ ['*']) ++
      (f.suffix_.elems.map (fun d => d ++ []) ++ f.exact_.elems.map (fun d => d ++ [])))

/-- **The constructor finds the words that were printed.** -/
theorem rule_words_write_lines (max_len : ℕ) {f : Filter} (h : ∀ w ∈ f.printed, IsWord w) :
    rule_words (f.write_lines max_len) = f.printed := by
  have hsub : ∀ d ∈ f.substrings_.elems, IsWord ('*' :: (d ++ ['*'])) := fun d hd =>
    h _ (List.mem_append_left _ (List.mem_map_of_mem hd))
  have hpre : ∀ d ∈ f.prefix_.elems, IsWord (d ++ ['*']) := fun d hd =>
    h _ (List.mem_append_right _ (List.mem_append_left _ (List.mem_map_of_mem hd)))
  have hsuf : ∀ d ∈ f.suffix_.elems, IsWord (d ++ []) := fun d hd =>
    h _ (List.mem_append_right _ (List.mem_append_right _
      (List.mem_append_left _ (List.mem_map_of_mem hd))))
  have hex : ∀ d ∈ f.exact_.elems, IsWord (d ++ []) := fun d hd =>
    h _ (List.mem_append_right _ (List.mem_append_right _
      (List.mem_append_right _ (List.mem_map_of_mem hd))))
  -- from the end: each part starts with white space
  have hb₄ : Breaks (write_words max_len [] 0 f.exact_.elems ++ []) :=
    breaks_write_words max_len [] 0 _ breaks_nil
  rw [List.append_nil] at hb₄
  have hw₄ := rule_words_write_words max_len [] hex 0 breaks_nil
  rw [List.append_nil, rule_words_nil, List.append_nil] at hw₄
  have hb₃ := breaks_heading "\n\n# exact hosts\n".toList ⟨_, rfl⟩ f.exact_.elems hb₄
  have hb₂ := breaks_heading "\n\n# suffix domains\n".toList ⟨_, rfl⟩ f.suffix_.elems
    (breaks_write_words max_len [] 0 f.suffix_.elems hb₃)
  have hb₁ := breaks_heading "\n\n# prefix domains\n".toList ⟨_, rfl⟩ f.prefix_.elems
    (breaks_write_words max_len ['*'] 0 f.prefix_.elems hb₂)
  have ht₁ := @rule_words_heading _ ['\n'] "filter substring domains".toList f.substrings_.elems
    (by decide : "\n# filter substring domains\n".toList = _)
    (List.all_iff_forall_prop.mp (by decide)) (by decide) (by decide)
  have ht₂ := @rule_words_heading _ ['\n', '\n'] "prefix domains".toList f.prefix_.elems
    (by decide : "\n\n# prefix domains\n".toList = _) (List.all_iff_forall_prop.mp (by decide))
    (by decide) (by decide)
  have ht₃ := @rule_words_heading _ ['\n', '\n'] "suffix domains".toList f.suffix_.elems
    (by decide : "\n\n# suffix domains\n".toList = _) (List.all_iff_forall_prop.mp (by decide))
    (by decide) (by decide)
  have ht₄ := @rule_words_heading _ ['\n', '\n'] "exact hosts".toList f.exact_.elems
    (by decide : "\n\n# exact hosts\n".toList = _) (List.all_iff_forall_prop.mp (by decide))
    (by decide) (by decide)
  rw [write_lines, ht₁, rule_words_write_substrings max_len hsub 0 hb₁, ht₂,
    rule_words_write_words max_len ['*'] hpre 0 hb₂, ht₃,
    rule_words_write_words max_len [] hsuf 0 hb₃, ht₄, hw₄]
  rfl

/-! ## The rules that were printed -/

/-- The word that `write` prints for a rule. -/
def rule_text (r : Rule) : Str :=
  match r.filter_type with
  | .exact => r.body
  | .suffix => r.body
  | .prefix_ => r.body ++ ['*']
  | .substring => '*' :: (r.body ++ ['*'])

/-- What the constructor asserts of a word: an asterisk in front, without one at the end, stands
before a dot. -/
def Asserted (w : Str) : Prop :=
  w.head? = some '*' → w.getLast? ≠ some '*' → (w.drop 1).head? = some '.'

theorem c_str_tolower (s : Str) : Str.c_str (ascii_tolower s) = ascii_tolower (Str.c_str s) := by
  have hnul : (fun c : Char => c != '\x00') ∘ Char.toLower = fun c => c != '\x00' := by
    funext c
    rw [Function.comp_apply, Bool.eq_iff_iff, bne_iff_ne, bne_iff_ne, Ne,
      toLower_eq_iff (by decide)]
  rw [Str.c_str, ascii_tolower, List.takeWhile_map, hnul]
  rfl

/-- A word is classified alike in lower case. -/
theorem classify_tolower (w : Str) : classify (ascii_tolower w) = rule_of w := by
  have hdrop : ∀ s : Str, (ascii_tolower s).drop 1 = ascii_tolower (s.drop 1) := fun s =>
    List.map_drop.symm
  have hlast : ∀ s : Str, (ascii_tolower s).dropLast = ascii_tolower s.dropLast := fun s =>
    List.map_dropLast.symm
  have hif : (if w.head? = some '*' then ascii_tolower (w.drop 1) else ascii_tolower w) =
      ascii_tolower (if w.head? = some '*' then w.drop 1 else w) := by
    split_ifs
    · rfl
    · rfl
  unfold rule_of classify
  have hstar : '*'.toNat < 65 := by decide
  have hdot : '.'.toNat < 65 := by decide
  simp only [head?_tolower hstar, getLast?_tolower hstar, hdrop, hlast, hif, head?_tolower hdot,
    c_str_tolower]
  split_ifs <;> rfl

theorem is_space_toLower (c : Char) : Str.is_space c.toLower = Str.is_space c := by
  have h : ∀ d : Char, d.toNat < 65 → (c.toLower == d) = (c == d) := by
    intro d hd
    rw [Bool.eq_iff_iff, beq_iff_eq, beq_iff_eq, toLower_eq_iff hd]
  simp only [Str.is_space, h ' ' (by decide), h '\t' (by decide), h '\n' (by decide),
    h '\x0b' (by decide), h '\x0c' (by decide), h '\r' (by decide)]

/-- **A word that the constructor takes**: it was read, without NUL characters, it is as the
constructor asserts, and not too long. -/
structure Taken (w : Str) : Prop extends IsWord w where
  no_nul : '\x00' ∉ w
  asserted : Asserted w
  short : w.length ≤ MAX_QNAME_LENGTH

theorem Taken.tolower {w : Str} (h : Taken w) : Taken (ascii_tolower w) where
  ne_nil := fun h' => h.ne_nil (List.map_eq_nil_iff.mp h')
  no_space := by
    intro c hc
    obtain ⟨d, hd, rfl⟩ := List.mem_map.mp hc
    rw [is_space_toLower, h.no_space d hd]
  no_comment := fun h' => h.no_comment ((head?_tolower (by decide)).mp h')
  no_nul := by
    intro hc
    obtain ⟨d, hd, heq⟩ := List.mem_map.mp hc
    rw [toLower_eq_iff (by decide)] at heq
    rw [heq] at hd
    exact h.no_nul hd
  asserted := by
    intro hhead hlast
    rw [head?_tolower (by decide)] at hhead
    rw [Ne, getLast?_tolower (by decide)] at hlast
    have hdrop : (ascii_tolower w).drop 1 = ascii_tolower (w.drop 1) := List.map_drop.symm
    rw [hdrop, head?_tolower (by decide)]
    exact h.asserted hhead hlast
  short := by
    rw [ascii_tolower_length]
    exact h.short

theorem classify_suffix {d : Str} (hnul : '\x00' ∉ d) (hdot : d.head? = some '.')
    (hlast : d.getLast? ≠ some '*') : classify d = ⟨.suffix, d⟩ := by
  have hstar : d.head? ≠ some '*' := by
    rw [hdot]
    decide
  rw [classify, if_neg (fun h => hlast h.2), if_neg hlast, if_neg hstar, if_pos hdot,
    Str.c_str_of_no_nul hnul]

/-- **A word is printed as it was read**, except that a suffix loses the asterisk in front of
it. -/
theorem rule_text_classify {w : Str} (h : Taken w) (hbody : (classify w).body ≠ []) :
    rule_text (classify w) = w ∨
      ∃ d, w = '*' :: d ∧ d.head? = some '.' ∧ d.getLast? ≠ some '*' := by
  have hsub : ∀ {s : Str}, s <:+: w → Str.c_str s = s := fun hs =>
    Str.c_str_of_no_nul fun hc => h.no_nul (hs.subset hc)
  have hback : w.getLast? = some '*' → w.dropLast ++ ['*'] = w := fun hlast =>
    List.dropLast_append_getLast? '*' hlast
  have hdrop : w.dropLast.drop 1 <:+: w :=
    (List.drop_suffix 1 _).isInfix.trans (List.dropLast_prefix w).isInfix
  unfold classify at hbody ⊢
  split_ifs at hbody ⊢ with h₁ h₂ h₃
  · -- two asterisks with something between them
    left
    show '*' :: (Str.c_str (w.dropLast.drop 1) ++ ['*']) = w
    dsimp only at hbody
    rw [hsub hdrop] at hbody ⊢
    have hw := hback h₁.2
    cases hl : w.dropLast with
    | nil =>
        rw [hl] at hbody
        exact absurd rfl hbody
    | cons c t =>
        rw [hl] at hw
        have hc : c = '*' := by
          have hhead := h₁.1
          rw [← hw] at hhead
          exact Option.some.inj hhead
        rw [← hw, hc]
        rfl
  · left
    show Str.c_str w.dropLast ++ ['*'] = w
    rw [hsub (List.dropLast_prefix w).isInfix]
    exact hback h₂
  · -- by the assertion this is a suffix
    right
    have hne := h.ne_nil
    cases w with
    | nil => exact absurd rfl hne
    | cons c d =>
        rw [Option.some.inj h₃]
        refine ⟨d, rfl, h.asserted h₃ h₂, fun hlast => h₂ ?_⟩
        rw [List.getLast?_cons, hlast]
        rfl
  · left
    dsimp only
    split_ifs
    · exact hsub List.infix_rfl
    · exact hsub List.infix_rfl

/-- **What is printed for a rule is read back as that rule.** -/
theorem rule_text_spec {w : Str} (h : Taken w) (hbody : (rule_of w).body ≠ []) :
    IsWord (rule_text (rule_of w)) ∧ (rule_text (rule_of w)).length ≤ MAX_QNAME_LENGTH ∧
      rule_of (rule_text (rule_of w)) = rule_of w := by
  have hlow := h.tolower
  have hidem : ascii_tolower (ascii_tolower w) = ascii_tolower w := ascii_tolower_idem w
  rw [← classify_tolower] at hbody ⊢
  generalize ascii_tolower w = v at hlow hidem hbody
  rcases rule_text_classify hlow hbody with heq | ⟨d, rfl, hdot, hlast⟩
  · rw [heq]
    refine ⟨hlow.toIsWord, hlow.short, ?_⟩
    rw [← classify_tolower, hidem]
  · have hnul : '\x00' ∉ d := fun hc => hlow.no_nul (List.mem_cons_of_mem _ hc)
    have hne : d ≠ [] := by
      rintro rfl
      exact absurd hdot (by simp)
    have hd : ascii_tolower d = d := (List.cons.inj hidem).2
    have hclass : classify ('*' :: d) = ⟨.suffix, d⟩ := by
      rw [classify, if_neg, if_neg, if_pos List.head?_cons]
      · rw [List.drop_one, List.tail_cons, if_pos hdot, Str.c_str_of_no_nul hnul]
      · rw [List.getLast?_cons_of_ne_nil hne]
        exact hlast
      · rw [List.getLast?_cons_of_ne_nil hne]
        exact fun h' => hlast h'.2
    rw [hclass]
    show IsWord d ∧ d.length ≤ MAX_QNAME_LENGTH ∧ rule_of d = _
    refine ⟨⟨hne, fun c hc => hlow.no_space c (List.mem_cons_of_mem _ hc), ?_⟩, ?_, ?_⟩
    · rw [hdot]
      decide
    · exact le_trans (Nat.le_succ _) hlow.short
    · rw [← classify_tolower, hd]
      exact classify_suffix hnul hdot hlast

/-! ## The rules that a filter holds -/

/-- The container of a kind. -/
def holds (f : Filter) : filters → Set Str
  | .exact => {x | x ∈ f.exact_}
  | .prefix_ => {x | x ∈ f.prefix_}
  | .suffix => {x | x ∈ f.suffix_}
  | .substring => {x | x ∈ f.substrings_}

/-- The rules that are left after pruning. -/
def contents (f : Filter) : Set Rule := {r | r.body ∈ f.holds r.filter_type}

theorem bodies_contents (f : Filter) (k : filters) : bodies f.contents k = f.holds k := rfl

theorem mem_printed {f : Filter} {w : Str} : w ∈ f.printed ↔ ∃ r ∈ f.contents, w = rule_text r := by
  simp only [printed, List.mem_append, List.mem_map, List.append_nil]
  constructor
  · rintro (⟨d, hd, rfl⟩ | ⟨d, hd, rfl⟩ | ⟨d, hd, rfl⟩ | ⟨d, hd, rfl⟩)
    · exact ⟨⟨.substring, d⟩, hd, rfl⟩
    · exact ⟨⟨.prefix_, d⟩, hd, rfl⟩
    · exact ⟨⟨.suffix, d⟩, hd, rfl⟩
    · exact ⟨⟨.exact, d⟩, hd, rfl⟩
  · rintro ⟨⟨k, d⟩, hd, rfl⟩
    cases k with
    | exact => exact Or.inr (Or.inr (Or.inr ⟨d, hd, rfl⟩))
    | prefix_ => exact Or.inr (Or.inl ⟨d, hd, rfl⟩)
    | suffix => exact Or.inr (Or.inr (Or.inl ⟨d, hd, rfl⟩))
    | substring => exact Or.inl ⟨d, hd, rfl⟩

/-- A filter holds rules that it was made from. -/
theorem Canon.contents_subset {f : Filter} {R : Set Rule} (h : Canon f R) : f.contents ⊆ R := by
  rintro ⟨k, x⟩ hx
  cases k with
  | exact => exact ((h.exact x).mp hx).1
  | prefix_ => exact ((h.prefixes x).mp hx).1.1
  | suffix => exact ((h.suffix x).mp hx).1.1
  | substring => exact ((h.substrings x).mp hx).1

theorem Same.contents_eq {f g : Filter} (h : Same f g) : f.contents = g.contents := by
  ext ⟨k, x⟩
  cases k with
  | exact => exact h.exact x
  | prefix_ =>
      show x ∈ f.prefix_ ↔ x ∈ g.prefix_
      rw [h.prefixes]
  | suffix =>
      show x ∈ f.suffix_ ↔ x ∈ g.suffix_
      rw [h.suffix]
  | substring => exact h.substrings x

theorem Obtained.optimize_eq {f : Filter} {ws : List Str} (h : Obtained f ws) : f.optimize = f := by
  cases h with
  | read H text hf =>
      obtain ⟨g, -, hg⟩ := Result.bind_eq_ok.mp hf
      rw [← Except.ok.inj hg]
      exact optimize_optimize g
  | merge H _ _ => exact optimize_optimize _

/-- **A filter is the canonical form of the rules it holds.** -/
theorem Obtained.canon_contents {f : Filter} {ws : List Str} (h : Obtained f ws) :
    Canon f f.contents := by
  have hcanon := h.canon
  have hwell : WellFormed f.contents := fun r hr =>
    rules_wellFormed ws r (hcanon.contents_subset hr)
  have hsub : f.holds .substring = leastOf infixCovers (bodies (rules ws) .substring) :=
    Set.ext hcanon.substrings
  have hloaded : Loaded f f.contents := by
    refine ⟨fun x => ?_, WordSet.mem_iff_leastOf_self, WordSet.mem_iff_leastOf_self,
      fun _ => Iff.rfl⟩
    rw [bodies_contents, hsub, leastOf_idem infix_covering]
    exact hcanon.substrings x
  -- nothing is pruned: `optimize` was the last thing that was done
  have hopt := optimize_canon hwell hloaded.raw
  rw [h.optimize_eq] at hopt
  exact hopt

/-- The words of a text are words. -/
theorem mem_rule_words {text w : Str} (h : w ∈ rule_words text) : IsWord w := by
  unfold rule_words at h
  generalize text.length + 1 = n at h
  induction n generalizing text with
  | zero => exact absurd h (by simp [rule_words_loop])
  | succ n ih =>
      rw [rule_words_loop] at h
      split at h
      · exact absurd h (by simp)
      · next word rest hread =>
        split_ifs at h with hcomment
        · exact ih h
        · rcases List.mem_cons.mp h with rfl | h
          · obtain ⟨hne, hspace⟩ := Str.read_word_spec hread
            exact ⟨hne, hspace, hcomment⟩
          · exact ih h

theorem Obtained.words {f : Filter} {ws : List Str} (h : Obtained f ws) {w : Str} (hw : w ∈ ws) :
    IsWord w ∧ w.length ≤ MAX_QNAME_LENGTH := by
  induction h with
  | read H text hf => exact ⟨mem_rule_words hw, length_le_of_of_stream hf w hw⟩
  | merge H _ _ ihf ihg =>
      rcases List.mem_append.mp hw with hw | hw
      · exact ihf hw
      · exact ihg hw

/-- **What is written is read back.** Take a filter made by reading lists and merging them, whose
rules are free of NUL characters and as the constructor asserts. Whatever order its hash sets are
iterated in (`f'`) and wherever the lines are wrapped, the constructor reads the text back and
holds the same four sets. -/
theorem of_stream_write {f : Filter} {ws : List Str} (hf : Obtained f ws)
    (hnul : ∀ w ∈ ws, '\x00' ∉ w) (hassert : ∀ w ∈ ws, Asserted w) {f' : Filter}
    (hsame : Same f f') (H : Placement Str) :
    (∃ g, of_stream H f'.write = .ok g ∧ Same f g) ∧
      ∀ max_len, ∃ g, of_stream H (f'.write_lines max_len) = .ok g ∧ Same f g := by
  -- every rule that is printed comes from a word that was read
  have hrule : ∀ r ∈ f'.contents, r.body ≠ [] ∧ IsWord (rule_text r) ∧
      (rule_text r).length ≤ MAX_QNAME_LENGTH ∧ rule_of (rule_text r) = r := by
    intro r hr
    rw [← hsame.contents_eq] at hr
    obtain ⟨w, hw, rfl, hbody⟩ := hf.canon.contents_subset hr
    obtain ⟨hword, hshort⟩ := hf.words hw
    exact ⟨hbody, rule_text_spec ⟨hword, hnul w hw, hassert w hw, hshort⟩ hbody⟩
  have hwords : ∀ w ∈ f'.printed, IsWord w ∧ w.length ≤ MAX_QNAME_LENGTH := by
    intro w hw
    obtain ⟨r, hr, rfl⟩ := mem_printed.mp hw
    exact ⟨(hrule r hr).2.1, (hrule r hr).2.2.1⟩
  have hrules : rules f'.printed = f.contents := by
    rw [hsame.contents_eq]
    ext r
    constructor
    · rintro ⟨w, hw, rfl, -⟩
      obtain ⟨r, hr, rfl⟩ := mem_printed.mp hw
      rw [(hrule r hr).2.2.2]
      exact hr
    · intro hr
      exact ⟨rule_text r, mem_printed.mpr ⟨r, hr, rfl⟩, (hrule r hr).2.2.2.symm, (hrule r hr).1⟩
  have hread : ∀ max_len, ∃ g, of_stream H (f'.write_lines max_len) = .ok g ∧ Same f g := by
    intro max_len
    have htext := rule_words_write_lines max_len fun w hw => (hwords w hw).1
    have hlen : ∀ w ∈ rule_words (f'.write_lines max_len), w.length ≤ MAX_QNAME_LENGTH := by
      rw [htext]
      exact fun w hw => (hwords w hw).2
    obtain ⟨g, hg, hcanon⟩ := of_stream_canon H hlen
    rw [htext, hrules] at hcanon
    exact ⟨g, hg, hf.canon_contents.same hcanon⟩
  exact ⟨hread 85, hread⟩

/-- A list of all four kinds, with a rule that is pruned and a suffix that loses its asterisk. -/
theorem of_stream_write_list :
    ∃ f, of_stream (.front Str) "*.Ads.net mail.org ads.* *track* a.tracker.org".toList = .ok f ∧
      ∃ g, of_stream (.front Str) f.write = .ok g ∧ Same f g := by
  have hlen : ∀ w ∈ rule_words "*.Ads.net mail.org ads.* *track* a.tracker.org".toList,
      w.length ≤ MAX_QNAME_LENGTH := by decide
  obtain ⟨f, hf, -⟩ := of_stream_canon (.front Str) hlen
  have hsame : Same f f := ⟨rfl, rfl, fun _ => Iff.rfl, fun _ => Iff.rfl⟩
  have hassert : ∀ w ∈ rule_words "*.Ads.net mail.org ads.* *track* a.tracker.org".toList,
      Asserted w := by
    unfold Asserted
    decide
  exact ⟨f, hf, (of_stream_write (.read _ _ hf) (by decide) hassert hsame (.front Str)).1⟩

/-- A word that the assertion excludes is not read back: `**a` is taken for the name `*a`, which
is printed as it is and taken for the name `a`. -/
example : classify "**a".toList = ⟨.exact, "*a".toList⟩ ∧
    classify (rule_text ⟨.exact, "*a".toList⟩) = ⟨.exact, "a".toList⟩ := by
  decide

end Cdns.Filter
