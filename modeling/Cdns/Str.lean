/-
Text: `std::string`, the stream operations the configuration readers use, and
`sys/srcz/str.cpp`.

A string is the list of its characters. The readers run in the classic locale,
whose case mapping and white space are those of ASCII, so `Char.toLower` and
`is_space` below are `std::tolower` and `std::isspace` there.
-/
import Mathlib.Data.Bool.AllAny
import Mathlib.Data.Char
import Mathlib.Data.List.Lex
import Mathlib.Data.List.TakeWhile
import Mathlib.Tactic

set_option autoImplicit false

namespace Cdns

/-- `std::string`. -/
abbrev Str := List Char

namespace Str

/-- `std::string::npos != str.find (s)`. -/
def contains (str s : Str) : Bool := str.tails.any fun t => s.isPrefixOf t

theorem contains_iff {str s : Str} : contains str s = true ↔ s <:+: str := by
  rw [contains, List.any_eq_true, List.infix_iff_prefix_suffix]
  simp only [List.mem_tails, List.isPrefixOf_iff_prefix]
  exact exists_congr fun t => And.comm

/-- The characters a pointer into the string shows before the terminating NUL. -/
def c_str (s : Str) : Str := s.takeWhile fun c => c != '\x00'

/-- A character that is not in the text stops no scan for it. -/
theorem bne_of_not_mem {c : Char} {s : Str} (h : c ∉ s) : ∀ d ∈ s, (d != c) = true := by
  intro d hd
  rw [bne_iff_ne]
  rintro rfl
  exact h hd

theorem c_str_of_no_nul {s : Str} (h : '\x00' ∉ s) : c_str s = s :=
  List.takeWhile_eq_self_iff.mpr (bne_of_not_mem h)

/-! ## Streams -/

/-- `std::isspace` in the classic locale. -/
def is_space (c : Char) : Bool :=
  c == ' ' || c == '\t' || c == '\n' || c == '\x0b' || c == '\x0c' || c == '\r'

/-- `stream >> word`: the next word and what follows it, unless only white space
is left. -/
def read_word (text : Str) : Option (Str × Str) :=
  match text.dropWhile is_space with
  | [] => none
  | c :: cs => some ((c :: cs).takeWhile (fun c => !is_space c),
      (c :: cs).dropWhile (fun c => !is_space c))

/-- `stream.ignore (n, delim)`. -/
def ignore : ℕ → Char → Str → Str
  | 0, _, text => text
  | _ + 1, _, [] => []
  | n + 1, delim, c :: cs => if c = delim then cs else ignore n delim cs

theorem ignore_length_le (n : ℕ) (delim : Char) (text : Str) :
    (ignore n delim text).length ≤ text.length := by
  induction n generalizing text with
  | zero => exact le_refl _
  | succ n ih =>
      cases text with
      | nil => exact le_refl _
      | cons c cs =>
          rw [ignore]
          split_ifs
          · simp
          · exact le_trans (ih cs) (by simp)

/-- What `read_word` finds: the first character behind the white space starts the word. -/
theorem read_word_cases {text word rest : Str} (h : read_word text = some (word, rest)) :
    ∃ c cs, text.dropWhile is_space = c :: cs ∧ is_space c = false ∧
      word = c :: cs.takeWhile (fun c => !is_space c) ∧
      rest = cs.dropWhile (fun c => !is_space c) := by
  unfold read_word at h
  split at h
  · exact absurd h (by simp)
  · next c cs heq =>
    have hc : is_space c = false := by
      have hfirst := List.dropWhile_get_zero_not is_space text (by rw [heq]; simp)
      simpa [heq] using hfirst
    obtain ⟨hword, hrest⟩ := Prod.mk.inj (Option.some.inj h)
    rw [List.takeWhile_cons_of_pos (by simpa using hc)] at hword
    rw [List.dropWhile_cons_of_pos (by simpa using hc)] at hrest
    exact ⟨c, cs, heq, hc, hword.symm, hrest.symm⟩

/-- A word that was read has left the stream. -/
theorem read_word_length_lt {text word rest : Str} (h : read_word text = some (word, rest)) :
    rest.length < text.length := by
  obtain ⟨c, cs, heq, -, -, rfl⟩ := read_word_cases h
  have hsub := List.length_dropWhile_le is_space text
  rw [heq, List.length_cons] at hsub
  have := List.length_dropWhile_le (fun c => !is_space c) cs
  omega

/-- A word that was read is not empty and has no white space. -/
theorem read_word_spec {text word rest : Str} (h : read_word text = some (word, rest)) :
    word ≠ [] ∧ ∀ c ∈ word, is_space c = false := by
  obtain ⟨c, cs, -, hc, rfl, -⟩ := read_word_cases h
  refine ⟨by simp, fun d hd => ?_⟩
  rcases List.mem_cons.mp hd with rfl | hd
  · exact hc
  · simpa using List.mem_takeWhile_imp hd

/-- A word that stands in front is read. -/
theorem read_word_append {w : Str} (hne : w ≠ []) (hw : ∀ c ∈ w, is_space c = false)
    {rest : Str} (hrest : ∀ c, rest.head? = some c → is_space c = true) :
    read_word (w ++ rest) = some (w, rest) := by
  obtain ⟨c, w, rfl⟩ := List.exists_cons_of_ne_nil hne
  have hc : is_space c = false := hw c List.mem_cons_self
  have hall : ∀ d ∈ c :: w, (!is_space d) = true := by
    intro d hd
    rw [hw d hd]
    rfl
  have htake : rest.takeWhile (fun c => !is_space c) = [] := by
    cases rest with
    | nil => rfl
    | cons d t => rw [List.takeWhile_cons_of_neg (by simp [hrest d rfl])]
  have hdrop : rest.dropWhile (fun c => !is_space c) = rest := by
    cases rest with
    | nil => rfl
    | cons d t => rw [List.dropWhile_cons_of_neg (by simp [hrest d rfl])]
  rw [read_word, List.cons_append, List.dropWhile_cons_of_neg (by simp [hc])]
  dsimp only
  rw [← List.cons_append, List.takeWhile_append_of_pos hall, List.dropWhile_append_of_pos hall,
    htake, hdrop, List.append_nil]

/-- White space in front of it is passed over. -/
theorem read_word_space {ws : Str} (hws : ∀ c ∈ ws, is_space c = true) (text : Str) :
    read_word (ws ++ text) = read_word text := by
  unfold read_word
  rw [List.dropWhile_append_of_pos hws]

/-- **A word that was read** stands behind white space and in front of white space, or of
nothing. -/
theorem read_word_eq {text word rest : Str} (h : read_word text = some (word, rest)) :
    ∃ ws, text = ws ++ (word ++ rest) ∧ (∀ c ∈ ws, is_space c = true) ∧
      ∀ c, rest.head? = some c → is_space c = true := by
  obtain ⟨c, cs, heq, hc, rfl, rfl⟩ := read_word_cases h
  refine ⟨text.takeWhile is_space, ?_, fun d hd => List.mem_takeWhile_imp hd, ?_⟩
  · rw [List.cons_append, List.takeWhile_append_dropWhile, ← heq, List.takeWhile_append_dropWhile]
  · intro d hd
    have hfirst := List.head?_dropWhile_not (fun c => !is_space c) cs
    rw [hd] at hfirst
    simpa using hfirst

/-- What follows a word that is complete is not looked at. -/
theorem read_word_append_right {text word rest : Str} (h : read_word text = some (word, rest))
    (hne : rest ≠ []) (t : Str) : read_word (text ++ t) = some (word, rest ++ t) := by
  obtain ⟨hword, hw⟩ := read_word_spec h
  obtain ⟨ws, htext, hws, hrest⟩ := read_word_eq h
  rw [htext, List.append_assoc, List.append_assoc, read_word_space hws]
  refine read_word_append hword hw fun c hc => hrest c ?_
  rwa [List.head?_append_of_ne_nil _ hne] at hc

/-- Without a word there is only white space. -/
theorem read_word_eq_none {text : Str} (h : read_word text = none) :
    ∀ c ∈ text, is_space c = true := by
  unfold read_word at h
  split at h
  · next heq => exact List.dropWhile_eq_nil_iff.mp heq
  · exact absurd h (by simp)

/-- `ignore` goes on to the end of a line. -/
theorem ignore_append {line : Str} (hline : '\n' ∉ line) (n : ℕ) (rest : Str) :
    ignore (line.length + n) '\n' (line ++ rest) = ignore n '\n' rest := by
  induction line with
  | nil => rw [List.length_nil, Nat.zero_add, List.nil_append]
  | cons c line ih =>
      rw [List.mem_cons, not_or] at hline
      rw [List.length_cons, Nat.add_right_comm, List.cons_append, ignore, if_neg (Ne.symm hline.1),
        ih hline.2]

/-- It takes the end of the line, too. -/
theorem ignore_line {line : Str} (hline : '\n' ∉ line) {n : ℕ} (hn : line.length < n) (rest : Str) :
    ignore n '\n' (line ++ '\n' :: rest) = rest := by
  obtain ⟨k, rfl⟩ := Nat.exists_eq_add_of_lt hn
  rw [Nat.add_assoc, ignore_append hline, ignore, if_pos rfl]

/-- In the last line nothing is left. -/
theorem ignore_last {line : Str} (hline : '\n' ∉ line) {n : ℕ} (hn : line.length ≤ n) :
    ignore n '\n' line = [] := by
  obtain ⟨k, rfl⟩ := Nat.exists_eq_add_of_le hn
  have h := ignore_append hline k []
  rw [List.append_nil] at h
  rw [h]
  cases k <;> rfl

end Str

/-- `sys::ascii_tolower`, and `sys::ascii_tolower_copy`. -/
def ascii_tolower (s : Str) : Str := s.map Char.toLower

/-- `toLower` moves a capital letter by 32 and nothing else. -/
theorem toLower_cases (c : Char) :
    c.toLower = c ∨ (65 ≤ c.toNat ∧ c.toNat ≤ 90 ∧ c.toLower.toNat = c.toNat + 32) := by
  by_cases hc : c.val ≥ 'A'.val ∧ c.val ≤ 'Z'.val
  · right
    have h₁ : 65 ≤ c.toNat := UInt32.le_iff_toNat_le.mp hc.1
    have h₂ : c.toNat ≤ 90 := UInt32.le_iff_toNat_le.mp hc.2
    refine ⟨h₁, h₂, ?_⟩
    have hval : c.toLower.val = c.val + 32 := congrArg Char.val (dif_pos hc)
    have hnat : c.toLower.toNat = (c.val + 32).toNat := congrArg UInt32.toNat hval
    have hlt : c.val.toNat + (32 : UInt32).toNat < 2 ^ 32 := by
      have h32 : (32 : UInt32).toNat = 32 := rfl
      have : c.val.toNat = c.toNat := rfl
      omega
    rw [hnat, UInt32.toNat_add, Nat.mod_eq_of_lt hlt]
    rfl
  · left
    exact dif_neg hc

/-- Nothing turns into a character before the letters, such as the dot that separates
labels. -/
theorem toLower_eq_iff {d : Char} (hd : d.toNat < 65) (c : Char) : c.toLower = d ↔ c = d := by
  constructor
  · intro h
    rcases toLower_cases c with hc | ⟨h₁, -, hc⟩
    · rw [← hc, h]
    · rw [h] at hc
      omega
  · rintro rfl
    rcases toLower_cases c with hc | ⟨h₁, -, -⟩
    · exact hc
    · omega

@[simp] theorem ascii_tolower_length (s : Str) : (ascii_tolower s).length = s.length :=
  List.length_map _

theorem ascii_tolower_append (s t : Str) :
    ascii_tolower (s ++ t) = ascii_tolower s ++ ascii_tolower t :=
  List.map_append

@[simp] theorem ascii_tolower_idem (s : Str) :
    ascii_tolower (ascii_tolower s) = ascii_tolower s := by
  rw [ascii_tolower, ascii_tolower, List.map_map]
  apply List.map_congr_left
  intro c _
  -- what a capital letter turns into is not a capital letter
  show c.toLower.toLower = c.toLower
  rcases toLower_cases c.toLower with h | ⟨h₁, h₂, -⟩
  · exact h
  · rcases toLower_cases c with hc | ⟨h₃, -, hc⟩
    · rw [hc]
      exact hc
    · omega

end Cdns
