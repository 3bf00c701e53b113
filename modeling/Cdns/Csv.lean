/-
Lines of columns: `csv::parse_line` (`dns/crypt/srcz/csv.cpp`) on a stream and a vector.

The vector that `parse_line` fills is the one of the caller, with the words of another line
in it, and the current word is the one at `i`, an element that may have been there before.
Nothing of it shows: what is read depends on the line alone, and of the vector only the
size goes into the texts of two errors (`parse_line_eq`). So a file may be taken for the list
of its lines (`splitOn_eq_line_cons`).

Columns that are joined with commas are read back (`parse_line_fields`), if those with a
comma are in quotes. The other way round it is not so: a line that is read need not be a
list of columns. The text behind a closing quote is looked at when a comma comes, and when
the line ends before that it is gone. What the parser should refuse and does not are the
lines with anything but a comma behind a closing quote (`columns_iff_closed`).
-/
import Cdns.Lib.Split
import Cdns.ResolverList

set_option autoImplicit false

namespace Cdns

open Lib.Split

namespace csv

/-! ## The vector and the stream -/

/-- `std::istream`: what is left of its text, and whether the last read succeeded. -/
structure istream where
  text : Str
  good : Bool

/-- What `parse_line` has in the middle of a line. `word_ptr` is the word at `i`. -/
structure vector where
  words : List Str
  i : ℕ
  quote_flag : Bool
  closing_quote_flag : Bool
  lt : i < words.length

namespace vector

/-- `*word_ptr`. -/
def word (v : vector) : Str := v.words.get ⟨v.i, v.lt⟩

/-- `csv::cur_word`: the vector with an empty word at `i`. -/
def cur_word (words : List Str) (i : ℕ) : List Str :=
  (if words.length ≤ i then words ++ [[]] else words).set i []

theorem cur_word_lt {words : List Str} {i : ℕ} (h : i ≤ words.length) :
    i < (cur_word words i).length := by
  unfold cur_word
  rw [List.length_set]
  split_ifs with hi
  · rw [List.length_append, List.length_singleton]
    omega
  · omega

/-- `++i` and `cur_word`. -/
def next (v : vector) : vector :=
  { v with words := cur_word v.words (v.i + 1), i := v.i + 1, lt := cur_word_lt v.lt }

/-- `word_ptr->push_back (ch)`. -/
def push_back (v : vector) (ch : Char) : vector :=
  { v with words := v.words.set v.i (v.word ++ [ch])
           lt := by rw [List.length_set]; exact v.lt }

/-- One character of a line. -/
def parse_char (v : vector) (ch : Char) : Result vector :=
  if (separator ≠ ch ∧ quote ≠ ch ∧ '\r' ≠ ch) ∨ (separator = ch ∧ v.quote_flag = true) then
    if 32000 < v.word.length then .error (.runtime_error "Too long word in column")
    else .ok (v.push_back ch)
  else if quote = ch then
    if v.quote_flag then
      .ok { v.next with quote_flag := false, closing_quote_flag := true }
    else if v.word ≠ [] then
      .error (.runtime_error ("CSV column: " ++ toString v.words.length
        ++ " has qutation mark after (" ++ toString v.word.length ++ "): "
        ++ String.ofList v.word))
    else .ok { v with quote_flag := true }
  else if separator = ch then
    if v.closing_quote_flag = false then .ok v.next
    else if v.word ≠ [] then
      .error (.runtime_error ("CSV column: " ++ toString v.i
        ++ ", has text after closing quote (" ++ toString v.word.length ++ "): "
        ++ String.ofList v.word))
    else .ok { v with closing_quote_flag := false }
  else .ok v

/-- The loop of `parse_line`: it takes the line feed with the line, or fails to read. -/
def parse_chars : Str → vector → Result (vector × istream)
  | [], v => .ok (v, ⟨[], false⟩)
  | ch :: text, v =>
      if '\n' = ch then .ok (v, ⟨text, true⟩)
      else do
        let v ← v.parse_char ch
        parse_chars text v

/-- Behind the loop: the vector is cut to the words of the line. -/
def finish (v : vector) : Result (List Str) :=
  if v.quote_flag then
    .error (.runtime_error ("Unclosed quote in CSV column: " ++ toString v.words.length
      ++ ", at word(" ++ toString v.word.length ++ ") " ++ String.ofList v.word))
  else
    let i := if v.closing_quote_flag = false ∧
        (0 < v.i ∨ v.words.get ⟨0, Nat.zero_lt_of_lt v.lt⟩ ≠ []) then v.i + 1 else v.i
    .ok (if i < v.words.length then v.words.take i else v.words)

/-- The vector at the start of a line. -/
def start (words : List Str) : vector :=
  ⟨cur_word words 0, 0, false, false, cur_word_lt (Nat.zero_le _)⟩

/-- `csv::parse_line (text_stream, words)`: the vector and the stream behind it. -/
def parse_line (text_stream : istream) (words : List Str) : Result (List Str × istream) := do
  let (v, text_stream) ← if text_stream.good then parse_chars text_stream.text (start words)
    else .ok (start words, text_stream)
  let words ← finish v
  .ok (words, text_stream)

/-! ## What the vector stands for -/

/-- The words that are finished, the current one, and the size. -/
def abs (v : vector) : state :=
  ⟨v.words.take v.i, v.word, v.words.length, v.quote_flag, v.closing_quote_flag⟩

theorem abs_words_length (v : vector) : v.abs.words.length = v.i :=
  List.length_take_of_le (Nat.le_of_lt v.lt)

theorem take_succ (v : vector) : v.words.take (v.i + 1) = v.words.take v.i ++ [v.word] :=
  (List.take_append_getElem v.lt).symm

theorem abs_next (v : vector) : v.next.abs = csv.cur_word v.abs := by
  have hlt := v.lt
  have hword : v.next.word = [] := by
    unfold word next cur_word
    simp
  have hwords : v.next.words.take v.next.i = v.words.take v.i ++ [v.word] := by
    rw [← take_succ]
    unfold next cur_word
    dsimp only
    rw [List.take_set_of_le (le_refl _)]
    split_ifs with hi
    · exact List.take_append_of_le_length hlt
    · rfl
  have hsize : v.next.words.length = max v.words.length (v.i + 2) := by
    unfold next cur_word
    dsimp only
    rw [List.length_set]
    split_ifs with hi
    · rw [List.length_append, List.length_singleton]
      omega
    · omega
  unfold csv.cur_word
  rw [abs_words_length]
  unfold abs
  rw [hword, hwords, hsize]
  rfl

theorem abs_push_back (v : vector) (ch : Char) :
    (v.push_back ch).abs = { v.abs with word := v.abs.word ++ [ch] } := by
  have hword : (v.push_back ch).word = v.word ++ [ch] := by
    unfold word push_back
    simp [word]
  have hwords : (v.push_back ch).words.take (v.push_back ch).i = v.words.take v.i := by
    unfold push_back
    exact List.take_set_of_le (le_refl _)
  have hsize : (v.push_back ch).words.length = v.words.length := List.length_set
  unfold abs
  rw [hword, hwords, hsize]
  rfl

/-- **One character** does to the vector what it does to the words of the line. -/
theorem abs_parse_char (v : vector) (ch : Char) :
    csv.parse_char v.abs ch = (v.parse_char ch).map abs := by
  unfold csv.parse_char parse_char
  rw [abs_words_length]
  have hq : v.abs.quote_flag = v.quote_flag := rfl
  have hc : v.abs.closing_quote_flag = v.closing_quote_flag := rfl
  have hw : v.abs.word = v.word := rfl
  rw [hq, hc, hw]
  split_ifs with h₁ h₂ h₃ h₄ h₅ h₆ h₇ h₈
  · rfl
  · exact congrArg Except.ok (abs_push_back v ch).symm
  · show _ = Except.ok _
    refine congrArg Except.ok ?_
    have h := abs_next v
    unfold csv.cur_word at h ⊢
    rw [show ({ v.next with quote_flag := false, closing_quote_flag := true } : vector).abs
      = { v.next.abs with quote_flag := false, closing_quote_flag := true } from rfl, h]
    rfl
  · rfl
  · rfl
  · exact congrArg Except.ok (abs_next v).symm
  · rfl
  · rfl
  · rfl

/-- And so does the end of the line. -/
theorem abs_finish (v : vector) : csv.finish v.abs = v.finish := by
  have hlt := v.lt
  -- the first word is the current one as long as no other is finished
  have hfirst : (0 < v.i ∨ v.words.get ⟨0, Nat.zero_lt_of_lt hlt⟩ ≠ []) ↔
      (0 < v.i ∨ v.word ≠ []) := by
    by_cases hi : 0 < v.i
    · exact ⟨fun _ => Or.inl hi, fun _ => Or.inl hi⟩
    · have hget : v.word = v.words.get ⟨0, Nat.zero_lt_of_lt hlt⟩ := by
        unfold word
        congr
        omega
      rw [hget]
  unfold csv.finish finish
  rw [abs_words_length]
  simp only [hfirst]
  have hc : v.abs.closing_quote_flag = v.closing_quote_flag := rfl
  have hw : v.abs.word = v.word := rfl
  have hq : v.abs.quote_flag = v.quote_flag := rfl
  rw [hc, hw, hq]
  split_ifs with h₁ h₂ h₃
  · rfl
  · exact congrArg Except.ok (take_succ v).symm
  · exact congrArg Except.ok ((take_succ v).symm.trans (List.take_of_length_le (by omega)))
  · rfl

end vector

/-- The line at the start of a text, without its line feed. -/
def line (text : Str) : Str := text.takeWhile fun ch => ch != '\n'

/-- The stream behind the line. -/
def behind (text : Str) : istream :=
  match text.dropWhile fun ch => ch != '\n' with
  | [] => ⟨[], false⟩
  | _ :: rest => ⟨rest, true⟩

/-- The loop reads one line. -/
theorem vector.parse_chars_eq {α : Type} (f : state → istream → Result α) (text : Str)
    (v : vector) :
    (do let r ← vector.parse_chars text v; f r.1.abs r.2)
      = (do let s ← csv.parse_chars (line text) v.abs; f s (behind text)) := by
  induction text generalizing v with
  | nil => rfl
  | cons ch text ih =>
      by_cases hch : '\n' = ch
      · subst hch
        rfl
      · have hne : (ch != '\n') = true := bne_iff_ne.mpr (fun heq => hch heq.symm)
        have hline : line (ch :: text) = ch :: line text :=
          List.takeWhile_cons_of_pos hne
        have hbehind : behind (ch :: text) = behind text := by
          unfold behind
          rw [List.dropWhile_cons, if_pos hne]
        rw [hline, hbehind, vector.parse_chars, if_neg hch, csv.parse_chars, abs_parse_char]
        cases v.parse_char ch with
        | error e => rfl
        | ok v' => exact ih v'

theorem vector.abs_start (words : List Str) :
    (vector.start words).abs = state.start words.length := by
  have hword : (vector.start words).word = [] := by
    unfold vector.word vector.start vector.cur_word
    simp
  have hsize : (vector.start words).words.length = max words.length 1 := by
    unfold vector.start vector.cur_word
    rw [List.length_set]
    split_ifs with hi
    · rw [List.length_append, List.length_singleton]
      omega
    · omega
  unfold vector.abs state.start
  rw [hword, hsize]
  rfl

/-- **Only the line counts**, and the size of the vector. -/
theorem vector.parse_line_eq (text : Str) (words : List Str) :
    vector.parse_line ⟨text, true⟩ words
      = (do let cols ← csv.parse_line (line text) words.length; .ok (cols, behind text)) := by
  have h := vector.parse_chars_eq (fun s stream => do
    let cols ← csv.finish s
    .ok (cols, stream)) text (vector.start words)
  simp only [vector.abs_finish, vector.abs_start] at h
  unfold vector.parse_line csv.parse_line
  rw [if_pos rfl, bind_assoc]
  exact h

/-! ## Words of a line -/

/-- A word that can stand in a column: nothing in it is dropped, ends a line or is a
quote. -/
structure Plain (w : Str) : Prop where
  line_feed : '\n' ∉ w
  carriage_return : '\r' ∉ w
  quote : '"' ∉ w
  length_le : w.length ≤ 32001

theorem Plain.nil : Plain [] :=
  ⟨List.not_mem_nil, List.not_mem_nil, List.not_mem_nil, Nat.zero_le _⟩

/-- A part of a plain word is plain. -/
theorem Plain.sublist {w p : Str} (h : Plain w) (hp : p.Sublist w) : Plain p :=
  ⟨fun hc => h.line_feed (hp.subset hc), fun hc => h.carriage_return (hp.subset hc),
    fun hc => h.quote (hp.subset hc), le_trans hp.length_le h.length_le⟩

/-- All words so far are plain. -/
structure state.Plain (s : state) : Prop where
  words : ∀ w ∈ s.words, csv.Plain w
  word : csv.Plain s.word

theorem cur_word_plain {s : state} (h : s.Plain) : (cur_word s).Plain := by
  refine ⟨fun w hw => ?_, Plain.nil⟩
  rcases List.mem_append.mp hw with hw | hw
  · exact h.words w hw
  · rw [List.mem_singleton.mp hw]
    exact h.word

/-- One character keeps the words plain. -/
theorem parse_char_plain {s s' : state} {ch : Char} (h : s.Plain) (hch : ch ≠ '\n')
    (hs : parse_char s ch = .ok s') : s'.Plain := by
  unfold parse_char at hs
  split_ifs at hs with h₁ h₂ h₃ h₄ h₅ h₆ h₇ h₈
  · -- the character belongs to the word
    have hother : '"' ≠ ch ∧ '\r' ≠ ch := by
      rcases h₁ with ⟨-, hq, hr⟩ | ⟨hsep, -⟩
      · exact ⟨hq, hr⟩
      · rw [← hsep]
        decide
    rw [← Except.ok.inj hs]
    refine ⟨h.words, ?_, ?_, ?_, ?_⟩
    · rw [List.mem_append, List.mem_singleton]
      exact fun hc => hc.elim h.word.line_feed fun heq => hch heq.symm
    · rw [List.mem_append, List.mem_singleton]
      exact fun hc => hc.elim h.word.carriage_return hother.2
    · rw [List.mem_append, List.mem_singleton]
      exact fun hc => hc.elim h.word.quote hother.1
    · rw [List.length_append, List.length_singleton]
      omega
  · rw [← Except.ok.inj hs]
    exact cur_word_plain ⟨h.words, h.word⟩
  · rw [← Except.ok.inj hs]
    exact ⟨h.words, h.word⟩
  · rw [← Except.ok.inj hs]
    exact cur_word_plain h
  · rw [← Except.ok.inj hs]
    exact ⟨h.words, h.word⟩
  · rw [← Except.ok.inj hs]
    exact h

/-- And so does a line. -/
theorem parse_chars_plain {line : Str} {s s' : state} (h : s.Plain) (hline : '\n' ∉ line)
    (hs : parse_chars line s = .ok s') : s'.Plain := by
  induction line generalizing s with
  | nil =>
      rw [← Except.ok.inj hs]
      exact h
  | cons ch line ih =>
      rw [List.mem_cons, not_or] at hline
      obtain ⟨s₁, hs₁, hs⟩ := Result.bind_eq_ok.mp hs
      exact ih (parse_char_plain h (fun heq => hline.1 heq.symm) hs₁) hline.2 hs

/-- **The words of a line are plain.** -/
theorem parse_line_words {line : Str} {size : ℕ} {words : List Str} (hline : '\n' ∉ line)
    (h : parse_line line size = .ok words) : ∀ w ∈ words, Plain w := by
  obtain ⟨s, hs, h⟩ := Result.bind_eq_ok.mp h
  have hplain : s.Plain := by
    refine parse_chars_plain ⟨?_, Plain.nil⟩ hline hs
    intro w hw
    exact absurd hw List.not_mem_nil
  unfold finish at h
  split_ifs at h
  · rw [← Except.ok.inj h]
    exact (cur_word_plain hplain).words
  · rw [← Except.ok.inj h]
    exact hplain.words

/-! ## Columns that are joined -/

/-- A carriage return is dropped wherever it stands. -/
def strip (line : Str) : Str := line.filter fun ch => ch != '\r'

theorem parse_chars_strip (line : Str) (s : state) :
    parse_chars (strip line) s = parse_chars line s := by
  induction line generalizing s with
  | nil => rfl
  | cons ch line ih =>
      by_cases hch : ch = '\r'
      · subst hch
        exact ih s
      · have hstrip : strip (ch :: line) = ch :: strip line :=
          List.filter_cons_of_pos (bne_iff_ne.mpr hch)
        rw [hstrip, parse_chars, parse_chars]
        exact bind_congr fun s' => ih s'

theorem parse_line_strip (line : Str) (size : ℕ) :
    parse_line (strip line) size = parse_line line size := by
  unfold parse_line
  rw [parse_chars_strip]

/-- The characters of a word are put behind one another, commas only between quotes. -/
theorem parse_chars_word {p : Str} (hp : Plain p) {q : Bool} (hcomma : ',' ∈ p → q = true)
    (c : Bool) (words : List Str) (w rest : Str) (size : ℕ) (hlen : w.length + p.length ≤ 32001) :
    parse_chars (p ++ rest) ⟨words, w, size, q, c⟩
      = parse_chars rest ⟨words, w ++ p, size, q, c⟩ := by
  induction p generalizing w with
  | nil => rw [List.nil_append, List.append_nil]
  | cons ch p ih =>
      rw [List.length_cons] at hlen
      have hch : (separator ≠ ch ∧ quote ≠ ch ∧ '\r' ≠ ch) ∨ (separator = ch ∧ q = true) := by
        by_cases hsep : separator = ch
        · refine Or.inr ⟨hsep, hcomma ?_⟩
          rw [← hsep]
          exact List.mem_cons_self ..
        · refine Or.inl ⟨hsep, ?_, ?_⟩
          · rintro rfl
            exact hp.quote (List.mem_cons_self ..)
          · rintro rfl
            exact hp.carriage_return (List.mem_cons_self ..)
      have hstep : parse_char ⟨words, w, size, q, c⟩ ch
          = .ok ⟨words, w ++ [ch], size, q, c⟩ := by
        unfold parse_char
        rw [if_pos hch, if_neg (by show ¬ 32000 < w.length; omega)]
      rw [List.cons_append, parse_chars, hstep, Result.ok_bind,
        ih (hp.sublist (List.sublist_cons_self ch p))
          (fun hc => hcomma (List.mem_cons_of_mem ch hc))
          (w ++ [ch]) (by rw [List.length_append, List.length_singleton]; omega)]
      rw [List.append_assoc, List.singleton_append]

/-- A column as it is to be written: a text, in quotes at least if it has a comma. -/
structure field where
  text : Str
  quoted : Bool
  plain : Plain text
  comma : ',' ∈ text → quoted = true

/-- The column in a line. -/
def field.printed (f : field) : Str :=
  if f.quoted then quote :: f.text ++ [quote] else f.text

/-- The columns, with commas between them. -/
def printed (fields : List field) : Str := [separator].intercalate (fields.map field.printed)

theorem printed_cons (f : field) {fields : List field} (hne : fields ≠ []) :
    printed (f :: fields) = f.printed ++ separator :: printed fields := by
  unfold printed
  rw [List.map_cons, List.intercalate_cons_of_ne_nil (by simpa using hne)]
  simp

/-- A bare column becomes the current word, a column in quotes a finished one. -/
theorem parse_chars_field (f : field) (words : List Str) (size : ℕ) (rest : Str) :
    parse_chars (f.printed ++ rest) ⟨words, [], size, false, false⟩
      = parse_chars rest (if f.quoted
          then ⟨words ++ [f.text], [], max size (words.length + 2), false, true⟩
          else ⟨words, f.text, size, false, false⟩) := by
  have hlen : ([] : Str).length + f.text.length ≤ 32001 := by
    simpa using f.plain.length_le
  unfold field.printed
  by_cases hq : f.quoted = true
  · rw [if_pos hq, if_pos hq, List.cons_append, List.cons_append, List.append_assoc]
    have hopen : parse_char ⟨words, [], size, false, false⟩ quote
        = .ok ⟨words, [], size, true, false⟩ := rfl
    have hword := parse_chars_word f.plain (fun _ => (rfl : true = true)) false words []
      ([quote] ++ rest) size hlen
    rw [parse_chars, hopen, Result.ok_bind, hword]
    rfl
  · rw [if_neg hq, if_neg hq]
    exact parse_chars_word f.plain (fun hc => absurd (f.comma hc) hq) false words [] rest size hlen

/-- Behind a comma it makes no difference whether the column was in quotes. -/
theorem parse_chars_field_separator (f : field) (words : List Str) (size : ℕ) (rest : Str) :
    parse_chars (f.printed ++ separator :: rest) ⟨words, [], size, false, false⟩
      = parse_chars rest ⟨words ++ [f.text], [], max size (words.length + 2), false, false⟩ := by
  rw [parse_chars_field]
  split_ifs with hq <;> rfl

/-- At the end of a line it does: an empty line has no column. -/
theorem parse_chars_field_finish (f : field) (words : List Str) (size : ℕ)
    (hf : words ≠ [] ∨ (f.text = [] → f.quoted = true)) :
    (parse_chars f.printed ⟨words, [], size, false, false⟩ >>= finish)
      = .ok (words ++ [f.text]) := by
  have h := parse_chars_field f words size []
  rw [List.append_nil] at h
  rw [h, parse_chars, Result.ok_bind]
  by_cases hq : f.quoted = true
  · rw [if_pos hq]
    rfl
  · have hword : 0 < words.length ∨ f.text ≠ [] := by
      rcases hf with hne | hquoted
      · exact Or.inl (List.length_pos_iff.mpr hne)
      · exact Or.inr fun hnil => hq (hquoted hnil)
    rw [if_neg hq]
    unfold finish
    rw [if_neg (by simp), if_pos ⟨rfl, hword⟩]

/-- **Columns that are joined are read back.** By induction on the columns, behind any
words. -/
theorem parse_chars_printed {fields : List field} (hne : fields ≠ []) (words : List Str) (size : ℕ)
    (h : words ≠ [] ∨ ∀ f, fields = [f] → f.text = [] → f.quoted = true) :
    (parse_chars (printed fields) ⟨words, [], size, false, false⟩ >>= finish)
      = .ok (words ++ fields.map field.text) := by
  induction fields generalizing words size with
  | nil => exact absurd rfl hne
  | cons f fields ih =>
      by_cases hlast : fields = []
      · subst hlast
        have hprinted : printed [f] = f.printed := by
          unfold printed
          simp
        rw [hprinted]
        exact parse_chars_field_finish f words size (h.imp_right fun h => h f rfl)
      · have hnil : words ++ [f.text] ≠ [] := by simp
        rw [printed_cons f hlast, parse_chars_field_separator,
          ih hlast (words ++ [f.text]) _ (Or.inl hnil)]
        simp

theorem parse_line_printed {fields : List field} (hne : fields ≠ [])
    (h : ∀ f, fields = [f] → f.text = [] → f.quoted = true) (size : ℕ) :
    parse_line (printed fields) size = .ok (fields.map field.text) :=
  parse_chars_printed hne [] (max size 1) (Or.inr h)

/-- A line without quotes is cut at its commas. -/
theorem parse_line_intercalate {ps : List Str} (hps : ∀ p ∈ ps, Plain p ∧ ',' ∉ p) {p : Str}
    (hp : Plain p ∧ ',' ∉ p) (hne : ps ≠ []) (size : ℕ) :
    parse_line ([','].intercalate (ps ++ [p])) size = .ok (ps ++ [p]) := by
  have hall : ∀ q ∈ ps ++ [p], Plain q ∧ ',' ∉ q := by
    intro q hq
    rcases List.mem_append.mp hq with hq | hq
    · exact hps q hq
    · rw [List.mem_singleton.mp hq]
      exact hp
  -- all columns are bare
  let fields : List field := (ps ++ [p]).pmap
    (fun q h => ⟨q, false, And.left h, fun hc => absurd hc (And.right h)⟩) hall
  have htext : fields.map field.text = ps ++ [p] := by simp [fields, List.map_pmap]
  have hprinted : fields.map field.printed = ps ++ [p] := by
    simp [fields, List.map_pmap, field.printed]
  have hlen : fields.length = ps.length + 1 := by simp [fields]
  have hpos : 0 < ps.length := List.length_pos_iff.mpr hne
  have hnil : fields ≠ [] := by
    intro heq
    rw [heq, List.length_nil] at hlen
    omega
  have hsingle : ∀ f, fields = [f] → f.text = [] → f.quoted = true := by
    intro f hf
    rw [hf, List.length_singleton] at hlen
    omega
  have h := parse_line_printed hnil hsingle size
  rw [htext, printed, hprinted] at h
  exact h

/-- The first line of a text. -/
theorem line_eq {l : Str} (hl : '\n' ∉ l) (rest : Str) :
    line (l ++ '\n' :: rest) = l ∧ behind (l ++ '\n' :: rest) = ⟨rest, true⟩ := by
  have hall := Str.bne_of_not_mem hl
  constructor
  · unfold line
    rw [List.takeWhile_append_of_pos hall]
    simp
  · unfold behind
    rw [List.dropWhile_append_of_pos hall]
    rfl

/-- A text of one line that nothing ends. -/
theorem line_eq_last {l : Str} (hl : '\n' ∉ l) : line l = l ∧ behind l = ⟨[], false⟩ := by
  have hall := Str.bne_of_not_mem hl
  constructor
  · exact List.takeWhile_eq_self_iff.mpr hall
  · unfold behind
    rw [List.dropWhile_eq_nil_iff.mpr hall]

/-- **A stream is read line by line**: what `parse_line` leaves has the other lines, and it has
failed behind the last one. -/
theorem splitOn_eq_line_cons (text : Str) : text.splitOn '\n'
    = line text :: if (behind text).good then (behind text).text.splitOn '\n' else [] := by
  by_cases hlf : '\n' ∈ text
  · obtain ⟨l, r, rfl, hl⟩ := List.eq_append_cons_of_mem hlf
    obtain ⟨hline, hbehind⟩ := line_eq hl r
    rw [hline, hbehind, if_pos rfl, List.splitOn_append_cons_self, List.splitOn_eq_singleton hl,
      List.singleton_append]
  · obtain ⟨hline, hbehind⟩ := line_eq_last hlf
    rw [hline, hbehind, if_neg (by simp), List.splitOn_eq_singleton hlf]

/-- No column ends the line. -/
theorem line_feed_not_mem_printed (fields : List field) : '\n' ∉ printed fields := by
  induction fields with
  | nil => exact List.not_mem_nil
  | cons f fields ih =>
      have hf : '\n' ∉ f.printed := by
        unfold field.printed
        split_ifs
        · have hlf := f.plain.line_feed
          simp [hlf, quote]
        · exact f.plain.line_feed
      by_cases hlast : fields = []
      · subst hlast
        simpa [printed] using hf
      · rw [printed_cons f hlast]
        simp [hf, ih, separator]

/-- **The round trip of a line.** -/
theorem parse_line_fields {fields : List field} (hne : fields ≠ [])
    (h : ∀ f, fields = [f] → f.text = [] → f.quoted = true) (cr : Bool) (rest : Str)
    (words : List Str) :
    vector.parse_line ⟨printed fields ++ (if cr then ['\r'] else []) ++ '\n' :: rest, true⟩ words
        = .ok (fields.map field.text, ⟨rest, true⟩) ∧
      vector.parse_line ⟨printed fields ++ (if cr then ['\r'] else []), true⟩ words
        = .ok (fields.map field.text, ⟨[], false⟩) := by
  have hlf : '\n' ∉ printed fields ++ (if cr then ['\r'] else []) := by
    rw [List.mem_append, not_or]
    refine ⟨line_feed_not_mem_printed fields, ?_⟩
    split_ifs
    · decide
    · exact List.not_mem_nil
  have hread : parse_line (printed fields ++ (if cr then ['\r'] else [])) words.length
      = .ok (fields.map field.text) := by
    have hstrip : strip (printed fields ++ (if cr then ['\r'] else []))
        = strip (printed fields) := by
      unfold strip
      rw [List.filter_append]
      cases cr <;> simp
    rw [← parse_line_strip, hstrip, parse_line_strip, parse_line_printed hne h]
  constructor
  · obtain ⟨hline, hbehind⟩ := line_eq hlf rest
    rw [vector.parse_line_eq, hline, hbehind, hread]
    rfl
  · obtain ⟨hline, hbehind⟩ := line_eq_last hlf
    rw [vector.parse_line_eq, hline, hbehind, hread]
    rfl

/-- Three columns, one of them in quotes and one empty, behind a line of four. -/
theorem parse_line_fields_sample :
    vector.parse_line ⟨"a,\"b,c\",\r\nd".toList, true⟩ ["w".toList, [], "x".toList, "y".toList]
      = .ok (["a".toList, "b,c".toList, []], ⟨"d".toList, true⟩) :=
  let fields : List field :=
    [⟨"a".toList, false, ⟨by decide, by decide, by decide, by decide⟩, by decide⟩,
      ⟨"b,c".toList, true, ⟨by decide, by decide, by decide, by decide⟩, by decide⟩,
      ⟨[], false, Plain.nil, by decide⟩]
  (parse_line_fields (List.cons_ne_nil _ _ : fields ≠ []) (fun f hf => by simp at hf) true
    "d".toList _).1

/-! ## Lines that are read -/

/-- The text of a line between the commas outside quotes. -/
def pieces : Bool → Str → List Str
  | _, [] => [[]]
  | inside, ch :: line =>
      if separator = ch ∧ inside = false then [] :: pieces false line
      else (pieces (if quote = ch then !inside else inside) line).modifyHead (List.cons ch)

/-- The number of these commas. -/
def commas : Bool → Str → ℕ
  | _, [] => 0
  | inside, ch :: line =>
      if separator = ch ∧ inside = false then commas false line + 1
      else commas (if quote = ch then !inside else inside) line

/-- A column and what stands for it in the line. -/
inductive Column : Str → Str → Prop where
  | bare {w : Str} : quote ∉ w → Column w w
  | quoted {w : Str} : quote ∉ w → Column (quote :: w ++ [quote]) w

/-- The line is the list of columns: one more than it has commas, each of them all of the
text between two commas, and nothing but the quotes left out. -/
structure Columns (line : Str) (cols : List Str) : Prop where
  length_eq : commas false line + 1 = cols.length
  pieces : List.Forall₂ Column (pieces false line) cols
  kept : [separator].intercalate cols = line.filter fun ch => ch != quote

/-- Where the parser is in a column. -/
inductive place where
  | bare
  | inside
  | behind

/-- Behind each closing quote comes a comma, or the end of the line. -/
def Closed : place → Str → Prop
  | _, [] => True
  | .bare, ch :: line => Closed (if quote = ch then .inside else .bare) line
  | .inside, ch :: line => Closed (if quote = ch then .behind else .inside) line
  | .behind, ch :: line => separator = ch ∧ Closed .bare line

instance Closed.decidable : (p : place) → (line : Str) → Decidable (Closed p line)
  | .bare, [] => isTrue trivial
  | .inside, [] => isTrue trivial
  | .behind, [] => isTrue trivial
  | .bare, _ :: line => Closed.decidable _ line
  | .inside, _ :: line => Closed.decidable _ line
  | .behind, _ :: line => @instDecidableAnd _ _ _ (Closed.decidable .bare line)

namespace place

/-- The state at that place, if the column is `w` so far. -/
def state (words : List Str) (w : Str) (size : ℕ) : place → state
  | bare => ⟨words, w, size, false, false⟩
  | inside => ⟨words, w, size, true, false⟩
  | behind => ⟨words ++ [w], [], size, false, true⟩

/-- What of the line has been read of the column. -/
def text (w : Str) : place → Str
  | bare => w
  | inside => quote :: w
  | behind => quote :: w ++ [quote]

/-- Commas belong to the column. -/
def is_inside : place → Bool
  | bare => false
  | inside => true
  | behind => false

end place

theorem pieces_ne_nil (inside : Bool) (line : Str) : pieces inside line ≠ [] := by
  induction line generalizing inside with
  | nil => exact List.cons_ne_nil _ _
  | cons ch line ih =>
      unfold pieces
      split_ifs
      · exact List.cons_ne_nil _ _
      · exact fun h => ih (!inside) (List.modifyHead_eq_nil_iff.mp h)
      · exact fun h => ih inside (List.modifyHead_eq_nil_iff.mp h)

/-- A character that belongs to the word. -/
theorem parse_char_push {s s' : state} {ch : Char}
    (hch : (separator ≠ ch ∧ quote ≠ ch ∧ '\r' ≠ ch) ∨ (separator = ch ∧ s.quote_flag = true))
    (h : parse_char s ch = .ok s') : s' = { s with word := s.word ++ [ch] } := by
  unfold parse_char at h
  rw [if_pos hch] at h
  split_ifs at h
  exact (Except.ok.inj h).symm

/-- **One character of a line in order**: it ends the column, or it is one more of it. -/
theorem parse_char_place {p : place} {ch : Char} {line : Str} (hcr : '\r' ≠ ch)
    (hc : Closed p (ch :: line)) {words : List Str} {w : Str} (hw : quote ∉ w) {size : ℕ}
    {s : state} (h : parse_char (p.state words w size) ch = .ok s) :
    (∃ size', separator = ch ∧ p.is_inside = false ∧ Closed .bare line ∧
      s = place.bare.state (words ++ [w]) [] size') ∨
    (∃ p' : place, ∃ w' size', ¬ (separator = ch ∧ p.is_inside = false) ∧
      p'.is_inside = (if quote = ch then !p.is_inside else p.is_inside) ∧
      p'.text w' = p.text w ++ [ch] ∧ quote ∉ w' ∧ Closed p' line ∧
      s = p'.state words w' size') := by
  have hpush (hq : quote ≠ ch) : quote ∉ w ++ [ch] := by
    rw [List.mem_append, List.mem_singleton]
    exact fun hmem => hmem.elim hw hq
  cases p with
  | bare =>
      by_cases hsep : separator = ch
      · subst hsep
        exact Or.inl ⟨_, rfl, rfl, hc, (Except.ok.inj h).symm⟩
      · right
        by_cases hquote : quote = ch
        · -- a quote opens a column only where nothing of it has been read
          subst hquote
          have hnil : w = [] := by
            by_contra hne
            change (if w ≠ [] then _ else _) = _ at h
            rw [if_pos hne] at h
            exact absurd h (by simp)
          subst hnil
          exact ⟨.inside, [], size, fun hs => hsep hs.1, rfl, rfl, hw, hc, (Except.ok.inj h).symm⟩
        · refine ⟨.bare, w ++ [ch], size, fun hs => hsep hs.1, ?_, rfl, hpush hquote, ?_, ?_⟩
          · rw [if_neg hquote]
          · rwa [Closed, if_neg hquote] at hc
          · exact parse_char_push (Or.inl ⟨hsep, hquote, hcr⟩) h
  | inside =>
      right
      by_cases hquote : quote = ch
      · subst hquote
        exact ⟨.behind, w, _, by simp [place.is_inside], rfl, rfl, hw, hc,
          (Except.ok.inj h).symm⟩
      · refine ⟨.inside, w ++ [ch], size, by simp [place.is_inside], ?_, rfl, hpush hquote, ?_, ?_⟩
        · rw [if_neg hquote]
        · rwa [Closed, if_neg hquote] at hc
        · refine parse_char_push ?_ h
          by_cases hsep : separator = ch
          · exact Or.inr ⟨hsep, rfl⟩
          · exact Or.inl ⟨hsep, hquote, hcr⟩
  | behind =>
      obtain ⟨hsep, hc⟩ := hc
      subst hsep
      exact Or.inl ⟨size, rfl, rfl, hc, (Except.ok.inj h).symm⟩

/-- A column that can end. -/
theorem column_place {p : place} (hin : p.is_inside = false) {w : Str} (hw : quote ∉ w) :
    Column (p.text w) w := by
  cases p with
  | bare => exact .bare hw
  | inside => exact absurd hin (by simp [place.is_inside])
  | behind => exact .quoted hw

/-- The end of a line in order. -/
theorem finish_place {p : place} {words : List Str} {w : Str} {size : ℕ} {cols : List Str}
    (hne : cols ≠ []) (h : finish (p.state words w size) = .ok cols) :
    p.is_inside = false ∧ cols = words ++ [w] := by
  cases p with
  | bare =>
      refine ⟨rfl, ?_⟩
      change Except.ok (if _ then words ++ [w] else words) = _ at h
      split_ifs at h with hlast
      · exact (Except.ok.inj h).symm
      · have hnil : words = [] := by
          by_contra hwords
          exact hlast ⟨rfl, Or.inl (List.length_pos_iff.mpr hwords)⟩
        exact absurd ((Except.ok.inj h).symm.trans hnil) hne
  | inside => exact absurd h (by simp [finish, place.state])
  | behind => exact ⟨rfl, (Except.ok.inj h).symm⟩

/-- What has been read of the first piece. -/
theorem modifyHead_read (t : Str) (ch : Char) (ps : List Str) :
    (ps.modifyHead (List.cons ch)).modifyHead (t ++ ·) = ps.modifyHead (t ++ [ch] ++ ·) := by
  rw [List.modifyHead_modifyHead]
  have hcomp : (t ++ ·) ∘ List.cons ch = (t ++ [ch] ++ ·) := by
    funext q
    simp
  rw [hcomp]

/-- Nothing has been read of it at the start. -/
theorem modifyHead_start (ps : List Str) : ps.modifyHead (place.bare.text [] ++ ·) = ps :=
  congrFun List.modifyHead_id ps

/-- **A line in order is the list of its columns.** By induction on the line, from any
place. -/
theorem pieces_of_closed {line : Str} (hcr : '\r' ∉ line) {p : place} (hc : Closed p line)
    {words : List Str} {w : Str} (hw : quote ∉ w) {size : ℕ} {cols : List Str} (hne : cols ≠ [])
    (h : (parse_chars line (p.state words w size) >>= finish) = .ok cols) :
    ∃ cs, cols = words ++ cs ∧
      List.Forall₂ Column ((pieces p.is_inside line).modifyHead (p.text w ++ ·)) cs := by
  induction line generalizing p words w size with
  | nil =>
      obtain ⟨hin, hcols⟩ := finish_place hne h
      refine ⟨[w], hcols, .cons ?_ .nil⟩
      dsimp only
      rw [List.append_nil]
      exact column_place hin hw
  | cons ch line ih =>
      rw [List.mem_cons, not_or] at hcr
      rw [parse_chars, bind_assoc] at h
      obtain ⟨s, hs, h⟩ := Result.bind_eq_ok.mp h
      obtain ⟨size', hsep, hin, hc, rfl⟩ | ⟨p', w', size', hsep, hin, htext, hw', hc, rfl⟩ :=
        parse_char_place hcr.1 hc hw hs
      · -- the piece ends here
        obtain ⟨cs, hcs, hall⟩ := ih hcr.2 hc List.not_mem_nil h
        refine ⟨w :: cs, by rw [hcs, List.append_assoc]; rfl, ?_⟩
        rw [pieces, if_pos ⟨hsep, hin⟩, List.modifyHead_cons, List.append_nil]
        refine .cons (column_place hin hw) ?_
        rwa [modifyHead_start] at hall
      · obtain ⟨cs, hcs, hall⟩ := ih hcr.2 hc hw' h
        refine ⟨cs, hcs, ?_⟩
        rw [pieces, if_neg hsep, ← hin, modifyHead_read, ← htext]
        exact hall

/-- A quote behind other text makes no column. -/
theorem column_quote_behind {w t c : Str} (hw : quote ∉ w) (h : Column (w ++ quote :: t) c) :
    w = [] := by
  by_contra hne
  obtain ⟨a, w, rfl⟩ := List.exists_cons_of_ne_nil hne
  generalize hx : a :: w ++ quote :: t = x at h
  cases h with
  | bare hq =>
      rw [← hx] at hq
      exact hq (by simp)
  | quoted hq =>
      have ha : a = quote := (List.cons.inj hx).1
      exact hw (ha ▸ List.mem_cons_self ..)

/-- Nor does text behind the closing quote. -/
theorem column_text_behind {w t c : Str}
    (h : Column (quote :: w ++ [quote] ++ t) c) : t = [] := by
  generalize hx : quote :: w ++ [quote] ++ t = x at h
  cases h with
  | bare hq =>
      rw [← hx] at hq
      exact absurd (by simp) hq
  | quoted hq =>
      rcases List.eq_nil_or_concat t with ht | ⟨t', b, rfl⟩
      · exact ht
      · have hin : w ++ [quote] ++ t' ++ [b] = c ++ [quote] := by
          simpa using (List.cons.inj hx).2
        have hc : w ++ [quote] ++ t' = c := (List.append_inj' hin rfl).1
        rw [← hc] at hq
        exact absurd (by simp) hq

/-- **And only a line in order is.** -/
theorem closed_of_pieces {line : Str} {p : place} {w : Str} (hw : quote ∉ w) {cs : List Str}
    (h : List.Forall₂ Column ((pieces p.is_inside line).modifyHead (p.text w ++ ·)) cs) :
    Closed p line := by
  induction line generalizing p w cs with
  | nil => rw [Closed]; trivial
  | cons ch line ih =>
      by_cases hsep : separator = ch ∧ p.is_inside = false
      · -- the next column starts with nothing read
        have hnext : Closed .bare line := by
          rw [pieces, if_pos hsep, List.modifyHead_cons] at h
          obtain ⟨c, cs', -, hall, rfl⟩ := List.forall₂_cons_left_iff.mp h
          rw [← modifyHead_start (pieces false line)] at hall
          exact ih List.not_mem_nil hall
        obtain ⟨hch, hin⟩ := hsep
        subst hch
        cases p with
        | bare => exact hnext
        | inside => exact absurd hin (by simp [place.is_inside])
        | behind => exact ⟨rfl, hnext⟩
      · rw [pieces, if_neg hsep, modifyHead_read] at h
        -- the first piece goes on with this character
        have hhead : ∃ q c, Column (p.text w ++ [ch] ++ q) c := by
          obtain ⟨q, qs, hqs⟩ := List.exists_cons_of_ne_nil
            (pieces_ne_nil (if quote = ch then !p.is_inside else p.is_inside) line)
          rw [hqs, List.modifyHead_cons] at h
          obtain ⟨c, -, hcol, -, -⟩ := List.forall₂_cons_left_iff.mp h
          exact ⟨q, c, hcol⟩
        have hpush (hq : quote ≠ ch) : quote ∉ w ++ [ch] := by
          rw [List.mem_append, List.mem_singleton]
          exact fun hmem => hmem.elim hw hq
        obtain ⟨q, c, hcol⟩ := hhead
        cases p with
        | bare =>
            rw [Closed]
            by_cases hquote : quote = ch
            · subst hquote
              have hnil : w = [] := by
                rw [List.append_assoc] at hcol
                exact column_quote_behind hw hcol
              subst hnil
              exact ih hw h
            · rw [if_neg hquote] at h ⊢
              exact ih (hpush hquote) h
        | inside =>
            rw [Closed]
            by_cases hquote : quote = ch
            · subst hquote
              exact ih hw h
            · rw [if_neg hquote] at h ⊢
              exact ih (hpush hquote) h
        | behind =>
            have hnil : [ch] ++ q = [] := column_text_behind (by rwa [List.append_assoc] at hcol)
            exact absurd hnil (by simp)

/-- There is one piece more than commas. -/
theorem length_pieces (inside : Bool) (line : Str) :
    (pieces inside line).length = commas inside line + 1 := by
  induction line generalizing inside with
  | nil => rfl
  | cons ch line ih =>
      unfold pieces commas
      by_cases hsep : separator = ch ∧ inside = false
      · rw [if_pos hsep, if_pos hsep, List.length_cons, ih]
      · rw [if_neg hsep, if_neg hsep, List.length_modifyHead, ih]

/-- The pieces and the commas are the line. -/
theorem intercalate_pieces (inside : Bool) (line : Str) :
    [separator].intercalate (pieces inside line) = line := by
  induction line generalizing inside with
  | nil => rfl
  | cons ch line ih =>
      unfold pieces
      by_cases hsep : separator = ch ∧ inside = false
      · rw [if_pos hsep, List.intercalate_cons_of_ne_nil (pieces_ne_nil false line), ih, hsep.1]
        rfl
      · rw [if_neg hsep]
        obtain ⟨q, qs, hqs⟩ := List.exists_cons_of_ne_nil
          (pieces_ne_nil (if quote = ch then !inside else inside) line)
        have hline := ih (if quote = ch then !inside else inside)
        rw [hqs] at hline ⊢
        rw [List.modifyHead_cons, List.intercalate_cons_cons_left, hline]

/-- The columns are the pieces without their quotes. -/
theorem columns_eq_filter {ps cols : List Str} (h : List.Forall₂ Column ps cols) :
    cols = ps.map (List.filter fun ch => ch != quote) := by
  induction h with
  | nil => rfl
  | cons hcol _ ih =>
      rw [List.map_cons, ← ih]
      refine congrArg (· :: _) ?_
      have hself {w : Str} (hw : quote ∉ w) : w = w.filter fun ch => ch != quote :=
        (List.filter_eq_self.mpr (Str.bne_of_not_mem hw)).symm
      cases hcol with
      | bare hw => exact hself hw
      | quoted hw =>
          rw [List.cons_append, List.filter_cons_of_neg (by simp), List.filter_append, ← hself hw,
            List.filter_cons_of_neg (by simp), List.filter_nil, List.append_nil]

/-- A line whose pieces are columns is the list of these. -/
theorem columns_of_pieces {line : Str} {cols : List Str}
    (h : List.Forall₂ Column (pieces false line) cols) : Columns line cols := by
  refine ⟨?_, h, ?_⟩
  · rw [← length_pieces]
    exact h.length_eq
  · have hsep : [separator] = [separator].filter fun ch => ch != quote := rfl
    rw [columns_eq_filter h]
    nth_rewrite 1 [hsep]
    rw [← filter_intercalate, intercalate_pieces]

/-- **What the parser reads as columns**: the line is the list of its columns exactly when
a comma or its end comes behind each closing quote. -/
theorem columns_iff_closed {text : Str} {words cols : List Str} {text_stream : istream}
    (h : vector.parse_line ⟨text, true⟩ words = .ok (cols, text_stream)) (hne : cols ≠ []) :
    Columns (strip (line text)) cols ↔ Closed .bare (strip (line text)) := by
  constructor
  · intro hcols
    have hpieces := hcols.pieces
    rw [← modifyHead_start (pieces false _)] at hpieces
    exact closed_of_pieces List.not_mem_nil hpieces
  · intro hc
    have hread : parse_line (strip (line text)) words.length = .ok cols := by
      rw [vector.parse_line_eq] at h
      obtain ⟨cols', hcols, heq⟩ := Result.bind_eq_ok.mp h
      rw [parse_line_strip, hcols, (Prod.mk.inj (Except.ok.inj heq)).1]
    have hcr : '\r' ∉ strip (line text) := by
      intro hmem
      exact absurd (List.mem_filter.mp hmem).2 (by decide)
    have hstart : state.start words.length = place.bare.state [] [] (max words.length 1) := rfl
    rw [parse_line, hstart] at hread
    obtain ⟨cs, hcs, hall⟩ := pieces_of_closed hcr hc List.not_mem_nil hne hread
    rw [modifyHead_start] at hall
    rw [List.nil_append] at hcs
    rw [hcs]
    exact columns_of_pieces hall

/-- A line in order. -/
theorem columns_iff_closed_sample :
    Columns (strip (line "a,\"b,c\"\r\n".toList)) ["a".toList, "b,c".toList] :=
  have hread : vector.parse_line ⟨"a,\"b,c\"\r\n".toList, true⟩ []
      = .ok (["a".toList, "b,c".toList], ⟨[], true⟩) := rfl
  (columns_iff_closed hread (List.cons_ne_nil _ _)).mpr (by decide)

/-- Text behind a closing quote at the end of a line is dropped. -/
theorem parse_line_drops_text :
    vector.parse_line ⟨"\"a\"b".toList, true⟩ [] = .ok (["a".toList], ⟨[], false⟩) ∧
      ¬ Columns (strip (line "\"a\"b".toList)) ["a".toList] := by
  refine ⟨rfl, fun hcols => ?_⟩
  have hkept := hcols.kept
  exact absurd hkept (by decide)

end csv

end Cdns
