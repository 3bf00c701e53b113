/-
A file of resolvers, read line by line: what `responder::from_file`
(`dns/srcz/responder.cpp`) makes of a text.

A `resolv.conf` is lines of words. Some words make the rest of their line void, a
`nameserver` takes the word behind it, and every other word is an address. `scan` says this
with a status that goes from word to word and from line to line, and the loop, which reads
words and skips characters, finds the same addresses (`address_words_eq`), with one
exception. The word that a `nameserver` takes is looked at after the rest of its line has
been skipped, and where nothing is left behind the word, not even the end of a line, there
is nothing to skip, the stream fails, and the address is lost (`from_file_iff`).
-/
import Cdns.AddressForms
import Cdns.Lib.Split
import Cdns.Reload
import Mathlib.Data.List.DropRight

set_option autoImplicit false

namespace Cdns

open Lib.Split

namespace responder

/-! ## Words and lines -/

/-- A word, or the end of a line. -/
abbrev item := Option Str

/-- The words of a text with the ends of its lines, `none`, between them. -/
def items (text : Str) : List item :=
  [none].intercalate ((text.splitOn '\n').map fun line => (words Str.is_space line).map some)

/-- The word makes the rest of its line void. -/
def Skips (word : Str) : Prop := word.head? = some '#' ∨ word ∈ resolv_key

instance (word : Str) : Decidable (Skips word) := inferInstanceAs (Decidable (_ ∨ _))

/-- Where the words of a text are to go: `waiting` behind a `nameserver`, `skipping` in the
rest of a line that is void. -/
inductive status where
  | idle
  | waiting
  | skipping
  deriving DecidableEq

/-- The address that a word is, if it is one, and the status behind it. -/
def token : status → Str → List Str × status
  | .idle, word =>
      if Skips word then ([], .skipping)
      else if word = "nameserver".toList then ([], .waiting)
      else ([word], .idle)
  | .waiting, word => ([word], .skipping)
  | .skipping, _ => ([], .skipping)

/-- The end of a line. -/
def status.end_line : status → status
  | .waiting => .waiting
  | _ => .idle

/-- The addresses in a text, in order, and the status behind it. -/
def scan : status → List item → List Str × status
  | s, [] => ([], s)
  | s, none :: is => scan s.end_line is
  | s, some word :: is =>
      ((token s word).1 ++ (scan (token s word).2 is).1, (scan (token s word).2 is).2)

/-- **The address tokens of a text.** -/
def tokens (text : Str) : List Str := (scan .idle (items text)).1

/-! ## Items of a text -/

/-- The end of a line takes a text apart. -/
theorem items_append_line_feed (l r : Str) :
    items (l ++ '\n' :: r) = items l ++ none :: items r := by
  unfold items
  rw [List.splitOn_append_cons_self, List.map_append,
    intercalate_append _ (by simp) (by simp), List.append_assoc]
  rfl

/-- A text of one line. -/
theorem items_line {l : Str} (hl : '\n' ∉ l) : items l = (words Str.is_space l).map some := by
  unfold items
  rw [List.splitOn_eq_singleton hl]
  simp

/-- White space of another kind separates words and nothing else. -/
theorem items_append_space (l r : Str) {c : Char} (hc : Str.is_space c = true) (hne : '\n' ≠ c) :
    items (l ++ c :: r) = items l ++ items r := by
  induction l using induction_pieces '\n' with
  | last l hl =>
      have hline (b : Str) (hb : '\n' ∉ b) : items (l ++ c :: b) = items l ++ items b := by
        have hlb : '\n' ∉ l ++ c :: b := by
          rw [List.mem_append, List.mem_cons]
          exact fun hmem => hmem.elim hl fun hmem => hmem.elim hne hb
        rw [items_line hlb, items_line hl, items_line hb, words_append_cons l b hc,
          List.map_append]
      induction r using induction_pieces '\n' with
      | last r hr => exact hline r hr
      | cons b r hb _ =>
          have hassoc : l ++ c :: (b ++ '\n' :: r) = (l ++ c :: b) ++ '\n' :: r := by simp
          rw [hassoc, items_append_line_feed, items_append_line_feed, hline b hb,
            List.append_assoc]
  | cons a l _ ih =>
      rw [List.append_assoc, List.cons_append, items_append_line_feed, items_append_line_feed, ih,
        List.append_assoc, List.cons_append]

/-- The end of a line, or nothing. -/
def break_item (c : Char) : List item := if c = '\n' then [none] else []

/-- **White space takes a text apart.** -/
theorem items_append_cons (l r : Str) {c : Char} (hc : Str.is_space c = true) :
    items (l ++ c :: r) = items l ++ (break_item c ++ items r) := by
  unfold break_item
  split_ifs with h
  · rw [h, items_append_line_feed]
    rfl
  · rw [items_append_space l r hc (Ne.symm h), List.nil_append]

theorem items_cons (r : Str) {c : Char} (hc : Str.is_space c = true) :
    items (c :: r) = break_item c ++ items r :=
  items_append_cons [] r hc

/-- A word alone. -/
theorem items_word {w : Str} (hne : w ≠ []) (hw : ∀ c ∈ w, Str.is_space c = false) :
    items w = [some w] := by
  have hlf : '\n' ∉ w := fun hmem => absurd (hw _ hmem) (by decide)
  rw [items_line hlf, words_eq_singleton hne hw]
  rfl

/-- A word in front of white space, or of nothing. -/
theorem items_word_append {w : Str} (hne : w ≠ []) (hw : ∀ c ∈ w, Str.is_space c = false)
    {rest : Str} (hrest : ∀ c, rest.head? = some c → Str.is_space c = true) :
    items (w ++ rest) = some w :: items rest := by
  cases rest with
  | nil =>
      rw [List.append_nil, items_word hne hw]
      rfl
  | cons c rest =>
      rw [items_append_cons w rest (hrest c rfl), items_word hne hw, items_cons rest (hrest c rfl)]
      rfl

/-- And behind white space. -/
theorem items_append_word {pre w : Str} (hpre : ∀ c, pre.getLast? = some c → Str.is_space c = true)
    (hne : w ≠ []) (hw : ∀ c ∈ w, Str.is_space c = false) :
    items (pre ++ w) = items pre ++ [some w] := by
  rcases List.eq_nil_or_concat pre with rfl | ⟨pre, c, rfl⟩
  · exact items_word hne hw
  · have hc : Str.is_space c = true := hpre c (by simp)
    have hnil : items ([] : Str) = [] := rfl
    rw [List.concat_eq_append, List.append_assoc, List.singleton_append, items_append_cons pre w hc,
      items_append_cons pre [] hc, items_word hne hw, hnil]
    simp

theorem scan_append (s : status) (is js : List item) :
    scan s (is ++ js)
      = ((scan s is).1 ++ (scan (scan s is).2 js).1, (scan (scan s is).2 js).2) := by
  induction is generalizing s with
  | nil => rfl
  | cons i is ih =>
      cases i with
      | none => exact ih s.end_line
      | some word => 
          rw [List.cons_append, scan, ih, scan]
          simp

/-- White space in front makes no difference. -/
theorem scan_space {s : status} (hs : s ≠ .skipping) {ws : Str}
    (hws : ∀ c ∈ ws, Str.is_space c = true) (text : Str) :
    scan s (items (ws ++ text)) = scan s (items text) := by
  induction ws with
  | nil => rfl
  | cons c ws ih =>
      obtain ⟨hc, hws⟩ := List.forall_mem_cons.mp hws
      rw [List.cons_append, items_cons (ws ++ text) hc, ← ih hws]
      unfold break_item
      split_ifs
      · -- the end of a line changes a status only where the line is void
        have hend : s.end_line = s := by
          cases s with
          | idle => rfl
          | waiting => rfl
          | skipping => exact absurd rfl hs
        rw [List.singleton_append, scan, hend]
      · rfl

/-- A word in front. -/
theorem scan_word {s : status} (hs : s ≠ .skipping) {text word rest : Str}
    (h : Str.read_word text = some (word, rest)) :
    scan s (items text) = ((token s word).1 ++ (scan (token s word).2 (items rest)).1,
      (scan (token s word).2 (items rest)).2) := by
  obtain ⟨hne, hw⟩ := Str.read_word_spec h
  obtain ⟨ws, htext, hws, hrest⟩ := Str.read_word_eq h
  rw [htext, scan_space hs hws, items_word_append hne hw hrest, scan]

/-- A line that is void, up to its end. -/
theorem scan_skipping_line {l : Str} (hl : '\n' ∉ l) (is : List item) :
    scan .skipping (items l ++ is) = scan .skipping is := by
  rw [items_line hl]
  induction words Str.is_space l with
  | nil => rfl
  | cons w ws ih => exact ih

/-- **`ignore` and a line that is void.** It leaves the text behind the line, or nothing where
the line is the last one; `t` is the word that ends the text. -/
theorem scan_ignore {rest t : Str} (ht : ∀ c ∈ t, Str.is_space c = false) {n : ℕ}
    (hn : ((rest ++ t).takeWhile fun c => c != '\n').length ≤ n) :
    (∃ rest', rest' <:+ rest ∧ Str.ignore n '\n' (rest ++ t) = rest' ++ t ∧
      scan .skipping (items rest) = scan .idle (items rest')) ∨
    (Str.ignore n '\n' (rest ++ t) = [] ∧ scan .skipping (items rest) = ([], .skipping)) := by
  by_cases hlf : '\n' ∈ rest
  · left
    obtain ⟨l, r, rfl, hl⟩ := List.eq_append_cons_of_mem hlf
    have htake : (l ++ '\n' :: r ++ t).takeWhile (fun c => c != '\n') = l := by
      rw [List.append_assoc, List.takeWhile_append_of_pos (Str.bne_of_not_mem hl)]
      simp
    have hscan : scan .skipping (items (l ++ '\n' :: r)) = scan .idle (items r) := by
      rw [items_append_line_feed, scan_skipping_line hl]
      rfl
    rw [htake] at hn
    rcases Nat.lt_or_eq_of_le hn with hlt | rfl
    · refine ⟨r, ?_, ?_, hscan⟩
      · exact (List.suffix_cons '\n' r).trans (List.suffix_append l ('\n' :: r))
      · rw [List.append_assoc, List.cons_append, Str.ignore_line hl hlt]
    · -- the end of the line is left, and is passed over as white space
      refine ⟨'\n' :: r, List.suffix_append l _, ?_, ?_⟩
      · have h := Str.ignore_append hl 0 ('\n' :: r ++ t)
        rwa [Nat.add_zero, ← List.append_assoc] at h
      · rw [hscan, items_cons r (by decide)]
        rfl
  · right
    have hall : '\n' ∉ rest ++ t := by
      rw [List.mem_append]
      exact fun hmem => hmem.elim hlf fun hmem => absurd (ht _ hmem) (by decide)
    rw [List.takeWhile_eq_self_iff.mpr (Str.bne_of_not_mem hall)] at hn
    refine ⟨Str.ignore_last hall hn, ?_⟩
    have hscan := scan_skipping_line hlf []
    rw [List.append_nil] at hscan
    rw [hscan]
    rfl

/-! ## The words that the loop takes -/

/-- The words that the loop of `from_file` takes for addresses, `pending` behind a
`nameserver`. -/
def address_words : ℕ → Bool → Str → List Str
  | 0, _, _ => []
  | n + 1, pending, f =>
      match Str.read_word f with
      | none => []
      | some (word, f) =>
          if pending then
            if f = [] then [] else word :: address_words n false (Str.ignore 100000000000 '\n' f)
          else if Skips word then address_words n false (Str.ignore 100000 '\n' f)
          else if word = "nameserver".toList then address_words n true f
          else word :: address_words n false f

/-- The limits of `ignore` are long enough for the lines. -/
structure Within (text : Str) : Prop where
  skipped : ∀ word rest, word ++ rest <:+ text → Skips word →
    (rest.takeWhile fun c => c != '\n').length ≤ 100000
  taken : ∀ rest, rest <:+ text → (rest.takeWhile fun c => c != '\n').length ≤ 100000000000

theorem Within.suffix {text rest : Str} (h : Within text) (hrest : rest <:+ text) :
    Within rest where
  skipped := fun word r hr => h.skipped word r (hr.trans hrest)
  taken := fun r hr => h.taken r (hr.trans hrest)

/-- The first line of a text. -/
theorem splitOn_head (text : Str) :
    ∃ lines, text.splitOn '\n' = (text.takeWhile fun c => c != '\n') :: lines := by
  induction text with
  | nil => exact ⟨[], rfl⟩
  | cons c text ih =>
      rw [List.splitOn_cons_eq_if_modifyHead]
      by_cases hc : c = '\n'
      · subst hc
        exact ⟨_, rfl⟩
      · obtain ⟨lines, hlines⟩ := ih
        refine ⟨lines, ?_⟩
        rw [if_neg (by simpa using hc), hlines, List.takeWhile_cons_of_pos (by simpa using hc)]
        rfl

/-- Lines of at most 100000 characters are not too long. -/
theorem within_of_lines {text : Str} (h : ∀ line ∈ text.splitOn '\n', line.length ≤ 100000) :
    Within text := by
  have hrest : ∀ rest, rest <:+ text → (rest.takeWhile fun c => c != '\n').length ≤ 100000 := by
    rintro rest ⟨x, rfl⟩
    induction x with
    | nil =>
        obtain ⟨lines, hlines⟩ := splitOn_head rest
        refine h _ ?_
        rw [List.nil_append, hlines]
        exact List.mem_cons_self ..
    | cons c x ih =>
        refine ih fun line hline => ?_
        rw [List.cons_append, List.splitOn_cons_eq_if_modifyHead] at h
        split_ifs at h with hc
        · exact h line (List.mem_cons_of_mem _ hline)
        · -- the first line gets longer
          obtain ⟨l, ls, hls⟩ := List.exists_cons_of_ne_nil (List.splitOn_ne_nil '\n' (x ++ rest))
          rw [hls, List.modifyHead_cons, List.forall_mem_cons] at h
          rw [hls] at hline
          rcases List.mem_cons.mp hline with rfl | hline
          · have hlen := h.1
            rw [List.length_cons] at hlen
            omega
          · exact h.2 line hline
  constructor
  · intro word rest hword _
    exact hrest rest ((List.suffix_append word rest).trans hword)
  · intro rest hsuffix
    exact le_trans (hrest rest hsuffix) (by decide)

/-- The status of the loop. -/
def waits (pending : Bool) : status := if pending then .waiting else .idle

/-- What the loop makes of a word that ends the text. -/
def last_word (s : status) (t : Str) : List Str :=
  if t = [] ∨ s = .waiting then [] else (token s t).1

/-- The loop behind a `nameserver`. -/
theorem address_words_waiting {f word rest : Str} (h : Str.read_word f = some (word, rest))
    (n : ℕ) :
    address_words (n + 1) true f = if rest = [] then []
      else word :: address_words n false (Str.ignore 100000000000 '\n' rest) := by
  rw [address_words, h]
  rfl

/-- The loop at any other word. -/
theorem address_words_idle {f word rest : Str} (h : Str.read_word f = some (word, rest)) (n : ℕ) :
    address_words (n + 1) false f
      = if Skips word then address_words n false (Str.ignore 100000 '\n' rest)
      else if word = "nameserver".toList then address_words n true rest
      else word :: address_words n false rest := by
  rw [address_words, h]
  rfl

theorem address_words_nil (n : ℕ) (pending : Bool) : address_words n pending [] = [] := by
  cases n <;> rfl

/-- White space at the end of a text is at the end of its end. -/
theorem space_last_suffix {pre rest : Str} (hrest : rest <:+ pre)
    (hpre : ∀ c, pre.getLast? = some c → Str.is_space c = true) :
    ∀ c, rest.getLast? = some c → Str.is_space c = true := by
  intro c hc
  obtain ⟨x, rfl⟩ := hrest
  refine hpre c ?_
  rw [List.getLast?_append, hc]
  rfl

/-- Only a word is left. -/
theorem address_words_last {t : Str} (ht : ∀ c ∈ t, Str.is_space c = false) (n : ℕ)
    (pending : Bool) : address_words (n + 1) pending t = last_word (waits pending) t := by
  unfold last_word
  by_cases hne : t = []
  · rw [hne, if_pos (Or.inl rfl), address_words_nil]
  · have hbreak : ∀ c, ([] : Str).head? = some c → Str.is_space c = true :=
      fun c hc => absurd hc (by simp)
    have hread := Str.read_word_append hne ht hbreak
    rw [List.append_nil] at hread
    have hignore : Str.ignore 100000 '\n' [] = [] := rfl
    cases pending with
    | true =>
        have hwaits : waits true = .waiting := rfl
        rw [address_words_waiting hread, if_pos rfl, if_pos (Or.inr hwaits)]
    | false =>
        have hidle : waits false = .idle := rfl
        rw [address_words_idle hread, hidle, if_neg (not_or.mpr ⟨hne, by decide⟩), hignore, token]
        simp only [address_words_nil]
        split_ifs
        · rfl
        · rfl
        · rfl

/-- The text up to its last white space is not only a word. -/
theorem read_word_rest_ne_nil {pre word rest : Str} (h : Str.read_word pre = some (word, rest))
    (hpre : ∀ c, pre.getLast? = some c → Str.is_space c = true) : rest ≠ [] := by
  rintro rfl
  obtain ⟨hne, hw⟩ := Str.read_word_spec h
  obtain ⟨ws, rfl, -, -⟩ := Str.read_word_eq h
  have hlast : (ws ++ (word ++ [])).getLast? = some (word.getLast hne) := by
    rw [List.append_nil, List.getLast?_append, List.getLast?_eq_some_getLast hne]
    rfl
  have hspace := hpre _ hlast
  rw [hw _ (List.getLast_mem hne)] at hspace
  exact absurd hspace (by simp)

/-- Where the rest of a line is void, the loop goes on with what `ignore` leaves of the text,
`rest'`. -/
theorem address_words_ignore {n m : ℕ} {rest t : Str} (ht : ∀ c ∈ t, Str.is_space c = false)
    (hm : ((rest ++ t).takeWhile fun c => c != '\n').length ≤ m)
    (hnext : ∀ rest', rest' <:+ rest → address_words n false (rest' ++ t)
      = (scan .idle (items rest')).1 ++ last_word (scan .idle (items rest')).2 t) :
    address_words n false (Str.ignore m '\n' (rest ++ t))
      = (scan .skipping (items rest)).1 ++ last_word (scan .skipping (items rest)).2 t := by
  obtain ⟨rest', hrest', hignore, hscan⟩ | ⟨hignore, hscan⟩ := scan_ignore ht hm
  · rw [hignore, hscan]
    exact hnext rest' hrest'
  · have hvoid : last_word .skipping t = [] := by
      unfold last_word
      exact ite_eq_left_iff.mpr fun _ => rfl
    rw [hignore, hscan, address_words_nil, hvoid, List.append_nil]

/-- **The loop takes the address tokens**, as long as white space follows them. By induction
on the count; `pre` is the text up to its last white space. -/
theorem address_words_eq {n : ℕ} {pre t : Str} (hlen : (pre ++ t).length < n)
    (hwithin : Within (pre ++ t)) (hpre : ∀ c, pre.getLast? = some c → Str.is_space c = true)
    (ht : ∀ c ∈ t, Str.is_space c = false) (pending : Bool) :
    address_words n pending (pre ++ t) = (scan (waits pending) (items pre)).1
      ++ last_word (scan (waits pending) (items pre)).2 t := by
  induction n generalizing pre pending with
  | zero => exact absurd hlen (Nat.not_lt_zero _)
  | succ n ih =>
      have hs : waits pending ≠ .skipping := by cases pending <;> simp [waits]
      cases hread : Str.read_word pre with
      | none =>
          have hspace := Str.read_word_eq_none hread
          have hscan := scan_space hs hspace []
          have hsame : address_words (n + 1) pending (pre ++ t)
              = address_words (n + 1) pending t := by
            unfold address_words
            rw [Str.read_word_space hspace]
          rw [List.append_nil] at hscan
          rw [hscan, hsame]
          exact address_words_last ht n pending
      | some a =>
          obtain ⟨word, rest⟩ := a
          have hne := read_word_rest_ne_nil hread hpre
          have hread' := Str.read_word_append_right hread hne t
          have hlt := Str.read_word_length_lt hread'
          obtain ⟨ws, htext, -, -⟩ := Str.read_word_eq hread
          have hsuffix : word ++ rest <:+ pre := ⟨ws, htext.symm⟩
          have hsub {r : Str} (hr : r <:+ pre) : r ++ t <:+ pre ++ t := by
            obtain ⟨x, hx⟩ := hr
            exact ⟨x, by rw [← List.append_assoc, hx]⟩
          -- the loop goes on with the rest, or with a part of it
          have hnext (p : Bool) (r : Str) (hr : r <:+ rest) : address_words n p (r ++ t)
              = (scan (waits p) (items r)).1 ++ last_word (scan (waits p) (items r)).2 t := by
            have hr' := hr.trans ((List.suffix_append word rest).trans hsuffix)
            refine ih ?_ (hwithin.suffix (hsub hr')) (space_last_suffix hr' hpre) p
            have := hr.length_le
            rw [List.length_append] at hlt ⊢
            omega
          have hrest := (List.suffix_append word rest).trans hsuffix
          rw [scan_word hs hread]
          cases pending with
          | true =>
              rw [address_words_waiting hread', if_neg (by simp [hne]),
                address_words_ignore ht (hwithin.taken _ (hsub hrest)) (hnext false)]
              rfl
          | false =>
              have hidle : waits false = .idle := rfl
              rw [address_words_idle hread', hidle, token]
              split_ifs with hskip hserver
              · refine address_words_ignore ht (hwithin.skipped word _ ?_ hskip) (hnext false)
                rw [← List.append_assoc]
                exact hsub hsuffix
              · exact hnext true rest List.suffix_rfl
              · rw [hnext false rest List.suffix_rfl]
                rfl

/-! ## The providers -/

/-- The providers of a list of address tokens, one for each. -/
def providers (net : Inet) (noipv6 : Bool) (p : proto) : List Str → Result (List provider)
  | [] => .ok []
  | word :: words => do
      let addr ← address.of_text net word default_port
      let rest ← providers net noipv6 p words
      .ok (if addr.inet = .ipv4 ∨ noipv6 = false then ⟨addr, p, none⟩ :: rest else rest)

variable {net : Inet} {noipv6 : Bool} {p : proto}

/-- A word that the loop takes. -/
theorem add_provider_bind (result : List provider) (word : Str) (words : List Str) :
    (do
      let result ← add_provider net noipv6 p result word
      let ps ← providers net noipv6 p words
      .ok (result ++ ps))
      = (do let ps ← providers net noipv6 p (word :: words); .ok (result ++ ps)) := by
  unfold add_provider
  rw [providers]
  cases address.of_text net word default_port with
  | error e => rfl
  | ok addr =>
      cases hps : providers net noipv6 p words with
      | error e => rfl
      | ok ps =>
          simp only [Result.ok_bind]
          split_ifs
          · rw [List.append_assoc, List.singleton_append]
          · rfl

/-- The loop makes providers of the words it takes. -/
theorem from_file_loop_eq {n m : ℕ} {f : Str} (hn : f.length < n) (hm : f.length < m)
    (result : List provider) :
    from_file_loop net noipv6 p n f result
      = (do let ps ← providers net noipv6 p (address_words m false f); .ok (result ++ ps)) := by
  have hnil (result : List provider) {words : List Str} (hwords : words = []) : Except.ok result
      = (do let ps ← providers net noipv6 p words; .ok (result ++ ps)) := by
    rw [hwords, providers, Result.ok_bind, List.append_nil]
  induction n generalizing m f result with
  | zero => exact absurd hn (Nat.not_lt_zero _)
  | succ n ih =>
      obtain ⟨m, rfl⟩ := Nat.exists_eq_add_one.mpr (Nat.zero_lt_of_lt hm)
      rw [from_file_loop]
      cases hread : Str.read_word f with
      | none =>
          refine hnil result ?_
          rw [address_words, hread]
      | some a =>
          obtain ⟨word, rest⟩ := a
          have hlt := Str.read_word_length_lt hread
          have hskip := Str.ignore_length_le 100000 '\n' rest
          rw [address_words_idle hread]
          dsimp only
          by_cases hskips : Skips word
          · have hcond : word.head? = some '#' ∨ word ∈ resolv_key := hskips
            rw [if_pos hcond, if_pos hskips]
            exact ih (by omega) (by omega) result
          · have hcond : ¬ (word.head? = some '#' ∨ word ∈ resolv_key) := hskips
            rw [if_neg hcond, if_neg hskips]
            by_cases hserver : word = "nameserver".toList
            · -- the loop reads a second word at once
              obtain ⟨m, rfl⟩ := Nat.exists_eq_add_one.mpr (show 0 < m by omega)
              rw [if_pos hserver, if_pos hserver]
              cases hread' : Str.read_word rest with
              | none =>
                  refine hnil result ?_
                  rw [address_words, hread']
              | some b =>
                  obtain ⟨word', rest'⟩ := b
                  have hlt' := Str.read_word_length_lt hread'
                  have hskip' := Str.ignore_length_le 100000000000 '\n' rest'
                  rw [address_words_waiting hread']
                  dsimp only
                  by_cases hend : rest' = []
                  · rw [if_pos hend, if_pos hend]
                    exact hnil result rfl
                  · rw [if_neg hend, if_neg hend, ← add_provider_bind]
                    exact bind_congr fun result' => ih (by omega) (by omega) result'
            · rw [if_neg hserver, if_neg hserver, ← add_provider_bind]
              exact bind_congr fun result' => ih (by omega) (by omega) result'

/-- The text up to its last white space. -/
def front (text : Str) : Str := text.rdropWhile fun c => !Str.is_space c

/-- The word that ends the text, if there is no white space behind it. -/
def back (text : Str) : Str := text.rtakeWhile fun c => !Str.is_space c

theorem front_append_back (text : Str) : front text ++ back text = text :=
  List.rdropWhile_append_rtakeWhile

theorem front_getLast (text : Str) :
    ∀ c, (front text).getLast? = some c → Str.is_space c = true := by
  intro c hc
  have hne : front text ≠ [] := by
    intro h
    rw [h] at hc
    exact absurd hc (by simp)
  have hlast := List.rdropWhile_last_not (fun c => !Str.is_space c) text hne
  have hc' : (front text).getLast hne = c := by
    rw [List.getLast?_eq_some_getLast hne] at hc
    exact Option.some.inj hc
  change ¬ ((!Str.is_space ((front text).getLast hne)) = true) at hlast
  rw [hc'] at hlast
  simpa using hlast

theorem back_no_space (text : Str) : ∀ c ∈ back text, Str.is_space c = false := by
  intro c hc
  simpa using List.mem_rtakeWhile_imp hc

/-- The text ends in the word that a `nameserver` takes. -/
def Lost (text : Str) : Prop := back text ≠ [] ∧ (scan .idle (items (front text))).2 = .waiting

instance (text : Str) : Decidable (Lost text) := inferInstanceAs (Decidable (_ ∧ _))

/-- The word that ends the text is one more item. -/
theorem tokens_eq (text : Str) :
    tokens text = tokens (front text) ++ if back text = [] then []
      else (token (scan .idle (items (front text))).2 (back text)).1 := by
  unfold tokens
  nth_rewrite 1 [← front_append_back text]
  split_ifs with hback
  · rw [hback, List.append_nil, List.append_nil]
  · rw [items_append_word (front_getLast text) hback (back_no_space text), scan_append, scan, scan,
      List.append_nil]

/-- **What `from_file` reads**: all address tokens, but not the one that is lost. -/
theorem from_file_eq {text : Str} (hwithin : Within text) :
    from_file net text noipv6 p
      = providers net noipv6 p (if Lost text then tokens (front text) else tokens text) := by
  have hloop : from_file net text noipv6 p
      = providers net noipv6 p (address_words (text.length + 1) false text) := by
    unfold from_file
    rw [from_file_loop_eq (Nat.lt_succ_self _) (Nat.lt_succ_self _)]
    cases providers net noipv6 p (address_words (text.length + 1) false text) <;> rfl
  have hwords : address_words (text.length + 1) false text = tokens (front text)
      ++ last_word (scan .idle (items (front text))).2 (back text) := by
    have hparts := front_append_back text
    have hlen : (front text ++ back text).length < text.length + 1 := by
      rw [hparts]
      exact Nat.lt_succ_self _
    rw [← hparts] at hwithin
    have h := address_words_eq hlen hwithin (front_getLast text) (back_no_space text) false
    rwa [hparts] at h
  rw [hloop, hwords]
  refine congrArg _ ?_
  by_cases hlost : Lost text
  · rw [if_pos hlost, last_word, if_pos (Or.inr hlost.2), List.append_nil]
  · rw [if_neg hlost, tokens_eq text, last_word]
    by_cases hback : back text = []
    · rw [if_pos (Or.inl hback), if_pos hback]
    · have hnot : (scan .idle (items (front text))).2 ≠ .waiting := fun h => hlost ⟨hback, h⟩
      rw [if_neg (not_or.mpr ⟨hback, hnot⟩), if_neg hback]

/-! ## The end of the text -/

/-- An end of line behind the text adds nothing. -/
theorem tokens_line_feed (text : Str) : tokens (text ++ ['\n']) = tokens text := by
  have hnil : items ([] : Str) = [] := rfl
  unfold tokens
  rw [items_append_line_feed, hnil, scan_append]
  exact List.append_nil _

/-- And then no address is lost. -/
theorem not_lost_line_feed (text : Str) : ¬ Lost (text ++ ['\n']) := by
  intro h
  exact h.1 (List.rtakeWhile_concat_neg _ _ _ (by decide))

theorem takeWhile_line_feed (r : Str) : ((r ++ ['\n']).takeWhile fun c => c != '\n')
    = r.takeWhile fun c => c != '\n' := by
  induction r with
  | nil => rfl
  | cons c r ih => rw [List.cons_append, List.takeWhile_cons, List.takeWhile_cons, ih]

/-- The lines are as long as before. -/
theorem Within.line_feed {text : Str} (h : Within text) : Within (text ++ ['\n']) := by
  -- a part of the text that is not empty has the end of the line in it
  have hpart {x rest : Str} (hne : rest ≠ []) (hrest : x ++ rest <:+ text ++ ['\n']) :
      ∃ r, x ++ r <:+ text ∧
        (rest.takeWhile fun c => c != '\n') = r.takeWhile fun c => c != '\n' := by
    obtain ⟨r, c, rfl⟩ := (List.eq_nil_or_concat rest).resolve_left hne
    obtain ⟨y, hy⟩ := hrest
    rw [List.concat_eq_append, ← List.append_assoc, ← List.append_assoc] at hy
    obtain ⟨htext, hc⟩ := List.append_inj' hy rfl
    refine ⟨r, ⟨y, by rw [← htext, List.append_assoc]⟩, ?_⟩
    rw [(List.cons.inj hc).1, List.concat_eq_append]
    exact takeWhile_line_feed r
  constructor
  · intro word rest hrest hskips
    by_cases hne : rest = []
    · rw [hne]
      exact Nat.zero_le _
    · obtain ⟨r, hr, htake⟩ := hpart hne hrest
      rw [htake]
      exact h.skipped word r hr hskips
  · intro rest hrest
    by_cases hne : rest = []
    · rw [hne]
      exact Nat.zero_le _
    · obtain ⟨r, hr, htake⟩ := hpart (x := []) hne hrest
      rw [htake]
      exact h.taken r hr

/-! ## Which texts are read -/

/-- `word` is no address. -/
def NoAddress (net : Inet) (word : Str) : Prop :=
  ∀ addr, address.of_text net word default_port ≠ .ok addr

/-- One provider is returned for each address token, in order, those for IPv6 left out with
`noipv6`; nothing is returned exactly when one of them is no address; and it makes no
difference whether the last line is ended. -/
structure Reads (net : Inet) (text : Str) (noipv6 : Bool) (p : proto) : Prop where
  returns : ∀ addrs,
    List.Forall₂ (fun word addr => address.of_text net word default_port = .ok addr)
      (tokens text) addrs →
    from_file net text noipv6 p = .ok ((addrs.filter fun addr =>
      addr.inet = .ipv4 ∨ noipv6 = false).map fun addr => ⟨addr, p, none⟩)
  throws : (∃ e, from_file net text noipv6 p = .error e) ↔ ∃ word ∈ tokens text, NoAddress net word
  line_feed : from_file net (text ++ ['\n']) noipv6 p = from_file net text noipv6 p

/-- All words are addresses. -/
theorem providers_eq_ok {words : List Str} {addrs : List address}
    (h : List.Forall₂ (fun word addr => address.of_text net word default_port = .ok addr)
      words addrs) :
    providers net noipv6 p words = .ok ((addrs.filter fun addr =>
      addr.inet = .ipv4 ∨ noipv6 = false).map fun addr => ⟨addr, p, none⟩) := by
  induction h with
  | nil => rfl
  | cons hword _ ih =>
      rw [providers, hword, Result.ok_bind, ih, Result.ok_bind, List.filter_cons]
      split_ifs with h₁ h₂ h₃
      · rfl
      · exact absurd (decide_eq_true h₁) h₂
      · exact absurd (of_decide_eq_true h₃) h₁
      · rfl

/-- A word that is no address, or not. -/
theorem of_text_cases (net : Inet) (word : Str) :
    (∃ addr, address.of_text net word default_port = .ok addr) ∨
      NoAddress net word ∧ ∃ e, address.of_text net word default_port = .error e := by
  cases h : address.of_text net word default_port with
  | ok addr => exact Or.inl ⟨addr, rfl⟩
  | error e =>
      refine Or.inr ⟨fun addr haddr => ?_, e, rfl⟩
      rw [h] at haddr
      exact absurd haddr (by simp)

/-- One of them is none. -/
theorem providers_eq_error {words : List Str} :
    (∃ e, providers net noipv6 p words = .error e) ↔ ∃ word ∈ words, NoAddress net word := by
  induction words with
  | nil => simp [providers]
  | cons word words ih =>
      rw [providers, List.exists_mem_cons_iff, ← ih]
      obtain ⟨addr, hword⟩ | ⟨hnone, e, hword⟩ := of_text_cases net word
      · have hno : ¬ NoAddress net word := fun h => h addr hword
        rw [hword, Result.ok_bind]
        cases providers net noipv6 p words with
        | error e => simp
        | ok ps => simp [hno]
      · rw [hword, Result.error_bind]
        exact iff_of_true ⟨e, rfl⟩ (Or.inl hnone)

/-- One word more. -/
theorem providers_concat (words : List Str) (word : Str) :
    providers net noipv6 p (words ++ [word]) = (do
      let ps ← providers net noipv6 p words
      let addr ← address.of_text net word default_port
      .ok (if addr.inet = .ipv4 ∨ noipv6 = false then ps ++ [⟨addr, p, none⟩] else ps)) := by
  induction words with
  | nil =>
      rw [List.nil_append, providers, providers, Result.ok_bind]
      rfl
  | cons w words ih =>
      rw [List.cons_append, providers, providers, ih]
      cases address.of_text net w default_port with
      | error e => rfl
      | ok a =>
          cases providers net noipv6 p words with
          | error e => rfl
          | ok ps =>
              simp only [Result.ok_bind]
              cases address.of_text net word default_port with
              | error e => rfl
              | ok b =>
                  simp only [Result.ok_bind]
                  split_ifs <;> rfl

/-- When a word more makes no difference. -/
theorem providers_concat_eq_iff (words : List Str) (word : Str) :
    providers net noipv6 p words = providers net noipv6 p (words ++ [word]) ↔
      (∃ w ∈ words, NoAddress net w) ∨
      (noipv6 = true ∧ ∃ addr, address.of_text net word default_port = .ok addr ∧
        addr.inet = .ipv6) := by
  rw [providers_concat, ← @providers_eq_error net noipv6 p words]
  cases providers net noipv6 p words with
  | error e => exact iff_of_true rfl (Or.inl ⟨e, rfl⟩)
  | ok ps =>
      have hnone : ¬ ∃ e, (Except.ok ps : Result (List provider)) = .error e := by simp
      rw [or_iff_right hnone, Result.ok_bind]
      obtain ⟨addr, hword⟩ | ⟨hno, e, hword⟩ := of_text_cases net word
      · rw [hword, Result.ok_bind]
        constructor
        · intro h
          split_ifs at h with hkept
          · exact absurd (Except.ok.inj h) (by simp)
          · rw [not_or] at hkept
            refine ⟨by simpa using hkept.2, addr, rfl, ?_⟩
            cases hinet : addr.inet with
            | ipv4 => exact absurd hinet hkept.1
            | ipv6 => rfl
        · rintro ⟨hno, addr', haddr, hinet⟩
          rw [← Except.ok.inj haddr] at hinet
          rw [if_neg (by simp [hno, hinet])]
      · rw [hword, Result.error_bind]
        refine iff_of_false (by simp) ?_
        rintro ⟨-, addr, haddr, -⟩
        exact hno addr (hword.trans haddr)

/-- **When a text is read**: always, but for the one that ends in the word behind a
`nameserver`, and then if that word is not looked at or its address is left out. -/
theorem from_file_iff {text : Str} (hwithin : Within text) :
    Reads net text noipv6 p ↔ (Lost text → (∃ word ∈ tokens (front text), NoAddress net word) ∨
      (noipv6 = true ∧ ∃ addr, address.of_text net (back text) default_port = .ok addr ∧
        addr.inet = .ipv6)) := by
  have hended : from_file net (text ++ ['\n']) noipv6 p = providers net noipv6 p (tokens text) := by
    rw [from_file_eq hwithin.line_feed, if_neg (not_lost_line_feed text), tokens_line_feed]
  have hreads : Reads net text noipv6 p ↔
      from_file net text noipv6 p = providers net noipv6 p (tokens text) := by
    constructor
    · intro h
      rw [← h.line_feed, hended]
    · intro h
      refine ⟨fun addrs haddrs => ?_, ?_, hended.trans h.symm⟩
      · rw [h, providers_eq_ok haddrs]
      · rw [h, providers_eq_error]
  rw [hreads, from_file_eq hwithin]
  by_cases hlost : Lost text
  · have htokens : tokens text = tokens (front text) ++ [back text] := by
      rw [tokens_eq, if_neg hlost.1, hlost.2]
      rfl
    rw [if_pos hlost, htokens, providers_concat_eq_iff]
    exact ⟨fun h _ => h, fun h => h hlost⟩
  · rw [if_neg hlost]
    exact iff_of_true rfl fun h => absurd h hlost

/-- A file with one resolver and a comment. -/
theorem from_file_iff_sample :
    Reads address.sampleNet "nameserver 9.9.9.9 # quad\n".toList false .udp :=
  (from_file_iff (within_of_lines (by decide))).mpr fun h => absurd h.1 (by decide)

/-- **The last line without its end**: the address behind `nameserver` is lost. -/
theorem from_file_loses : Within "nameserver 9.9.9.9".toList ∧
    from_file address.sampleNet "nameserver 9.9.9.9".toList false .udp = .ok [] ∧
      ¬ Reads address.sampleNet "nameserver 9.9.9.9".toList false .udp := by
  refine ⟨within_of_lines (by decide), rfl, fun h => ?_⟩
  have hended : from_file address.sampleNet ("nameserver 9.9.9.9".toList ++ ['\n']) false .udp
      = .ok [⟨⟨.ipv4, [9, 9, 9, 9], 53, rfl⟩, .udp, none⟩] := rfl
  have hsame := hended.symm.trans h.line_feed
  exact absurd (Except.ok.inj hsame) (by simp)

/-- **After a reload** the responder has the providers of the file, if that can be read. -/
theorem dns_providers_of_reload {d : Disk} {params : responder_parameters} {r : responder}
    (hwithin : Within (d.text params.resolvers)) (hlost : ¬ Lost (d.text params.resolvers))
    {addrs : List address} (haddrs : List.Forall₂
      (fun word addr => address.of_text d.net word default_port = .ok addr)
      (tokens (d.text params.resolvers)) addrs) :
    (reload d params r).1.dns_providers
      = (addrs.filter fun addr => addr.inet = .ipv4 ∨ params.noipv6 = false).map
        fun addr => ⟨addr, params.net_proto, none⟩ := by
  have hread : resolvers_of d params
      = .ok ((addrs.filter fun addr => addr.inet = .ipv4 ∨ params.noipv6 = false).map
        fun addr => ⟨addr, params.net_proto, none⟩) := by
    rw [resolvers_of, from_file_eq hwithin, if_neg hlost, providers_eq_ok haddrs]
  rw [reload_dns_providers, resolvers_after, hread]

end responder

end Cdns
