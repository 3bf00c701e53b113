/-
`dns::filter` (`dns/filter.hxx`, `dns/srcz/filter.cpp`): black and white lists.

A list is a text of rules. A rule is a word: an exact host name, a suffix
(`*.d` or `.d`), a prefix (`p.*`) or a substring (`*s*`). The class keeps the
rules in four containers, prunes each rule against its own container when it is
inserted, and prunes the four containers against each other in `optimize`.

The two ordered containers are `WordSet`s: `std::set` keeps them sorted, and that
no member covers another is what `words_insert` maintains. The two hash sets are
`HashSet`s, whose iteration order is a parameter (`Placement`) of every operation
that inserts.

`comp` and `rev_comp` compare `char`s, whose signedness depends on the platform;
the order below is that of the character codes. Nothing but "a strict total order
on characters" is used of it.
-/
import Cdns.Exn
import Cdns.Lib.CoverSet
import Cdns.Lib.Unordered
import Cdns.Str

set_option autoImplicit false

namespace Cdns

open Lib.CoverSet Lib.Unordered

/-! ## The two orders -/

namespace detail

/-- `detail::contains <comp>`: `shorter` is a prefix of `longer`. -/
def contains_comp (longer shorter : Str) : Bool :=
  shorter.length ≤ longer.length && longer.take shorter.length == shorter

/-- `detail::contains <rev_comp>`: `shorter` is a suffix of `longer`. -/
def contains_rev_comp (longer shorter : Str) : Bool :=
  shorter.length ≤ longer.length && longer.drop (longer.length - shorter.length) == shorter

theorem contains_comp_iff {longer shorter : Str} :
    contains_comp longer shorter = true ↔ shorter <+: longer := by
  simp only [contains_comp, Bool.and_eq_true, decide_eq_true_eq, beq_iff_eq]
  constructor
  · rintro ⟨-, h⟩
    exact List.prefix_iff_eq_take.mpr h.symm
  · intro h
    exact ⟨h.length_le, (List.prefix_iff_eq_take.mp h).symm⟩

theorem contains_rev_comp_iff {longer shorter : Str} :
    contains_rev_comp longer shorter = true ↔ shorter <:+ longer := by
  simp only [contains_rev_comp, Bool.and_eq_true, decide_eq_true_eq, beq_iff_eq]
  constructor
  · rintro ⟨-, h⟩
    exact List.suffix_iff_eq_drop.mpr h.symm
  · intro h
    exact ⟨h.length_le, (List.suffix_iff_eq_drop.mp h).symm⟩

end detail

/-- Whatever lies between a word and one of its extensions extends the word. -/
theorem prefix_of_between {p x z : Str} (hpz : p <+: z) (hpx : ¬ x < p) (hxz : ¬ z < x) :
    p <+: x := by
  induction p generalizing x z with
  | nil => exact List.nil_prefix
  | cons a p ih =>
      obtain ⟨z', rfl, hpz'⟩ : ∃ z', z = a :: z' ∧ p <+: z' := by
        cases z with
        | nil => exact absurd hpz (by simp)
        | cons b z' =>
            obtain ⟨rfl, h⟩ := List.cons_prefix_cons.mp hpz
            exact ⟨z', rfl, h⟩
      cases x with
      | nil => exact absurd (List.nil_lt_cons a p) hpx
      | cons b x =>
          rw [List.cons_lt_cons_iff, not_or, not_and] at hpx hxz
          obtain rfl : a = b := le_antisymm (not_lt.mp hpx.1) (not_lt.mp hxz.1)
          exact List.cons_prefix_cons.mpr ⟨rfl, ih hpz' (hpx.2 rfl) (hxz.2 rfl)⟩

theorem not_lt_of_prefix {p x : Str} (h : p <+: x) : ¬ x < p := by
  obtain ⟨t, rfl⟩ := h
  induction p with
  | nil => exact List.not_lt_nil _
  | cons a p ih =>
      rw [List.cons_append, List.cons_lt_cons_iff]
      rintro (h | ⟨-, h⟩)
      · exact lt_irrefl a h
      · exact ih h

/-- Words get strictly longer under an order that only ever extends them, so
there is no endless chain of covering words. -/
theorem wellFounded_of_length {r : Str → Str → Prop}
    (h : ∀ x y, r x y → x.length ≤ y.length)
    (heq : ∀ x y, r x y → x.length = y.length → x = y) :
    WellFounded fun x y : Str => r x y ∧ x ≠ y := by
  refine Subrelation.wf (r := fun x y : Str => x.length < y.length) ?_
    (InvImage.wf List.length Nat.lt_wfRel.wf)
  rintro x y ⟨hxy, hne⟩
  exact lt_of_le_of_ne (h x y hxy) fun hl => hne (heq x y hxy hl)

/-- `dns::comp`, with the covering test `contains <comp>`. -/
def comp : Order Str where
  lt a b := decide (a < b)
  covers p x := detail.contains_comp x p
  covering := by
    simp only [detail.contains_comp_iff]
    exact {
      refl := List.prefix_refl
      trans := fun h₁ h₂ => h₁.trans h₂
      antisymm := fun h₁ h₂ => h₁.eq_of_length (le_antisymm h₁.length_le h₂.length_le)
      wf := wellFounded_of_length (fun _ _ h => h.length_le) fun _ _ h => h.eq_of_length }
  lt_irrefl x := by simp
  lt_trans h₁ h₂ := by
    simp only [decide_eq_true_eq] at *
    exact lt_trans h₁ h₂
  lt_connex h₁ h₂ := by
    simp only [decide_eq_false_iff_not, not_lt] at *
    exact le_antisymm h₂ h₁
  le_of_covers h := by
    simp only [decide_eq_false_iff_not]
    exact not_lt_of_prefix (detail.contains_comp_iff.mp h)
  convex h₁ h₂ h₃ := by
    simp only [decide_eq_false_iff_not] at *
    exact detail.contains_comp_iff.mpr (prefix_of_between (detail.contains_comp_iff.mp h₁) h₂ h₃)

/-- `dns::rev_comp`, with the covering test `contains <rev_comp>`: the same order
read from the end of the words. -/
def rev_comp : Order Str where
  lt a b := decide (a.reverse < b.reverse)
  covers p x := detail.contains_rev_comp x p
  covering := by
    simp only [detail.contains_rev_comp_iff]
    exact {
      refl := List.suffix_refl
      trans := fun h₁ h₂ => h₁.trans h₂
      antisymm := fun h₁ h₂ => h₁.eq_of_length (le_antisymm h₁.length_le h₂.length_le)
      wf := wellFounded_of_length (fun _ _ h => h.length_le) fun _ _ h => h.eq_of_length }
  lt_irrefl x := by simp
  lt_trans h₁ h₂ := by
    simp only [decide_eq_true_eq] at *
    exact lt_trans h₁ h₂
  lt_connex h₁ h₂ := by
    simp only [decide_eq_false_iff_not, not_lt] at *
    exact List.reverse_injective (le_antisymm h₂ h₁)
  le_of_covers h := by
    simp only [decide_eq_false_iff_not]
    exact not_lt_of_prefix (List.reverse_prefix.mpr (detail.contains_rev_comp_iff.mp h))
  convex h₁ h₂ h₃ := by
    simp only [decide_eq_false_iff_not] at *
    have h := List.reverse_prefix.mpr (detail.contains_rev_comp_iff.mp h₁)
    exact detail.contains_rev_comp_iff.mpr (List.reverse_prefix.mp (prefix_of_between h h₂ h₃))

/-- Substrings as a redundancy order. -/
theorem infix_covering : Covering fun s x : Str => s <:+: x where
  refl := List.infix_refl
  trans h₁ h₂ := h₁.trans h₂
  antisymm h₁ h₂ := h₁.eq_of_length (le_antisymm h₁.length_le h₂.length_le)
  wf := wellFounded_of_length (fun _ _ h => h.length_le) fun _ _ h => h.eq_of_length

/-! ## The container operations -/

namespace detail

/-- `detail::words_match`: the neighbour before `upper_bound` covers the word. -/
def words_match {O : Order Str} (words : WordSet O) (str : Str) : Bool := words.matchesWord str

/-- `detail::words_insert`. -/
def words_insert {O : Order Str} (words : WordSet O) (w : Str) : WordSet O := words.insertWord w

/-- `detail::substr_match`. -/
def substr_match (subs : HashSet Str) (str : Str) : Bool :=
  subs.elems.any fun s => s.length ≤ str.length && Str.contains str s

/-- The loop of `detail::substr_insert`; `seen` is what the iterator has passed.
An element that `w` contains ends the loop with nothing changed. The first
element that contains `w` is erased with all later ones that do, and `w` is then
inserted among the rest. -/
def substr_scan (w : Str) (seen : List Str) : List Str → Option (List Str)
  | [] => some seen
  | i :: rest =>
      if Str.contains w i then none
      else if Str.contains i w then some (seen ++ rest.filter fun j => !Str.contains j w)
      else substr_scan w (seen ++ [i]) rest

theorem substr_scan_eq_some {w : Str} {seen l kept : List Str}
    (h : substr_scan w seen l = some kept) :
    kept = seen ++ l.filter fun j => !Str.contains j w := by
  induction l generalizing seen with
  | nil => simpa [substr_scan, eq_comm] using h
  | cons i rest ih =>
      rw [substr_scan] at h
      split_ifs at h with h₁ h₂
      · rw [List.filter_cons_of_neg (by simpa using h₂)]
        exact (Option.some.inj h).symm
      · rw [ih h, List.filter_cons_of_pos (by simpa using h₂), List.append_assoc,
          List.singleton_append]

/-- `detail::substr_insert`. -/
def substr_insert (H : Placement Str) (subs : HashSet Str) (w : Str) : HashSet Str :=
  match h : substr_scan w [] subs.elems with
  | none => subs
  | some kept =>
      HashSet.insert H ⟨kept, by rw [substr_scan_eq_some h]; exact subs.nodup.filter _⟩ w

end detail

/-! ## The class -/

/-- `dns::filter`. -/
structure Filter where
  prefix_ : WordSet comp
  suffix_ : WordSet rev_comp
  substrings_ : HashSet Str
  exact_ : HashSet Str

/-- `enum class filters`. -/
inductive filters where
  | exact
  | prefix_
  | suffix
  | substring
  deriving Repr, DecidableEq

/-- A rule as the constructor reads it off a word. -/
structure Rule where
  filter_type : filters
  body : Str
  deriving Repr, DecidableEq

namespace Filter

def MAX_QNAME_LENGTH : ℕ := 1024

/-- `filter()`. -/
def empty : Filter := ⟨WordSet.empty, WordSet.empty, HashSet.empty, HashSet.empty⟩

/-- `filter::count`. -/
def count (f : Filter) : ℕ :=
  f.suffix_.elems.length + f.prefix_.elems.length + f.substrings_.elems.length
    + f.exact_.elems.length

/-- `if ('.' != str.front()) str.insert (str.begin(), '.')`. -/
def front_dot (str : Str) : Str := if str.head? = some '.' then str else '.' :: str

/-- `if ('.' != str.back()) str.push_back ('.')`. -/
def back_dot (str : Str) : Str := if str.getLast? = some '.' then str else str ++ ['.']

/-- `if ('.' == str.front()) str.erase (str.begin())`. -/
def erase_front_dot (str : Str) : Str := if str.head? = some '.' then str.tail else str

/-- `filter::match`. -/
def match_ (f : Filter) (hostname : Str) : Result Bool :=
  let len := hostname.length
  if len > MAX_QNAME_LENGTH then
    .error (.runtime_error ("too long host name: " ++ String.ofList hostname))
  else
    let name := if len > 1 ∧ hostname.getLast? = some '.' then hostname.dropLast else hostname
    if name = [] then
      .error (.runtime_error ("too short host name: " ++ String.ofList hostname))
    else
      let low := ascii_tolower name
      if f.exact_.elems.contains low then .ok true
      else
        let low := front_dot low
        if detail.words_match f.suffix_ low then .ok true
        else
          let low := back_dot low
          if detail.substr_match f.substrings_ low then .ok true
          else .ok (detail.words_match f.prefix_ (erase_front_dot low))

/-- `filter::optimize`: suffixes and prefixes that a substring makes redundant
go, then exact names that anything left makes redundant. -/
def optimize (f : Filter) : Filter :=
  let suffix := f.suffix_.filter fun d => !detail.substr_match f.substrings_ (back_dot d)
  let prefixes := f.prefix_.filter fun d => !detail.substr_match f.substrings_ (front_dot d)
  let exact := f.exact_.filter fun w =>
    !(detail.words_match suffix (front_dot w)
      || detail.substr_match f.substrings_ (back_dot (front_dot w))
      || detail.words_match prefixes (erase_front_dot (back_dot (front_dot w))))
  { f with suffix_ := suffix, prefix_ := prefixes, exact_ := exact }

/-- The classification of a word by its asterisks and its first character. The
body is what `word_cstr` points to afterwards. -/
def classify (word : Str) : Rule :=
  if word.head? = some '*' ∧ word.getLast? = some '*' then
    ⟨.substring, Str.c_str (word.dropLast.drop 1)⟩
  else if word.getLast? = some '*' then ⟨.prefix_, Str.c_str word.dropLast⟩
  else
    let word_cstr := if word.head? = some '*' then word.drop 1 else word
    if word_cstr.head? = some '.' then ⟨.suffix, Str.c_str word_cstr⟩
    else ⟨.exact, Str.c_str word_cstr⟩

/-- The container a rule goes to. -/
def insert_rule (H : Placement Str) (f : Filter) (filter_type : filters) (word : Str) : Filter :=
  match filter_type with
  | .exact => { f with exact_ := f.exact_.insert H word }
  | .suffix => { f with suffix_ := detail.words_insert f.suffix_ word }
  | .prefix_ => { f with prefix_ := detail.words_insert f.prefix_ word }
  | .substring => { f with substrings_ := detail.substr_insert H f.substrings_ word }

/-- One turn of the constructor's loop, for a word that does not start a
comment. -/
def add_word (H : Placement Str) (f : Filter) (word : Str) : Result Filter :=
  if word.length > MAX_QNAME_LENGTH then
    .error (.runtime_error ("Too long filter entry: " ++ String.ofList word))
  else
    let rule := classify word
    if rule.body = [] then .ok f
    else .ok (insert_rule H f rule.filter_type (ascii_tolower rule.body))

/-- The words of a text that are rules: a word that starts with `#` hides the
rest of its line. The count bounds the number of words and is no restriction
when it exceeds the length of the text (`rule_words_of_read`). -/
def rule_words_loop : ℕ → Str → List Str
  | 0, _ => []
  | n + 1, text =>
      match Str.read_word text with
      | none => []
      | some (word, rest) =>
          if word.head? = some '#' then rule_words_loop n (Str.ignore 10000000 '\n' rest)
          else word :: rule_words_loop n rest

/-- The rules of a text, in order. -/
def rule_words (text : Str) : List Str := rule_words_loop (text.length + 1) text

/-- `filter::filter (std::istream &&)`. -/
def of_stream (H : Placement Str) (text : Str) : Result Filter := do
  let f ← (rule_words text).foldlM (add_word H) empty
  return f.optimize

/-- `filter::merge`. -/
def merge (H : Placement Str) (f other : Filter) : Filter :=
  let prefixes := if f.prefix_.elems = [] then other.prefix_
    else other.prefix_.elems.foldl detail.words_insert f.prefix_
  let suffix := if f.suffix_.elems = [] then other.suffix_
    else other.suffix_.elems.foldl detail.words_insert f.suffix_
  let substrings := if f.substrings_.elems = [] then other.substrings_
    else other.substrings_.elems.foldl (detail.substr_insert H) f.substrings_
  let exact := if f.exact_.elems = [] then other.exact_
    else other.exact_.elems.foldl (HashSet.insert H) f.exact_
  optimize ⟨prefixes, suffix, substrings, exact⟩

/-! ## The reading loop -/

theorem rule_words_loop_mono {n : ℕ} {text : Str} (h : text.length < n) (m : ℕ) :
    rule_words_loop (n + m) text = rule_words_loop n text := by
  induction n generalizing text with
  | zero => omega
  | succ n ih =>
      rw [Nat.add_right_comm, rule_words_loop, rule_words_loop]
      cases hr : Str.read_word text with
      | none => rfl
      | some p =>
          obtain ⟨word, rest⟩ := p
          have hlt := Str.read_word_length_lt hr
          have hig := Str.ignore_length_le 10000000 '\n' rest
          dsimp only
          rw [ih (by omega), ih (by omega)]

/-- The loop reads on to the end of the text: what follows a word is read as a
text of its own. -/
theorem rule_words_of_read {text word rest : Str} (h : Str.read_word text = some (word, rest)) :
    rule_words text = if word.head? = some '#' then rule_words (Str.ignore 10000000 '\n' rest)
      else word :: rule_words rest := by
  have hlt := Str.read_word_length_lt h
  have hig := Str.ignore_length_le 10000000 '\n' rest
  have hfuel : ∀ t : Str, t.length < text.length → rule_words_loop text.length t = rule_words t := by
    intro t ht
    obtain ⟨m, hm⟩ : ∃ m, text.length = t.length + 1 + m := ⟨text.length - (t.length + 1), by omega⟩
    rw [hm, rule_words_loop_mono (by omega) m, rule_words]
  rw [rule_words, rule_words_loop, h]
  dsimp only
  rw [hfuel _ (by omega), hfuel _ (by omega)]

end Filter

end Cdns
