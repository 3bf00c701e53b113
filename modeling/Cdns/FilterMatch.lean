/-
What a filter matches.

A list is written in four forms. `Form` is a rule as its author thinks of it,
with the text it is written as and the names it covers; nothing of the
containers, the pruning or the dots that the class adds appears in it. The
result of the file, `match_iff_covers`, says that `filter::match` on the filter
read from a text answers whether some rule of the text covers the name.
-/
import Cdns.FilterSpec

set_option autoImplicit false

namespace Cdns.Filter

open Lib.CoverSet Lib.Unordered

/-! ## Rules as they are written -/

/-- A rule of a list. -/
inductive Form where
  /-- `w` -/
  | exact (w : Str)
  /-- `.d`, or `*.d` when `star` is set; `d` includes the dot -/
  | suffix (star : Bool) (d : Str)
  /-- `p*` -/
  | prefix_ (p : Str)
  /-- `*s*` -/
  | substring (s : Str)
  deriving Repr, DecidableEq

namespace Form

/-- The word a rule is written as. -/
def text : Form → Str
  | exact w => w
  | suffix false d => d
  | suffix true d => '*' :: d
  | prefix_ p => p ++ ['*']
  | substring s => '*' :: (s ++ ['*'])

/-- The rule without its asterisks. -/
def body : Form → Str
  | exact w => w
  | suffix _ d => d
  | prefix_ p => p
  | substring s => s

/-- The asterisks and dots stand where the form says, which is what the
assertions of the constructor and of `optimize` ask for. -/
def Shape : Form → Prop
  | exact w => w.head? ≠ some '*' ∧ w.getLast? ≠ some '*' ∧ w.head? ≠ some '.'
  | suffix _ d => d.head? = some '.' ∧ d.getLast? ≠ some '*'
  | prefix_ p => p.head? ≠ some '*' ∧ p.getLast? = some '.'
  | substring _ => True

/-- A rule the constructor takes: it has a body, without NUL characters, and is
not too long. That it is one word and no comment is part of `rule_words` having
read it. -/
structure WellFormed (r : Form) : Prop where
  body_ne : r.body ≠ []
  no_nul : '\x00' ∉ r.body
  short : r.text.length ≤ MAX_QNAME_LENGTH
  shape : r.Shape

/-- The rule covers the lower-case name `h`, which has no dot at either end. -/
def Covers (h : Str) : Form → Prop
  | exact w => h = ascii_tolower w
  | suffix _ d => ascii_tolower d <:+ '.' :: h
  | prefix_ p => ascii_tolower p <+: h ++ ['.']
  | substring s => ascii_tolower s <:+: '.' :: (h ++ ['.'])

/-- The container the rule goes to. -/
def kind : Form → filters
  | exact _ => .exact
  | suffix _ _ => .suffix
  | prefix_ _ => .prefix_
  | substring _ => .substring

/-- The constructor reads a written rule as what it says. -/
theorem classify_text {r : Form} (h : r.WellFormed) : classify r.text = ⟨r.kind, r.body⟩ := by
  have hc := Str.c_str_of_no_nul h.no_nul
  obtain ⟨hne, -, -, hshape⟩ := h
  -- one case for each way a rule is written; the stars are what tells them apart
  cases r with
  | exact w =>
      obtain ⟨h₁, h₂, h₃⟩ := hshape
      show classify w = ⟨.exact, w⟩
      simp only [classify, h₁, h₂, h₃, false_and, if_false]
      exact congrArg _ hc
  | suffix star d =>
      obtain ⟨h₁, h₂⟩ := hshape
      cases star with
      | false =>
          have hstar : d.head? ≠ some '*' := by
            rw [h₁]
            decide
          show classify d = ⟨.suffix, d⟩
          rw [classify, if_neg (fun h => hstar h.1), if_neg h₂, if_neg hstar, if_pos h₁]
          exact congrArg _ hc
      | true =>
          have hlast : ('*' :: d).getLast? ≠ some '*' := by
            obtain ⟨c, d, rfl⟩ := List.exists_cons_of_ne_nil hne
            rw [List.getLast?_cons_cons]
            exact h₂
          show classify ('*' :: d) = ⟨.suffix, d⟩
          simp only [classify, hlast, h₁, List.head?_cons, List.drop_one, List.tail_cons, and_false,
            if_false, if_true]
          exact congrArg _ hc
  | prefix_ p =>
      obtain ⟨h₁, -⟩ := hshape
      have hhead : (p ++ ['*']).head? ≠ some '*' := by
        obtain ⟨c, p, rfl⟩ := List.exists_cons_of_ne_nil hne
        exact h₁
      show classify (p ++ ['*']) = ⟨.prefix_, p⟩
      simp only [classify, hhead, List.getLast?_concat, List.dropLast_concat, false_and, if_false,
        if_true]
      exact congrArg _ hc
  | substring s =>
      show classify (('*' :: s) ++ ['*']) = ⟨.substring, s⟩
      rw [classify, if_pos ⟨rfl, List.getLast?_concat ..⟩, List.dropLast_concat, List.drop_one,
        List.tail_cons]
      exact congrArg _ hc

end Form

/-- The rules of a text are those of its written forms. -/
theorem mem_rules_forms {forms : List Form} (hforms : ∀ r ∈ forms, r.WellFormed) {k : filters}
    {b : Str} :
    b ∈ bodies (rules (forms.map Form.text)) k ↔
      ∃ r ∈ forms, r.kind = k ∧ ascii_tolower r.body = b := by
  constructor
  · rintro ⟨w, hw, hrule, -⟩
    obtain ⟨r, hr, rfl⟩ := List.mem_map.mp hw
    rw [rule_of, Form.classify_text (hforms r hr), Rule.mk.injEq] at hrule
    exact ⟨r, hr, hrule.1.symm, hrule.2.symm⟩
  · rintro ⟨r, hr, rfl, rfl⟩
    refine ⟨r.text, List.mem_map_of_mem hr, ?_, ?_⟩
    · rw [rule_of, Form.classify_text (hforms r hr)]
    · rw [ascii_tolower, ne_eq, List.map_eq_nil_iff]
      exact (hforms r hr).body_ne

/-! ## The match -/

/-- The host name without the dot that ends a fully qualified name. -/
def unqualified (hostname : Str) : Str :=
  if hostname.getLast? = some '.' then hostname.dropLast else hostname

/-- `match` asks for the exact name and then for the three kinds of patterns. -/
theorem Canon.match_iff {f : Filter} {R : Set Rule} (hR : WellFormed R) (hf : Canon f R)
    {hostname : Str} (hlen : hostname.length ≤ MAX_QNAME_LENGTH)
    (hne : unqualified hostname ≠ []) (hdot : (unqualified hostname).head? ≠ some '.') :
    ∃ b, f.match_ hostname = .ok b ∧
      (b = true ↔ ascii_tolower (unqualified hostname) ∈ bodies R .exact
        ∨ Redundant R (ascii_tolower (unqualified hostname))) := by
  have hname : (if hostname.length > 1 ∧ hostname.getLast? = some '.' then hostname.dropLast
      else hostname) = unqualified hostname := by
    unfold unqualified at hne ⊢
    split_ifs at hne ⊢ with h₁ h₂ h₃
    · rfl
    · exact absurd h₁.2 h₂
    · -- a single dot has no name before it
      have : hostname.dropLast.length ≠ 0 := fun h => hne (List.length_eq_zero_iff.mp h)
      rw [List.length_dropLast] at this
      exact absurd ⟨by omega, h₃⟩ h₁
    · rfl
  -- from here on everything is about the lower case name
  set low := ascii_tolower (unqualified hostname) with hlow
  have hlow_ne : low ≠ [] := fun h => hne (List.map_eq_nil_iff.mp h)
  have hlow_dot : low.head? ≠ some '.' := fun h => hdot ((head?_tolower (by decide)).mp h)
  have hpat := patterns_match_iff hR hf.substrings hf.prefixes hf.suffix hlow_ne hlow_dot
  -- an exact rule that a pattern covers was removed, and the pattern matches instead
  have hex : f.exact_.elems.contains low = true ↔ low ∈ bodies R .exact ∧ ¬ Redundant R low := by
    rw [List.contains_iff_mem]
    exact hf.exact low
  refine ⟨f.exact_.elems.contains low || (detail.words_match f.suffix_ (front_dot low)
      || detail.substr_match f.substrings_ (back_dot (front_dot low))
      || detail.words_match f.prefix_ (erase_front_dot (back_dot (front_dot low)))), ?_, ?_⟩
  · -- the operands of `||` are the four searches in their order
    rw [match_]
    dsimp only
    rw [if_neg (not_lt.mpr hlen), hname, if_neg hne, ← hlow]
    split_ifs with h₁ h₂ h₃
    · rw [h₁, Bool.true_or]
    · rw [h₂, Bool.true_or, Bool.true_or, Bool.or_true]
    · rw [h₃, Bool.or_true, Bool.true_or, Bool.or_true]
    · simp only [Bool.not_eq_true] at h₁ h₂ h₃
      rw [h₁, h₂, h₃, Bool.false_or, Bool.false_or, Bool.false_or]
  · rw [Bool.or_eq_true, hex, hpat]
    tauto

/-- **What a filter matches.** Read any text whose words are well-formed rules,
in any order, with repetitions and with rules that cover each other. Then `match`
on a name of at most 1024 characters, which has no dot at either end once one
trailing dot is dropped, is true exactly when a rule of the text covers it. -/
theorem match_iff_covers (H : Placement Str) {text : Str} {forms : List Form}
    (htext : rule_words text = forms.map Form.text) (hforms : ∀ r ∈ forms, r.WellFormed)
    {hostname : Str} (hlen : hostname.length ≤ MAX_QNAME_LENGTH)
    (hne : unqualified hostname ≠ []) (hfront : (unqualified hostname).head? ≠ some '.')
    (hback : (unqualified hostname).getLast? ≠ some '.') :
    ∃ f b, of_stream H text = .ok f ∧ f.match_ hostname = .ok b ∧
      (b = true ↔ ∃ r ∈ forms, r.Covers (ascii_tolower (unqualified hostname))) := by
  have hshort : ∀ w ∈ rule_words text, w.length ≤ MAX_QNAME_LENGTH := by
    intro w hw
    rw [htext] at hw
    obtain ⟨r, hr, rfl⟩ := List.mem_map.mp hw
    exact (hforms r hr).short
  obtain ⟨f, hf, hcanon⟩ := of_stream_canon H hshort
  rw [htext] at hcanon
  obtain ⟨b, hb, hiff⟩ := hcanon.match_iff (rules_wellFormed _) hlen hne hfront
  refine ⟨f, b, hf, hb, hiff.trans ?_⟩
  set low := ascii_tolower (unqualified hostname)
  have hlow_ne : low ≠ [] := fun h => hne (List.map_eq_nil_iff.mp h)
  have hlow_dot : low.head? ≠ some '.' := fun h => hfront ((head?_tolower (by decide)).mp h)
  -- the dots that `match` puts around the name
  have hf_dot : front_dot low = '.' :: low := by
    rw [front_dot, if_neg hlow_dot]
  have hb_dot : back_dot low = low ++ ['.'] := by
    rw [back_dot, if_neg fun h => hback ((getLast?_tolower (by decide)).mp h)]
  have hdots : back_dot (front_dot low) = '.' :: (low ++ ['.']) := by
    rw [back_dot_front_dot hlow_ne hlow_dot, hb_dot]
  rw [Redundant, SubCovers, hdots, hf_dot, erase_front_dot_cons]
  simp only [mem_rules_forms hforms]
  constructor
  · rintro (⟨r, hr, hk, hcov⟩ | ⟨_, ⟨r, hr, hk, rfl⟩, hcov⟩ | ⟨_, ⟨r, hr, hk, rfl⟩, hcov⟩
      | ⟨_, ⟨r, hr, hk, rfl⟩, hcov⟩)
    all_goals
      refine ⟨r, hr, ?_⟩
      cases r <;> simp only [Form.kind, reduceCtorEq] at hk
      first | exact hcov | exact Eq.symm hcov
  · rintro ⟨r, hr, hcov⟩
    cases r with
    | exact w => exact Or.inl ⟨_, hr, rfl, hcov.symm⟩
    | suffix star d => exact Or.inr (Or.inl ⟨_, ⟨_, hr, rfl, rfl⟩, hcov⟩)
    | prefix_ p => exact Or.inr (Or.inr (Or.inr ⟨_, ⟨_, hr, rfl, rfl⟩, hcov⟩))
    | substring s => exact Or.inr (Or.inr (Or.inl ⟨_, ⟨_, hr, rfl, rfl⟩, hcov⟩))

/-- A list in mixed case with a duplicate and a rule another rule covers. -/
theorem match_iff_covers_list :
    ∃ f b, of_stream (.front Str) "*.Ads.net x.ads.NET # comment\n *track* www.*".toList = .ok f ∧
      f.match_ "A.ads.net.".toList = .ok b ∧
      (b = true ↔ ∃ r ∈ [Form.suffix true ".Ads.net".toList, .exact "x.ads.NET".toList,
        .substring "track".toList, .prefix_ "www.".toList], r.Covers "a.ads.net".toList) :=
  match_iff_covers (.front Str) (by decide)
    (by
      intro r hr
      fin_cases hr <;> exact ⟨by decide, by decide, by decide, by simp [Form.Shape]⟩)
    (by decide) (by decide) (by decide) (by decide)

end Cdns.Filter
