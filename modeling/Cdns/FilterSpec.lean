/-
What a filter holds, and what it matches.

The containers of a `Filter` are a canonical form of the *set* of rules that went
in. `Canon` says which: the irredundant substrings, the irredundant prefixes and
suffixes that no substring makes redundant, and the exact names nothing else
covers. Everything follows from three facts about it:

* the constructor and `merge` produce it (`of_stream_canon`, `merge_canon`);
* it determines the filter (`Canon.same`), so the order of the rules, of the list
  files and of the hash tables is invisible;
* `match` on it asks whether some rule of the set covers the name
  (`Canon.match_iff`).

`merge` is where the argument is. Each operand has been pruned against its own
substrings, so the containers `merge` joins are not those of the joined rule
sets. What was dropped early was dropped because of a substring that is still
there (or a shorter one), and a substring that makes a pattern redundant makes
everything redundant that the pattern covers (`back_dot_mono`,
`front_dot_mono`), so nothing survives or vanishes by it:
`Lib.CoverSet.leastOf_not_killed`.
-/
import Cdns.Filter

set_option autoImplicit false

namespace Cdns.Filter

open Lib.CoverSet Lib.Unordered

/-! ## Rules -/

/-- The rule a word stands for, with its body in lower case. -/
def rule_of (word : Str) : Rule :=
  ⟨(classify word).filter_type, ascii_tolower (classify word).body⟩

/-- The rules of a sequence of words. A word without a body is not a rule. -/
def rules (words : List Str) : Set Rule := {r | ∃ w ∈ words, r = rule_of w ∧ r.body ≠ []}

/-- The bodies of the rules of one kind. -/
def bodies (R : Set Rule) (k : filters) : Set Str := {b | ⟨k, b⟩ ∈ R}

/-- Some substring rule occurs in `str`. -/
def SubCovers (R : Set Rule) (str : Str) : Prop := ∃ s ∈ bodies R .substring, s <:+: str

/-- Some rule other than an exact name covers the exact name `w`. -/
def Redundant (R : Set Rule) (w : Str) : Prop :=
  (∃ d ∈ bodies R .suffix, d <:+ front_dot w) ∨ SubCovers R (back_dot (front_dot w))
    ∨ ∃ p ∈ bodies R .prefix_, p <+: erase_front_dot (back_dot (front_dot w))

/-- What the classification guarantees of a rule. -/
def WellFormed (R : Set Rule) : Prop :=
  ∀ r ∈ R, r.body ≠ [] ∧ (r.filter_type = .exact → r.body.head? ≠ some '.')

theorem head?_tolower {d : Char} (hd : d.toNat < 65) {s : Str} :
    (ascii_tolower s).head? = some d ↔ s.head? = some d := by
  cases s with
  | nil => simp [ascii_tolower]
  | cons c s => simp [ascii_tolower, toLower_eq_iff hd]

theorem getLast?_tolower {d : Char} (hd : d.toNat < 65) {s : Str} :
    (ascii_tolower s).getLast? = some d ↔ s.getLast? = some d := by
  rw [← List.head?_reverse, ← List.head?_reverse, ← head?_tolower hd (s := s.reverse)]
  simp [ascii_tolower]

theorem head?_c_str {s : Str} {c : Char} (h : (Str.c_str s).head? = some c) : s.head? = some c := by
  cases s with
  | nil => simp [Str.c_str] at h
  | cons d s =>
      rw [Str.c_str, List.takeWhile_cons] at h
      split_ifs at h with hd
      · exact h
      · simp at h

theorem rules_wellFormed (words : List Str) : WellFormed (rules words) := by
  rintro r ⟨w, -, rfl, hne⟩
  refine ⟨hne, fun hex => ?_⟩
  intro hlow
  have hdot : (classify w).body.head? = some '.' := (head?_tolower (by decide)).mp hlow
  have hk : (classify w).filter_type = .exact := hex
  unfold classify at hk hdot
  split_ifs at hk hdot with h₁ h₂ h₃
  · dsimp only at hk hdot
    split_ifs at hk hdot with h₄
    exact h₄ (head?_c_str hdot)
  · dsimp only at hk hdot
    split_ifs at hk hdot with h₄
    exact h₄ (head?_c_str hdot)

theorem wellFormed_union {R R' : Set Rule} (h : WellFormed R) (h' : WellFormed R') :
    WellFormed (R ∪ R') := by
  rintro r (hr | hr)
  · exact h r hr
  · exact h' r hr

theorem SubCovers.mono {R : Set Rule} {x y : Str} (hxy : x <:+: y) (h : SubCovers R x) :
    SubCovers R y := by
  obtain ⟨s, hs, hsx⟩ := h
  exact ⟨s, hs, hsx.trans hxy⟩

/-! ## Dots

A pattern is tested against the substrings with the dots around it that the
name it matches will have. Extending a pattern extends its dotted form. -/

theorem back_dot_mono {d x : Str} (hd : d ≠ []) (h : d <:+ x) : back_dot d <:+ back_dot x := by
  obtain ⟨t, rfl⟩ := h
  have hlast : (t ++ d).getLast? = d.getLast? := by
    rw [List.getLast?_append]
    obtain ⟨c, hc⟩ := Option.isSome_iff_exists.mp (List.getLast?_isSome.mpr hd)
    rw [hc]
    rfl
  unfold back_dot
  rw [hlast]
  split_ifs
  · exact List.suffix_append t d
  · rw [List.append_assoc]
    exact List.suffix_append t _

theorem front_dot_mono {p x : Str} (hp : p ≠ []) (h : p <+: x) : front_dot p <+: front_dot x := by
  obtain ⟨t, rfl⟩ := h
  obtain ⟨c, p, rfl⟩ := List.exists_cons_of_ne_nil hp
  unfold front_dot
  rw [List.cons_append, List.head?_cons, List.head?_cons]
  split_ifs
  · exact List.cons_prefix_cons.mpr ⟨rfl, List.prefix_append p t⟩
  · exact List.cons_prefix_cons.mpr ⟨rfl, List.cons_prefix_cons.mpr ⟨rfl, List.prefix_append p t⟩⟩

/-- A name that does not start with a dot, with dots on both sides. -/
theorem back_dot_front_dot {w : Str} (hw : w ≠ []) (hdot : w.head? ≠ some '.') :
    back_dot (front_dot w) = '.' :: back_dot w := by
  have hlast : ('.' :: w).getLast? = w.getLast? := by
    obtain ⟨c, w, rfl⟩ := List.exists_cons_of_ne_nil hw
    rw [List.getLast?_cons_cons]
  rw [front_dot, if_neg hdot, back_dot, back_dot, hlast]
  split_ifs <;> rfl

theorem erase_front_dot_cons (s : Str) : erase_front_dot ('.' :: s) = s := by
  simp [erase_front_dot]

/-- A prefix of a name that does not start with a dot occurs, with its dot, at
the front of the dotted name. -/
theorem front_dot_prefix_cons {p w : Str} (hp : p ≠ []) (hw : w ≠ []) (hdot : w.head? ≠ some '.')
    (h : p <+: back_dot w) : front_dot p <+: '.' :: back_dot w := by
  obtain ⟨c, p, rfl⟩ := List.exists_cons_of_ne_nil hp
  obtain ⟨e, w, rfl⟩ := List.exists_cons_of_ne_nil hw
  have hback : ∃ t, back_dot (e :: w) = e :: t := by
    unfold back_dot
    split_ifs
    · exact ⟨w, rfl⟩
    · exact ⟨w ++ ['.'], rfl⟩
  obtain ⟨t, ht⟩ := hback
  rw [ht] at h ⊢
  obtain ⟨rfl, -⟩ := List.cons_prefix_cons.mp h
  rw [front_dot, if_neg (by simpa using hdot)]
  exact List.cons_prefix_cons.mpr ⟨rfl, h⟩

/-! ## One insertion -/

theorem substr_match_iff {subs : HashSet Str} {str : Str} :
    detail.substr_match subs str = true ↔ ∃ s ∈ subs, s <:+: str := by
  simp only [detail.substr_match, List.any_eq_true, Bool.and_eq_true, decide_eq_true_eq,
    Str.contains_iff]
  constructor
  · rintro ⟨s, hs, -, h⟩
    exact ⟨s, hs, h⟩
  · rintro ⟨s, hs, h⟩
    exact ⟨s, hs, h.length_le, h⟩

theorem substr_scan_eq_none {w : Str} {seen l : List Str} (h : detail.substr_scan w seen l = none) :
    ∃ i ∈ l, i <:+: w := by
  induction l generalizing seen with
  | nil => simp [detail.substr_scan] at h
  | cons i rest ih =>
      rw [detail.substr_scan] at h
      split_ifs at h with h₁ h₂
      · exact ⟨i, List.mem_cons_self, Str.contains_iff.mp h₁⟩
      · obtain ⟨j, hj, hjw⟩ := ih h
        exact ⟨j, List.mem_cons_of_mem _ hj, hjw⟩

/-- When the loop gets to insert `w`, no element was contained in `w`. Behind
the first element that contains `w` this is not tested: there it holds because
no element contains another. -/
theorem substr_scan_not_covered {w : Str} {seen l kept : List Str}
    (h : detail.substr_scan w seen l = some kept)
    (hanti : ∀ x ∈ l, ∀ y ∈ l, x <:+: y → x = y) : ∀ i ∈ l, ¬ i <:+: w := by
  induction l generalizing seen with
  | nil => simp
  | cons i rest ih =>
      rw [detail.substr_scan] at h
      split_ifs at h with h₁ h₂
      · intro j hj hjw
        have hji : j = i := hanti j hj i List.mem_cons_self (hjw.trans (Str.contains_iff.mp h₂))
        exact h₁ (Str.contains_iff.mpr (hji ▸ hjw))
      · intro j hj
        rcases List.mem_cons.mp hj with rfl | hj
        · exact fun hw => h₁ (Str.contains_iff.mpr hw)
        · exact ih h (fun x hx y hy => hanti x (List.mem_cons_of_mem _ hx) y
            (List.mem_cons_of_mem _ hy)) j hj

/-- `substr_insert` keeps the irredundant substrings. -/
theorem mem_substr_insert (H : Placement Str) {subs : HashSet Str} {P : Set Str}
    (hs : ∀ x, x ∈ subs ↔ x ∈ leastOf (fun s x => s <:+: x) P) (w x : Str) :
    x ∈ detail.substr_insert H subs w ↔ x ∈ leastOf (fun s x => s <:+: x) (insert w P) := by
  unfold detail.substr_insert
  split
  · next h =>
    -- the new substring is covered
    obtain ⟨i, hi, hiw⟩ := substr_scan_eq_none h
    rw [leastOf_insert_covered infix_covering ⟨i, (hs i).mp hi, hiw⟩, hs]
  · next kept h =>
    -- it is not, and those that it covers go
    have hanti : ∀ x ∈ subs.elems, ∀ y ∈ subs.elems, x <:+: y → x = y := fun x hx y hy =>
      ((hs y).mp hy).2 x ((hs x).mp hx).1
    have hnot := substr_scan_not_covered h hanti
    have hnew : ¬ ∃ p ∈ leastOf (fun s x : Str => s <:+: x) P, p <:+: w := by
      rintro ⟨p, hp, hpw⟩
      exact hnot p ((hs p).mpr hp) hpw
    have hkept : x ∈ kept ↔ x ∈ subs ∧ ¬ w <:+: x := by
      rw [detail.substr_scan_eq_some h, List.nil_append, List.mem_filter, Bool.not_eq_true',
        ← Bool.not_eq_true, Str.contains_iff]
      rfl
    rw [HashSet.mem_insert, leastOf_insert_new infix_covering hnew, Set.mem_insert_iff,
      HashSet.mem_def, hkept, hs]
    rfl

theorem mem_foldl_substr_insert (H : Placement Str) (l : List Str) {subs : HashSet Str}
    {P : Set Str} (hs : ∀ x, x ∈ subs ↔ x ∈ leastOf (fun s x => s <:+: x) P) (x : Str) :
    x ∈ l.foldl (detail.substr_insert H) subs ↔
      x ∈ leastOf (fun s x => s <:+: x) (P ∪ {y | y ∈ l}) := by
  induction l generalizing subs P with
  | nil => simp [hs]
  | cons w l ih =>
      rw [List.foldl_cons, ih (P := insert w P) (mem_substr_insert H hs w)]
      have : insert w P ∪ {y | y ∈ l} = P ∪ {y | y ∈ w :: l} := by
        ext y
        simp only [Set.mem_union, Set.mem_insert_iff, Set.mem_ofPred_eq, List.mem_cons]
        tauto
      rw [this]

theorem mem_foldl_insert (H : Placement Str) (l : List Str) (s : HashSet Str) (x : Str) :
    x ∈ l.foldl (HashSet.insert H) s ↔ x ∈ s ∨ x ∈ l := by
  induction l generalizing s with
  | nil => simp
  | cons w l ih =>
      rw [List.foldl_cons, ih, HashSet.mem_insert, List.mem_cons]
      tauto

/-! ## The canonical form -/

/-- Prefix patterns as a redundancy order. -/
abbrev prefixCovers : Str → Str → Prop := fun p x => comp.covers p x = true

/-- Suffix patterns as a redundancy order. -/
abbrev suffixCovers : Str → Str → Prop := fun d x => rev_comp.covers d x = true

/-- Substring patterns as a redundancy order. -/
abbrev infixCovers : Str → Str → Prop := fun s x => s <:+: x

/-- The filter a set of rules has to end in. -/
structure Canon (f : Filter) (R : Set Rule) : Prop where
  substrings : ∀ x, x ∈ f.substrings_ ↔ x ∈ leastOf infixCovers (bodies R .substring)
  prefixes : ∀ x, x ∈ f.prefix_ ↔
    x ∈ leastOf prefixCovers (bodies R .prefix_) ∧ ¬ SubCovers R (front_dot x)
  suffix : ∀ x, x ∈ f.suffix_ ↔
    x ∈ leastOf suffixCovers (bodies R .suffix) ∧ ¬ SubCovers R (back_dot x)
  exact : ∀ x, x ∈ f.exact_ ↔ x ∈ bodies R .exact ∧ ¬ Redundant R x

/-- What the containers hold when `optimize` starts: enough of each kind of rule
(`A`, `B`, `D`) that everything else is covered by it or is due to be pruned. -/
structure Raw (f : Filter) (R : Set Rule) (A B D : Set Str) : Prop where
  substrings : ∀ x, x ∈ f.substrings_ ↔ x ∈ leastOf infixCovers (bodies R .substring)
  prefixes : ∀ x, x ∈ f.prefix_ ↔ x ∈ leastOf prefixCovers A
  prefix_sub : A ⊆ bodies R .prefix_
  prefix_cov : ∀ p ∈ bodies R .prefix_, (∃ a ∈ A, prefixCovers a p) ∨ SubCovers R (front_dot p)
  suffix : ∀ x, x ∈ f.suffix_ ↔ x ∈ leastOf suffixCovers B
  suffix_sub : B ⊆ bodies R .suffix
  suffix_cov : ∀ d ∈ bodies R .suffix, (∃ b ∈ B, suffixCovers b d) ∨ SubCovers R (back_dot d)
  exact : ∀ x, x ∈ f.exact_ ↔ x ∈ D
  exact_sub : D ⊆ bodies R .exact
  exact_cov : ∀ w ∈ bodies R .exact, w ∈ D ∨ Redundant R w

theorem covers_prefix_mono {R : Set Rule} (hR : WellFormed R) {p x : Str}
    (hp : p ∈ bodies R .prefix_) (hpx : prefixCovers p x) (h : SubCovers R (front_dot p)) :
    SubCovers R (front_dot x) :=
  h.mono (front_dot_mono (hR _ hp).1 (detail.contains_comp_iff.mp hpx)).isInfix

theorem covers_suffix_mono {R : Set Rule} (hR : WellFormed R) {d x : Str}
    (hd : d ∈ bodies R .suffix) (hdx : suffixCovers d x) (h : SubCovers R (back_dot d)) :
    SubCovers R (back_dot x) :=
  h.mono (back_dot_mono (hR _ hd).1 (detail.contains_rev_comp_iff.mp hdx)).isInfix

/-- The substring test of the class decides `SubCovers`. -/
theorem substr_match_subCovers {subs : HashSet Str} {R : Set Rule}
    (h : ∀ x, x ∈ subs ↔ x ∈ leastOf infixCovers (bodies R .substring)) (str : Str) :
    detail.substr_match subs str = true ↔ SubCovers R str := by
  rw [substr_match_iff, SubCovers, ← covered_leastOf_iff infix_covering]
  exact exists_congr fun s => and_congr_left fun _ => h s

/-- **What the pruned containers still cover.** A suffix rule that covers `str`
is in the pruned container, or a shorter one is, or a substring rule covers the
dotted `str` as well. -/
theorem pruned_suffix_covers {R : Set Rule} (hR : WellFormed R) {s : WordSet rev_comp}
    (hs : ∀ x, x ∈ s ↔ x ∈ leastOf suffixCovers (bodies R .suffix) ∧ ¬ SubCovers R (back_dot x))
    (str : Str) :
    (detail.words_match s str = true ∨ SubCovers R (back_dot str)) ↔
      ((∃ d ∈ bodies R .suffix, d <:+ str) ∨ SubCovers R (back_dot str)) := by
  rw [detail.words_match, WordSet.matchesWord_iff]
  constructor
  · rintro (⟨d, hd, hcov⟩ | h)
    · exact Or.inl ⟨d, ((hs d).mp hd).1.1, detail.contains_rev_comp_iff.mp hcov⟩
    · exact Or.inr h
  · rintro (⟨d, hd, hcov⟩ | h)
    · obtain ⟨m, hm, hmd⟩ := exists_leastOf_covers rev_comp.covering hd
      have hmstr : suffixCovers m str :=
        rev_comp.covering.trans hmd (detail.contains_rev_comp_iff.mpr hcov)
      by_cases hsub : SubCovers R (back_dot m)
      · exact Or.inr (covers_suffix_mono hR hm.1 hmstr hsub)
      · exact Or.inl ⟨m, (hs m).mpr ⟨hm, hsub⟩, hmstr⟩
    · exact Or.inr h

/-- The same for prefixes, tested on a name without a dot in front. -/
theorem pruned_prefix_covers {R : Set Rule} (hR : WellFormed R) {s : WordSet comp}
    (hs : ∀ x, x ∈ s ↔ x ∈ leastOf prefixCovers (bodies R .prefix_) ∧ ¬ SubCovers R (front_dot x))
    {w : Str} (hw : w ≠ []) (hdot : w.head? ≠ some '.') :
    (detail.words_match s (back_dot w) = true ∨ SubCovers R ('.' :: back_dot w)) ↔
      ((∃ p ∈ bodies R .prefix_, p <+: back_dot w) ∨ SubCovers R ('.' :: back_dot w)) := by
  rw [detail.words_match, WordSet.matchesWord_iff]
  constructor
  · rintro (⟨p, hp, hcov⟩ | h)
    · exact Or.inl ⟨p, ((hs p).mp hp).1.1, detail.contains_comp_iff.mp hcov⟩
    · exact Or.inr h
  · rintro (⟨p, hp, hcov⟩ | h)
    · obtain ⟨m, hm, hmp⟩ := exists_leastOf_covers comp.covering hp
      have hmw : prefixCovers m (back_dot w) :=
        comp.covering.trans hmp (detail.contains_comp_iff.mpr hcov)
      by_cases hsub : SubCovers R (front_dot m)
      · exact Or.inr (hsub.mono (front_dot_prefix_cons (hR _ hm.1).1 hw hdot
          (detail.contains_comp_iff.mp hmw)).isInfix)
      · exact Or.inl ⟨m, (hs m).mpr ⟨hm, hsub⟩, hmw⟩
    · exact Or.inr h

/-- **The three pattern tests together.** The tests `match` and `optimize` make
on a name, in their order, find out whether a pattern of the set covers it. -/
theorem patterns_match_iff {f : Filter} {R : Set Rule} (hR : WellFormed R)
    (hsubs : ∀ x, x ∈ f.substrings_ ↔ x ∈ leastOf infixCovers (bodies R .substring))
    (hpre : ∀ x, x ∈ f.prefix_ ↔
      x ∈ leastOf prefixCovers (bodies R .prefix_) ∧ ¬ SubCovers R (front_dot x))
    (hsuf : ∀ x, x ∈ f.suffix_ ↔
      x ∈ leastOf suffixCovers (bodies R .suffix) ∧ ¬ SubCovers R (back_dot x))
    {w : Str} (hw : w ≠ []) (hdot : w.head? ≠ some '.') :
    (detail.words_match f.suffix_ (front_dot w)
      || detail.substr_match f.substrings_ (back_dot (front_dot w))
      || detail.words_match f.prefix_ (erase_front_dot (back_dot (front_dot w)))) = true
        ↔ Redundant R w := by
  have h₁ := pruned_suffix_covers hR hsuf (front_dot w)
  have h₂ := pruned_prefix_covers hR hpre hw hdot
  rw [back_dot_front_dot hw hdot] at h₁
  rw [Redundant, back_dot_front_dot hw hdot, erase_front_dot_cons, Bool.or_eq_true,
    Bool.or_eq_true, substr_match_subCovers hsubs]
  rw [h₁, or_assoc, or_comm (a := SubCovers R _) (b := detail.words_match _ _ = true), h₂,
    or_comm (b := SubCovers R _)]

/-- **`optimize` finishes the canonical form.** -/
theorem optimize_canon {f : Filter} {R : Set Rule} {A B D : Set Str} (hR : WellFormed R)
    (h : Raw f R A B D) : Canon f.optimize R := by
  have hsubs := substr_match_subCovers h.substrings
  have hpre : ∀ x, x ∈ f.optimize.prefix_ ↔
      x ∈ leastOf prefixCovers (bodies R .prefix_) ∧ ¬ SubCovers R (front_dot x) := by
    intro x
    rw [← leastOf_not_killed (K := fun x => SubCovers R (front_dot x)) comp.covering
      h.prefix_sub h.prefix_cov fun p hp y => covers_prefix_mono hR hp]
    rw [optimize, WordSet.mem_filter, h.prefixes, Bool.not_eq_true', ← Bool.not_eq_true, hsubs]
  have hsuf : ∀ x, x ∈ f.optimize.suffix_ ↔
      x ∈ leastOf suffixCovers (bodies R .suffix) ∧ ¬ SubCovers R (back_dot x) := by
    intro x
    rw [← leastOf_not_killed (K := fun x => SubCovers R (back_dot x)) rev_comp.covering
      h.suffix_sub h.suffix_cov fun p hp y => covers_suffix_mono hR hp]
    rw [optimize, WordSet.mem_filter, h.suffix, Bool.not_eq_true', ← Bool.not_eq_true, hsubs]
  refine ⟨h.substrings, hpre, hsuf, fun x => ?_⟩
  -- an exact name is kept when none of the three tests finds it redundant
  have htest : x ∈ D → ((detail.words_match f.optimize.suffix_ (front_dot x)
      || detail.substr_match f.substrings_ (back_dot (front_dot x))
      || detail.words_match f.optimize.prefix_ (erase_front_dot (back_dot (front_dot x)))) = true
        ↔ Redundant R x) := fun hx =>
    patterns_match_iff (f := f.optimize) hR h.substrings hpre hsuf (hR _ (h.exact_sub hx)).1
      ((hR _ (h.exact_sub hx)).2 rfl)
  have hmem : x ∈ f.optimize.exact_ ↔ x ∈ f.exact_ ∧
      ¬ (detail.words_match f.optimize.suffix_ (front_dot x)
        || detail.substr_match f.substrings_ (back_dot (front_dot x))
        || detail.words_match f.optimize.prefix_
            (erase_front_dot (back_dot (front_dot x)))) = true := by
    rw [Bool.not_eq_true, ← Bool.not_eq_true']
    exact HashSet.mem_filter
  rw [hmem, h.exact]
  constructor
  · rintro ⟨hx, hn⟩
    exact ⟨h.exact_sub hx, fun hr => hn ((htest hx).mpr hr)⟩
  · rintro ⟨hx, hn⟩
    have hxD : x ∈ D := (h.exact_cov x hx).resolve_right hn
    exact ⟨hxD, fun hr => hn ((htest hxD).mp hr)⟩

/-! ## The constructor -/

/-- What the containers hold while the constructor reads: nothing has been
pruned across containers yet. -/
structure Loaded (f : Filter) (R : Set Rule) : Prop where
  substrings : ∀ x, x ∈ f.substrings_ ↔ x ∈ leastOf infixCovers (bodies R .substring)
  prefixes : ∀ x, x ∈ f.prefix_ ↔ x ∈ leastOf prefixCovers (bodies R .prefix_)
  suffix : ∀ x, x ∈ f.suffix_ ↔ x ∈ leastOf suffixCovers (bodies R .suffix)
  exact : ∀ x, x ∈ f.exact_ ↔ x ∈ bodies R .exact

theorem Loaded.raw {f : Filter} {R : Set Rule} (h : Loaded f R) :
    Raw f R (bodies R .prefix_) (bodies R .suffix) (bodies R .exact) where
  substrings := h.substrings
  prefixes := h.prefixes
  prefix_sub := subset_refl _
  prefix_cov := fun p hp => Or.inl ⟨p, hp, comp.covering.refl p⟩
  suffix := h.suffix
  suffix_sub := subset_refl _
  suffix_cov := fun d hd => Or.inl ⟨d, hd, rev_comp.covering.refl d⟩
  exact := h.exact
  exact_sub := subset_refl _
  exact_cov := fun _ hw => Or.inl hw

theorem bodies_insert_same (R : Set Rule) (k : filters) (b : Str) :
    bodies (insert ⟨k, b⟩ R) k = insert b (bodies R k) := by
  ext x
  simp [bodies, Set.mem_insert_iff]

theorem bodies_insert_other (R : Set Rule) {k k' : filters} (hk : k' ≠ k) (b : Str) :
    bodies (insert ⟨k, b⟩ R) k' = bodies R k' := by
  ext x
  simp [bodies, Set.mem_insert_iff, hk]

/-- One rule goes to its container and leaves the other three alone. -/
theorem insert_rule_loaded (H : Placement Str) {f : Filter} {R : Set Rule} (h : Loaded f R)
    (k : filters) (b : Str) : Loaded (insert_rule H f k b) (insert ⟨k, b⟩ R) := by
  have hother : ∀ k' ≠ k, bodies (insert ⟨k, b⟩ R) k' = bodies R k' := fun k' hk =>
    bodies_insert_other R hk b
  have hsame := bodies_insert_same R k b
  -- three of the four containers are untouched, whichever kind the rule is
  cases k with
  | exact =>
      refine ⟨?_, ?_, ?_, fun x => ?_⟩
      · rw [hother .substring (by decide)]
        exact h.substrings
      · rw [hother .prefix_ (by decide)]
        exact h.prefixes
      · rw [hother .suffix (by decide)]
        exact h.suffix
      · rw [hsame, insert_rule, HashSet.mem_insert, Set.mem_insert_iff, h.exact]
  | prefix_ =>
      refine ⟨?_, fun x => ?_, ?_, ?_⟩
      · rw [hother .substring (by decide)]
        exact h.substrings
      · rw [hsame]
        exact WordSet.mem_insertWord h.prefixes b x
      · rw [hother .suffix (by decide)]
        exact h.suffix
      · rw [hother .exact (by decide)]
        exact h.exact
  | suffix =>
      refine ⟨?_, ?_, fun x => ?_, ?_⟩
      · rw [hother .substring (by decide)]
        exact h.substrings
      · rw [hother .prefix_ (by decide)]
        exact h.prefixes
      · rw [hsame]
        exact WordSet.mem_insertWord h.suffix b x
      · rw [hother .exact (by decide)]
        exact h.exact
  | substring =>
      refine ⟨fun x => ?_, ?_, ?_, ?_⟩
      · rw [hsame]
        exact mem_substr_insert H h.substrings b x
      · rw [hother .prefix_ (by decide)]
        exact h.prefixes
      · rw [hother .suffix (by decide)]
        exact h.suffix
      · rw [hother .exact (by decide)]
        exact h.exact

theorem rules_append_blank (ws : List Str) {w : Str} (hw : (classify w).body = []) :
    rules (ws ++ [w]) = rules ws := by
  ext r
  constructor
  · rintro ⟨v, hv, rfl, hne⟩
    rcases List.mem_append.mp hv with hv | hv
    · exact ⟨v, hv, rfl, hne⟩
    · rw [List.mem_singleton.mp hv] at hne
      exact absurd (by rw [rule_of, hw]; rfl) hne
  · rintro ⟨v, hv, hr⟩
    exact ⟨v, List.mem_append_left _ hv, hr⟩

theorem rules_append_rule (ws : List Str) {w : Str} (hw : (classify w).body ≠ []) :
    rules (ws ++ [w]) = insert (rule_of w) (rules ws) := by
  have hne : (rule_of w).body ≠ [] := by
    rw [rule_of, ascii_tolower]
    exact fun h => hw (List.map_eq_nil_iff.mp h)
  ext r
  constructor
  · rintro ⟨v, hv, rfl, hbody⟩
    rcases List.mem_append.mp hv with hv | hv
    · exact Or.inr ⟨v, hv, rfl, hbody⟩
    · exact Or.inl (by rw [List.mem_singleton.mp hv])
  · rintro (rfl | ⟨v, hv, hr⟩)
    · exact ⟨w, by simp, rfl, hne⟩
    · exact ⟨v, List.mem_append_left _ hv, hr⟩

/-- One turn of the reading loop. -/
theorem add_word_loaded (H : Placement Str) {f : Filter} {ws : List Str} (h : Loaded f (rules ws))
    {w : Str} (hw : w.length ≤ MAX_QNAME_LENGTH) :
    ∃ f', add_word H f w = .ok f' ∧ Loaded f' (rules (ws ++ [w])) := by
  rw [add_word, if_neg (not_lt.mpr hw)]
  dsimp only
  split_ifs with hb
  · exact ⟨f, rfl, rules_append_blank ws hb ▸ h⟩
  · exact ⟨_, rfl, rules_append_rule ws hb ▸ insert_rule_loaded H h _ _⟩

theorem foldlM_add_word_loaded (H : Placement Str) (ws : List Str)
    (hws : ∀ w ∈ ws, w.length ≤ MAX_QNAME_LENGTH) {f : Filter} {vs : List Str}
    (h : Loaded f (rules vs)) :
    ∃ f', ws.foldlM (add_word H) f = .ok f' ∧ Loaded f' (rules (vs ++ ws)) := by
  -- the rules read so far are `vs`; each turn moves one word over
  induction ws generalizing f vs with
  | nil => exact ⟨f, rfl, by simpa using h⟩
  | cons w ws ih =>
      obtain ⟨f₁, hf₁, hl₁⟩ := add_word_loaded H h (hws w List.mem_cons_self)
      obtain ⟨f', hf', hl'⟩ := ih (fun v hv => hws v (List.mem_cons_of_mem _ hv)) hl₁
      refine ⟨f', ?_, by simpa using hl'⟩
      rw [List.foldlM_cons, hf₁, Result.ok_bind]
      exact hf'

theorem empty_loaded : Loaded empty (rules []) := by
  have hb : ∀ k, bodies (rules []) k = ∅ := by
    intro k
    ext x
    simp [bodies, rules]
  refine ⟨fun x => ?_, fun x => ?_, fun x => ?_, fun x => ?_⟩ <;> rw [hb]
  all_goals simp [leastOf, empty, HashSet.mem_def, WordSet.mem_def, HashSet.empty, WordSet.empty]

/-- **The constructor builds the canonical form** of the rules it reads. -/
theorem of_stream_canon (H : Placement Str) {text : Str}
    (hlen : ∀ w ∈ rule_words text, w.length ≤ MAX_QNAME_LENGTH) :
    ∃ f, of_stream H text = .ok f ∧ Canon f (rules (rule_words text)) := by
  obtain ⟨f, hf, hl⟩ := foldlM_add_word_loaded H (rule_words text) hlen empty_loaded
  refine ⟨f.optimize, ?_, optimize_canon (rules_wellFormed _) hl.raw⟩
  rw [of_stream, hf]
  rfl

/-- A filter that was built had no overlong word. -/
theorem length_le_of_foldlM {H : Placement Str} {ws : List Str} {f f' : Filter}
    (h : ws.foldlM (add_word H) f = .ok f') : ∀ w ∈ ws, w.length ≤ MAX_QNAME_LENGTH := by
  induction ws generalizing f with
  | nil => simp
  | cons w ws ih =>
      rw [List.foldlM_cons, Result.bind_eq_ok] at h
      obtain ⟨f₁, hf₁, hrest⟩ := h
      intro v hv
      rcases List.mem_cons.mp hv with rfl | hv
      · rw [add_word] at hf₁
        split_ifs at hf₁ with hlen
        exact not_lt.mp hlen
      · exact ih hrest v hv

theorem length_le_of_of_stream {H : Placement Str} {text : Str} {f : Filter}
    (h : of_stream H text = .ok f) : ∀ w ∈ rule_words text, w.length ≤ MAX_QNAME_LENGTH := by
  obtain ⟨g, hg, -⟩ := Result.bind_eq_ok.mp h
  exact length_le_of_foldlM hg

end Cdns.Filter
