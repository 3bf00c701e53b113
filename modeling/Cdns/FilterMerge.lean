/-
Joining filters.

`merge` joins two lists that were read, and pruned, on their own. The result is
the canonical form of the two rule sets together (`merge_canon`), the very filter
that reading all the rules at once gives, and the canonical form does not know in
which order anything was done. So `merge` is commutative, associative and
idempotent, and neither `count` nor `match` depends on how the list files were
ordered or on how the hash tables arranged their elements.
-/
import Cdns.FilterSpec

set_option autoImplicit false

namespace Cdns.Filter

open Lib.CoverSet Lib.Unordered

/-! ## Equality of filters -/

/-- Two filters hold the same four sets. The ordered ones are then equal; the
hash sets may still list their elements differently. -/
structure Same (f g : Filter) : Prop where
  prefixes : f.prefix_ = g.prefix_
  suffix : f.suffix_ = g.suffix_
  substrings : ∀ x, x ∈ f.substrings_ ↔ x ∈ g.substrings_
  exact : ∀ x, x ∈ f.exact_ ↔ x ∈ g.exact_

/-- The canonical form determines the filter. -/
theorem Canon.same {f g : Filter} {R : Set Rule} (hf : Canon f R) (hg : Canon g R) : Same f g where
  prefixes := WordSet.ext_mem fun x => by rw [hf.prefixes, hg.prefixes]
  suffix := WordSet.ext_mem fun x => by rw [hf.suffix, hg.suffix]
  substrings := fun x => by rw [hf.substrings, hg.substrings]
  exact := fun x => by rw [hf.exact, hg.exact]

theorem Same.count_eq {f g : Filter} (h : Same f g) : f.count = g.count := by
  rw [count, count, h.prefixes, h.suffix, HashSet.length_eq_of_mem_iff h.substrings,
    HashSet.length_eq_of_mem_iff h.exact]

theorem Same.match_eq {f g : Filter} (h : Same f g) (hostname : Str) :
    f.match_ hostname = g.match_ hostname := by
  have hexact : ∀ w, f.exact_.elems.contains w = g.exact_.elems.contains w := by
    intro w
    rw [Bool.eq_iff_iff, List.contains_iff_mem, List.contains_iff_mem]
    exact h.exact w
  have hsub : ∀ w, detail.substr_match f.substrings_ w = detail.substr_match g.substrings_ w := by
    intro w
    rw [Bool.eq_iff_iff, substr_match_iff, substr_match_iff]
    exact exists_congr fun s => and_congr_left fun _ => h.substrings s
  simp only [match_, hexact, hsub, h.prefixes, h.suffix]

/-! ## `merge` -/

/-- Joining two ordered containers, with the shortcut for an empty one. -/
theorem mem_join_words {O : Order Str} (s t : WordSet O) (x : Str) :
    x ∈ (if s.elems = [] then t else t.elems.foldl detail.words_insert s) ↔
      x ∈ leastOf (fun x y => O.covers x y = true) ({y | y ∈ s} ∪ {y | y ∈ t}) := by
  split_ifs with h
  · have hs : {y | y ∈ s} = (∅ : Set Str) := by
      ext y
      simp [WordSet.mem_def, h]
    rw [hs, Set.empty_union]
    exact WordSet.mem_iff_leastOf_self x
  · exact WordSet.mem_foldl_insertWord t.elems WordSet.mem_iff_leastOf_self x

theorem mem_join_substrings (H : Placement Str) {s t : HashSet Str} {P Q : Set Str}
    (hs : ∀ x, x ∈ s ↔ x ∈ leastOf infixCovers P) (ht : ∀ x, x ∈ t ↔ x ∈ leastOf infixCovers Q)
    (x : Str) :
    x ∈ (if s.elems = [] then t else t.elems.foldl (detail.substr_insert H) s) ↔
      x ∈ leastOf infixCovers (P ∪ Q) := by
  rw [← leastOf_union infix_covering]
  have hQ : {y | y ∈ t.elems} = leastOf infixCovers Q := Set.ext ht
  split_ifs with h
  · have hP : leastOf infixCovers P = ∅ := by
      ext y
      rw [← hs]
      simp [HashSet.mem_def, h]
    rw [hP, Set.empty_union, leastOf_idem infix_covering, ht]
  · have hs' : ∀ x, x ∈ s ↔ x ∈ leastOf infixCovers (leastOf infixCovers P) := by
      intro y
      rw [leastOf_idem infix_covering, hs]
    rw [mem_foldl_substr_insert H t.elems hs', hQ]

theorem mem_join_exact (H : Placement Str) (s t : HashSet Str) (x : Str) :
    x ∈ (if s.elems = [] then t else t.elems.foldl (HashSet.insert H) s) ↔ x ∈ s ∨ x ∈ t := by
  split_ifs with h
  · simp [HashSet.mem_def, h]
  · exact mem_foldl_insert H t.elems s x

/-- A larger set of rules makes more redundant. -/
theorem SubCovers.mono_rules {R R' : Set Rule} (hR : R ⊆ R') {x : Str} (h : SubCovers R x) :
    SubCovers R' x := by
  obtain ⟨s, hs, hsx⟩ := h
  exact ⟨s, hR hs, hsx⟩

theorem Redundant.mono_rules {R R' : Set Rule} (hR : R ⊆ R') {w : Str} (h : Redundant R w) :
    Redundant R' w := by
  rcases h with ⟨d, hd, hdw⟩ | h | ⟨p, hp, hpw⟩
  · exact Or.inl ⟨d, hR hd, hdw⟩
  · exact Or.inr (Or.inl (h.mono_rules hR))
  · exact Or.inr (Or.inr ⟨p, hR hp, hpw⟩)

/-- What an operand has pruned is covered by what it kept, or is still due to be
pruned. -/
theorem Canon.prefix_cov {f : Filter} {R R' : Set Rule} (hf : Canon f R) (hR : WellFormed R)
    (hsub : R ⊆ R') {p : Str} (hp : p ∈ bodies R .prefix_) :
    (∃ a ∈ f.prefix_, prefixCovers a p) ∨ SubCovers R' (front_dot p) := by
  obtain ⟨m, hm, hmp⟩ := exists_leastOf_covers comp.covering hp
  by_cases hk : SubCovers R (front_dot m)
  · exact Or.inr ((covers_prefix_mono hR hm.1 hmp hk).mono_rules hsub)
  · exact Or.inl ⟨m, (hf.prefixes m).mpr ⟨hm, hk⟩, hmp⟩

theorem Canon.suffix_cov {f : Filter} {R R' : Set Rule} (hf : Canon f R) (hR : WellFormed R)
    (hsub : R ⊆ R') {d : Str} (hd : d ∈ bodies R .suffix) :
    (∃ b ∈ f.suffix_, suffixCovers b d) ∨ SubCovers R' (back_dot d) := by
  obtain ⟨m, hm, hmd⟩ := exists_leastOf_covers rev_comp.covering hd
  by_cases hk : SubCovers R (back_dot m)
  · exact Or.inr ((covers_suffix_mono hR hm.1 hmd hk).mono_rules hsub)
  · exact Or.inl ⟨m, (hf.suffix m).mpr ⟨hm, hk⟩, hmd⟩

theorem Canon.exact_cov {f : Filter} {R R' : Set Rule} (hf : Canon f R) (hsub : R ⊆ R') {w : Str}
    (hw : w ∈ bodies R .exact) : w ∈ f.exact_ ∨ Redundant R' w := by
  by_cases hr : Redundant R w
  · exact Or.inr (hr.mono_rules hsub)
  · exact Or.inl ((hf.exact w).mpr ⟨hw, hr⟩)

/-- **`merge` builds the canonical form** of the rules of both operands. -/
theorem merge_canon (H : Placement Str) {f g : Filter} {R R' : Set Rule} (hR : WellFormed R)
    (hR' : WellFormed R') (hf : Canon f R) (hg : Canon g R') : Canon (merge H f g) (R ∪ R') := by
  refine optimize_canon (A := {x | x ∈ f.prefix_} ∪ {x | x ∈ g.prefix_})
    (B := {x | x ∈ f.suffix_} ∪ {x | x ∈ g.suffix_}) (D := {x | x ∈ f.exact_} ∪ {x | x ∈ g.exact_})
    (wellFormed_union hR hR') ?_
  -- each operand is canonical for its own rules, which are among those of both
  have hl : R ⊆ R ∪ R' := Set.subset_union_left
  have hr : R' ⊆ R ∪ R' := Set.subset_union_right
  refine {
    substrings := mem_join_substrings H hf.substrings hg.substrings
    prefixes := mem_join_words f.prefix_ g.prefix_
    suffix := mem_join_words f.suffix_ g.suffix_
    exact := mem_join_exact H f.exact_ g.exact_
    prefix_sub := ?_, prefix_cov := ?_, suffix_sub := ?_, suffix_cov := ?_
    exact_sub := ?_, exact_cov := ?_ }
  · rintro x (hx | hx)
    · exact Or.inl ((hf.prefixes x).mp hx).1.1
    · exact Or.inr ((hg.prefixes x).mp hx).1.1
  · rintro p (hp | hp)
    · exact (hf.prefix_cov hR hl hp).imp_left fun ⟨a, ha, hap⟩ => ⟨a, Or.inl ha, hap⟩
    · exact (hg.prefix_cov hR' hr hp).imp_left fun ⟨a, ha, hap⟩ => ⟨a, Or.inr ha, hap⟩
  · rintro x (hx | hx)
    · exact Or.inl ((hf.suffix x).mp hx).1.1
    · exact Or.inr ((hg.suffix x).mp hx).1.1
  · rintro d (hd | hd)
    · exact (hf.suffix_cov hR hl hd).imp_left fun ⟨b, hb, hbd⟩ => ⟨b, Or.inl hb, hbd⟩
    · exact (hg.suffix_cov hR' hr hd).imp_left fun ⟨b, hb, hbd⟩ => ⟨b, Or.inr hb, hbd⟩
  · rintro x (hx | hx)
    · exact Or.inl ((hf.exact x).mp hx).1
    · exact Or.inr ((hg.exact x).mp hx).1
  · rintro w (hw | hw)
    · exact (hf.exact_cov hl hw).imp_left Or.inl
    · exact (hg.exact_cov hr hw).imp_left Or.inr

/-- `optimize` has nothing left to do on what it returns. -/
theorem optimize_optimize (f : Filter) : f.optimize.optimize = f.optimize := by
  simp only [optimize, WordSet.filter, HashSet.filter, List.filter_filter, Bool.and_self]

/-! ## Filters in use -/

/-- The filters the program can hold, with the words they were made from: lists
that were read, and lists joined to others, whatever the hash tables did. -/
inductive Obtained : Filter → List Str → Prop where
  | read {f : Filter} (H : Placement Str) (text : Str) :
      of_stream H text = .ok f → Obtained f (rule_words text)
  | merge {f g : Filter} {ws vs : List Str} (H : Placement Str) :
      Obtained f ws → Obtained g vs → Obtained (f.merge H g) (ws ++ vs)

theorem rules_append (ws vs : List Str) : rules (ws ++ vs) = rules ws ∪ rules vs := by
  ext r
  simp only [rules, Set.mem_union, Set.mem_ofPred_eq, List.mem_append, or_and_right, exists_or]

theorem rules_perm {ws vs : List Str} (h : ws.Perm vs) : rules ws = rules vs := by
  ext r
  simp only [rules, Set.mem_ofPred_eq, h.mem_iff]

theorem Obtained.canon {f : Filter} {ws : List Str} (h : Obtained f ws) : Canon f (rules ws) := by
  induction h with
  | read H text hf =>
      obtain ⟨g, hg, hcanon⟩ := of_stream_canon H (length_le_of_of_stream hf)
      rw [hf] at hg
      exact Except.ok.inj hg ▸ hcanon
  | merge H _ _ ihf ihg =>
      rw [rules_append]
      exact merge_canon H (rules_wellFormed _) (rules_wellFormed _) ihf ihg

/-- **Only the rules count.** Two filters made from the same rules, in whatever
order and grouping, hold the same sets. -/
theorem Obtained.same {f g : Filter} {ws vs : List Str} (hf : Obtained f ws) (hg : Obtained g vs)
    (h : rules ws = rules vs) : Same f g :=
  hf.canon.same (h ▸ hg.canon)

/-- **Merging is canonical.** For two list texts whose rules are short enough for
the constructor, `filter (a)` merged with `filter (b)` holds the same four sets
as the filter read from any text with the rules of `a` and `b` in any order.
Among the filters the program can hold, `merge` is then commutative, associative
and idempotent, and `count` and `match` depend on the rules alone; `optimize` is
idempotent on every filter. Every operation may meet a different arrangement of
the hash tables. -/
theorem merge_canonical {a b : Str} (ha : ∀ w ∈ rule_words a, w.length ≤ MAX_QNAME_LENGTH)
    (hb : ∀ w ∈ rule_words b, w.length ≤ MAX_QNAME_LENGTH) :
    (∀ Ha Hb, ∃ f g, of_stream Ha a = .ok f ∧ of_stream Hb b = .ok g ∧
      ∀ (c : Str) Hc H, (rule_words c).Perm (rule_words a ++ rule_words b) →
        ∃ k, of_stream Hc c = .ok k ∧ Same (f.merge H g) k) ∧
    (∀ f g ws vs H H', Obtained f ws → Obtained g vs → Same (f.merge H g) (g.merge H' f)) ∧
    (∀ f g k ws vs us H₁ H₂ H₃ H₄, Obtained f ws → Obtained g vs → Obtained k us →
      Same ((f.merge H₁ g).merge H₂ k) (f.merge H₃ (g.merge H₄ k))) ∧
    (∀ f ws H, Obtained f ws → Same (f.merge H f) f) ∧
    (∀ f : Filter, f.optimize.optimize = f.optimize) ∧
    (∀ f g ws vs, Obtained f ws → Obtained g vs → ws.Perm vs →
      Same f g ∧ f.count = g.count ∧ ∀ hostname, f.match_ hostname = g.match_ hostname) := by
  refine ⟨fun Ha Hb => ?_, ?_, ?_, ?_, optimize_optimize, ?_⟩
  · -- merging is reading the concatenation
    obtain ⟨f, hf, -⟩ := of_stream_canon Ha ha
    obtain ⟨g, hg, -⟩ := of_stream_canon Hb hb
    refine ⟨f, g, hf, hg, fun c Hc H hc => ?_⟩
    have hlen : ∀ w ∈ rule_words c, w.length ≤ MAX_QNAME_LENGTH := by
      intro w hw
      rcases List.mem_append.mp (hc.mem_iff.mp hw) with h | h
      · exact ha w h
      · exact hb w h
    obtain ⟨k, hk, -⟩ := of_stream_canon Hc hlen
    exact ⟨k, hk, (Obtained.merge H (.read Ha a hf) (.read Hb b hg)).same (.read Hc c hk)
      (rules_perm hc.symm)⟩
  · -- the other laws are equations between concatenations of rules
    intro f g ws vs H H' hf hg
    exact (Obtained.merge H hf hg).same (.merge H' hg hf) (rules_perm List.perm_append_comm)
  · intro f g k ws vs us H₁ H₂ H₃ H₄ hf hg hk
    refine (Obtained.merge H₂ (.merge H₁ hf hg) hk).same (.merge H₃ hf (.merge H₄ hg hk)) ?_
    rw [List.append_assoc]
  · intro f ws H hf
    refine (Obtained.merge H hf hf).same hf ?_
    rw [rules_append, Set.union_self]
  · intro f g ws vs hf hg h
    have hsame := hf.same hg (rules_perm h)
    exact ⟨hsame, hsame.count_eq, hsame.match_eq⟩

/-- The laws are about real lists: a black list with a substring that makes a
suffix of the other list redundant. -/
theorem merge_canonical_two_lists :
    ∃ f g, of_stream (.front Str) "*.ads.net mail.org".toList = .ok f ∧
      of_stream (.front Str) "*ads* # comment".toList = .ok g ∧
      ∃ k, of_stream (.front Str) "mail.org *ads* *.ads.net".toList = .ok k ∧
        Same (f.merge (.front Str) g) k := by
  obtain ⟨h, -⟩ := merge_canonical (a := "*.ads.net mail.org".toList) (b := "*ads* # comment".toList)
    (by decide) (by decide)
  obtain ⟨f, g, hf, hg, hk⟩ := h (.front Str) (.front Str)
  exact ⟨f, g, hf, hg, hk _ (.front Str) (.front Str) (by decide)⟩

end Cdns.Filter
