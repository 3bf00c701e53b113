/-
Sets of patterns in which one pattern may make another redundant.

`covers p x` says that whatever `x` matches, `p` matches too: for prefix
patterns `p` is a prefix of `x`, for substring patterns a factor of it. A set of
patterns is then as good as the set of its irredundant members, `leastOf`, and
the file says how that set changes when patterns are added one by one
(`leastOf_insert_covered`, `leastOf_insert_new`) or when two pruned sets are
joined (`leastOf_union`).

The second half is the ordered representation. When `covers` is *convex* in a
strict total order -- everything between `p` and something `p` covers is itself
covered by `p`, as for prefixes in the lexicographic order -- a pruned sorted
list answers "is `z` covered?" from the one neighbour below `z`
(`WordSet.matchesWord_iff`), and an insertion only has to look at the neighbour
below and at the run of elements above (`WordSet.mem_insertWord`).
-/
import Mathlib.Data.List.Sort
import Mathlib.Data.List.TakeWhile
import Mathlib.Data.Set.Insert
import Mathlib.Order.WellFounded
import Mathlib.Tactic

set_option autoImplicit false

namespace Lib.CoverSet

/-! ## Redundancy -/

section Covering

variable {β : Type*}

/-- A redundancy order: a partial order in which no pattern has an endless
sequence of ever more general patterns above it. -/
structure Covering (covers : β → β → Prop) : Prop where
  refl : ∀ x, covers x x
  trans : ∀ {x y z}, covers x y → covers y z → covers x z
  antisymm : ∀ {x y}, covers x y → covers y x → x = y
  wf : WellFounded fun x y => covers x y ∧ x ≠ y

/-- The members of `P` that no other member covers. -/
def leastOf (covers : β → β → Prop) (P : Set β) : Set β :=
  {x | x ∈ P ∧ ∀ y ∈ P, covers y x → y = x}

variable {covers : β → β → Prop} (C : Covering covers) {P Q : Set β}

theorem leastOf_subset : leastOf covers P ⊆ P := fun _ hx => hx.1

include C in
/-- Everything in `P` is covered by an irredundant member of `P`. -/
theorem exists_leastOf_covers {x : β} (hx : x ∈ P) : ∃ p ∈ leastOf covers P, covers p x := by
  -- a minimal member among those of `P` that cover `x` covers it and is irredundant
  obtain ⟨p, ⟨hpP, hpx⟩, hmin⟩ := C.wf.has_min {y | y ∈ P ∧ covers y x} ⟨x, hx, C.refl x⟩
  refine ⟨p, ⟨hpP, fun y hy hyp => ?_⟩, hpx⟩
  by_contra hne
  exact hmin y ⟨hy, C.trans hyp hpx⟩ ⟨hyp, hne⟩

include C in
/-- Pruning does not change what is covered. -/
theorem covered_leastOf_iff (z : β) :
    (∃ p ∈ leastOf covers P, covers p z) ↔ ∃ p ∈ P, covers p z := by
  constructor
  · rintro ⟨p, hp, hpz⟩
    exact ⟨p, leastOf_subset hp, hpz⟩
  · rintro ⟨p, hp, hpz⟩
    obtain ⟨q, hq, hqp⟩ := exists_leastOf_covers C hp
    exact ⟨q, hq, C.trans hqp hpz⟩

include C in
/-- A pattern that is already covered adds nothing. -/
theorem leastOf_insert_covered {w : β} (hw : ∃ p ∈ leastOf covers P, covers p w) :
    leastOf covers (insert w P) = leastOf covers P := by
  obtain ⟨p, hp, hpw⟩ := hw
  ext x
  constructor
  · rintro ⟨hx, hmin⟩
    have hxP : x ∈ P := by
      rcases hx with rfl | hx
      · rw [← hmin p (Set.mem_insert_of_mem _ hp.1) hpw]
        exact hp.1
      · exact hx
    exact ⟨hxP, fun y hy => hmin y (Set.mem_insert_of_mem _ hy)⟩
  · rintro ⟨hx, hmin⟩
    refine ⟨Set.mem_insert_of_mem _ hx, ?_⟩
    rintro y (rfl | hy) hyx
    · have hpx : p = x := hmin p hp.1 (C.trans hpw hyx)
      exact C.antisymm hyx (hpx ▸ hpw)
    · exact hmin y hy hyx

include C in
/-- A pattern that is not covered joins the pruned set and drives out what it
covers. -/
theorem leastOf_insert_new {w : β} (hw : ¬ ∃ p ∈ leastOf covers P, covers p w) :
    leastOf covers (insert w P) = insert w {x | x ∈ leastOf covers P ∧ ¬ covers w x} := by
  have hwP : ∀ y ∈ P, ¬ covers y w := fun y hy hyw =>
    hw ((covered_leastOf_iff C w).mpr ⟨y, hy, hyw⟩)
  ext x
  constructor
  · rintro ⟨hx, hmin⟩
    rcases hx with rfl | hx
    · exact Set.mem_insert _ _
    · by_cases hwx : covers w x
      · exact Or.inl (hmin w (Set.mem_insert _ _) hwx).symm
      · exact Or.inr ⟨⟨hx, fun y hy => hmin y (Set.mem_insert_of_mem _ hy)⟩, hwx⟩
  · rintro (rfl | ⟨⟨hx, hmin⟩, hwx⟩)
    · refine ⟨Set.mem_insert _ _, ?_⟩
      rintro y (rfl | hy) hyx
      · rfl
      · exact absurd hyx (hwP y hy)
    · refine ⟨Set.mem_insert_of_mem _ hx, ?_⟩
      rintro y (rfl | hy) hyx
      · exact absurd hyx hwx
      · exact hmin y hy hyx

include C in
/-- Pruning two sets before joining them loses nothing. -/
theorem leastOf_union :
    leastOf covers (leastOf covers P ∪ leastOf covers Q) = leastOf covers (P ∪ Q) := by
  ext x
  constructor
  · rintro ⟨hx, hmin⟩
    refine ⟨hx.imp (fun h => leastOf_subset h) (fun h => leastOf_subset h), ?_⟩
    rintro y hy hyx
    -- whatever covers `x` is itself covered by something that survives pruning
    have key : ∀ R : Set β, y ∈ R → leastOf covers R ⊆ leastOf covers P ∪ leastOf covers Q →
        y = x := by
      intro R hyR hsub
      obtain ⟨p, hp, hpy⟩ := exists_leastOf_covers C hyR
      have hpx : p = x := hmin p (hsub hp) (C.trans hpy hyx)
      exact C.antisymm hyx (hpx ▸ hpy)
    rcases hy with hy | hy
    · exact key P hy Set.subset_union_left
    · exact key Q hy Set.subset_union_right
  · rintro ⟨hx, hmin⟩
    refine ⟨?_, fun y hy hyx => ?_⟩
    · rcases hx with hx | hx
      · exact Or.inl ⟨hx, fun y hy => hmin y (Or.inl hy)⟩
      · exact Or.inr ⟨hx, fun y hy => hmin y (Or.inr hy)⟩
    · exact hmin y (hy.imp (fun h => leastOf_subset h) (fun h => leastOf_subset h)) hyx

include C in
theorem leastOf_idem : leastOf covers (leastOf covers P) = leastOf covers P := by
  have h := leastOf_union C (P := P) (Q := P)
  rwa [Set.union_self, Set.union_self] at h

include C in
/-- **Pruning in the presence of a second rule.** `K` is another reason for
which a pattern is redundant, inherited by everything the pattern covers. If
every pattern of `P` is covered from within `A` or satisfies `K`, then `A` and `P` have
the same irredundant patterns outside `K`. -/
theorem leastOf_not_killed {A : Set β} {K : β → Prop} (hA : A ⊆ P)
    (hcov : ∀ p ∈ P, (∃ a ∈ A, covers a p) ∨ K p)
    (hmono : ∀ p ∈ P, ∀ x, covers p x → K p → K x) (x : β) :
    (x ∈ leastOf covers A ∧ ¬ K x) ↔ (x ∈ leastOf covers P ∧ ¬ K x) := by
  refine and_congr_left fun hk => ⟨?_, ?_⟩
  · rintro ⟨hx, hmin⟩
    refine ⟨hA hx, fun y hy hyx => ?_⟩
    rcases hcov y hy with ⟨a, ha, hay⟩ | hky
    · have hax : a = x := hmin a ha (C.trans hay hyx)
      exact C.antisymm hyx (hax ▸ hay)
    · exact absurd (hmono y hy x hyx hky) hk
  · rintro ⟨hx, hmin⟩
    refine ⟨?_, fun y hy => hmin y (hA hy)⟩
    rcases hcov x hx with ⟨a, ha, hax⟩ | hkx
    · exact hmin a (hA ha) hax ▸ ha
    · exact absurd hkx hk

end Covering

/-! ## Sorted lists

A predicate that holds downwards cuts a sorted list in two, so the linear scans
`takeWhile` and `dropWhile` are filters there. -/

section Sorted

variable {β : Type*} {lt : β → β → Prop} {p : β → Bool}

theorem takeWhile_eq_filter {l : List β} (hs : l.Pairwise lt)
    (hp : ∀ x y, lt x y → p y = true → p x = true) : l.takeWhile p = l.filter p := by
  induction l with
  | nil => rfl
  | cons a l ih =>
      have hs' := List.pairwise_cons.mp hs
      by_cases ha : p a = true
      · rw [List.takeWhile_cons_of_pos ha, List.filter_cons_of_pos ha, ih hs'.2]
      · rw [List.takeWhile_cons_of_neg ha, List.filter_cons_of_neg ha, eq_comm,
          List.filter_eq_nil_iff]
        exact fun x hx hpx => ha (hp a x (hs'.1 x hx) hpx)

theorem dropWhile_eq_filter {l : List β} (hs : l.Pairwise lt)
    (hp : ∀ x ∈ l, ∀ y ∈ l, lt x y → p y = true → p x = true) :
    l.dropWhile p = l.filter fun x => !p x := by
  induction l with
  | nil => rfl
  | cons a l ih =>
      have hs' := List.pairwise_cons.mp hs
      have hp' : ∀ x ∈ l, ∀ y ∈ l, lt x y → p y = true → p x = true := fun x hx y hy =>
        hp x (List.mem_cons_of_mem _ hx) y (List.mem_cons_of_mem _ hy)
      by_cases ha : p a = true
      · rw [List.dropWhile_cons_of_pos ha, List.filter_cons_of_neg (by simpa using ha),
          ih hs'.2 hp']
      · rw [List.dropWhile_cons_of_neg ha, List.filter_cons_of_pos (by simpa using ha)]
        congr 1
        refine (List.filter_eq_self.mpr fun x hx => ?_).symm
        simp only [Bool.not_eq_true']
        by_contra hpx
        exact ha (hp a List.mem_cons_self x (List.mem_cons_of_mem _ hx) (hs'.1 x hx)
          (by simpa using hpx))

/-- The last element of a sorted list is an upper bound of it. -/
theorem le_of_getLast? {l : List β} (hs : l.Pairwise lt) {m x : β} (hm : l.getLast? = some m)
    (hx : x ∈ l) : x = m ∨ lt x m := by
  obtain ⟨l', rfl⟩ := List.getLast?_eq_some_iff.mp hm
  rcases List.mem_append.mp hx with h | h
  · exact Or.inr ((List.pairwise_append.mp hs).2.2 x h m List.mem_cons_self)
  · exact Or.inl (List.mem_singleton.mp h)

end Sorted

/-! ## Ordered pattern sets -/

/-- A strict total order together with a redundancy order convex in it. `lt`
and `covers` are the tests a program makes; the laws are what its searches rely
on. -/
structure Order (β : Type*) where
  lt : β → β → Bool
  covers : β → β → Bool
  covering : Covering fun x y => covers x y = true
  lt_irrefl : ∀ x, lt x x = false
  lt_trans : ∀ {x y z}, lt x y = true → lt y z = true → lt x z = true
  lt_connex : ∀ {x y}, lt x y = false → lt y x = false → x = y
  le_of_covers : ∀ {p x}, covers p x = true → lt x p = false
  convex : ∀ {p x z}, covers p z = true → lt x p = false → lt z x = false → covers p x = true

/-- A sorted list of patterns none of which covers another. -/
@[ext] structure WordSet {β : Type*} (O : Order β) where
  elems : List β
  sorted : elems.Pairwise fun x y => O.lt x y = true
  antichain : ∀ x ∈ elems, ∀ y ∈ elems, O.covers x y = true → x = y

namespace WordSet

variable {β : Type*} {O : Order β}

instance : Membership β (WordSet O) := ⟨fun s x => x ∈ s.elems⟩

theorem mem_def {s : WordSet O} {x : β} : x ∈ s ↔ x ∈ s.elems := Iff.rfl

/-- A set is determined by its members: the order fixes the list. -/
theorem ext_mem {s t : WordSet O} (h : ∀ x, x ∈ s ↔ x ∈ t) : s = t := by
  apply WordSet.ext
  have : Std.Irrefl fun x y => O.lt x y = true := ⟨fun x => by simp [O.lt_irrefl]⟩
  have : Std.Antisymm fun x y => O.lt x y = true :=
    ⟨fun x y h₁ h₂ => by simpa [O.lt_irrefl] using O.lt_trans h₁ h₂⟩
  exact s.sorted.eq_of_mem_iff t.sorted h

/-- The set without patterns. -/
def empty : WordSet O := ⟨[], List.Pairwise.nil, by simp⟩

/-- The members that pass a test. -/
def filter (s : WordSet O) (p : β → Bool) : WordSet O where
  elems := s.elems.filter p
  sorted := s.sorted.filter p
  antichain := fun x hx y hy =>
    s.antichain x (List.mem_of_mem_filter hx) y (List.mem_of_mem_filter hy)

theorem mem_filter {s : WordSet O} {p : β → Bool} {x : β} :
    x ∈ s.filter p ↔ x ∈ s ∧ p x = true := List.mem_filter

/-- The greatest member not above `z`, found by cutting at the first member
above `z`. -/
def below (s : WordSet O) (z : β) : Option β := (s.elems.takeWhile fun x => !O.lt z x).getLast?

theorem below_scan (s : WordSet O) (z : β) :
    (s.elems.takeWhile fun x => !O.lt z x) = s.elems.filter fun x => !O.lt z x := by
  refine takeWhile_eq_filter s.sorted fun x y hxy hy => ?_
  simp only [Bool.not_eq_true'] at hy ⊢
  by_contra hzx
  rw [O.lt_trans (by simpa using hzx) hxy] at hy
  exact absurd hy (by simp)

/-- The neighbour below `z` covers it. -/
def matchesWord (s : WordSet O) (z : β) : Bool := (s.below z).any fun p => O.covers p z

/-- **One neighbour decides.** Some member covers `z` exactly when the greatest
member not above `z` does. -/
theorem matchesWord_iff (s : WordSet O) (z : β) :
    s.matchesWord z = true ↔ ∃ p ∈ s, O.covers p z = true := by
  rw [matchesWord, Option.any_eq_true, below, below_scan]
  constructor
  · rintro ⟨p, hp, hpz⟩
    exact ⟨p, List.mem_of_mem_filter (List.mem_of_getLast? hp), hpz⟩
  · rintro ⟨p, hp, hpz⟩
    have hpf : p ∈ s.elems.filter fun x => !O.lt z x :=
      List.mem_filter.mpr ⟨hp, by simpa using O.le_of_covers hpz⟩
    obtain ⟨m, hm⟩ : ∃ m, (s.elems.filter fun x => !O.lt z x).getLast? = some m := by
      rw [← Option.isSome_iff_exists, List.getLast?_isSome]
      exact List.ne_nil_of_mem hpf
    have hmf := List.mem_of_getLast? hm
    have hms := List.mem_filter.mp hmf
    -- `p ≤ m ≤ z`, so `p` covers the neighbour `m`, and there is only one such member
    have hle : O.lt m p = false := by
      rcases le_of_getLast? (s.sorted.filter _) hm hpf with rfl | hlt
      · exact O.lt_irrefl _
      · by_contra hmp
        have := O.lt_trans (by simpa using hmp) hlt
        rw [O.lt_irrefl] at this
        exact absurd this (by simp)
    have hpm : O.covers p m = true := O.convex hpz hle (by simpa using hms.2)
    have : p = m := s.antichain p hp m hms.1 hpm
    exact ⟨m, hm, this ▸ hpz⟩

/-- The elements an insertion of `w` keeps above `w`: the run `w` covers goes. -/
def above (s : WordSet O) (w : β) : List β :=
  (s.elems.dropWhile fun x => O.lt x w).dropWhile fun x => O.covers w x

theorem lower_scan (s : WordSet O) (w : β) :
    (s.elems.takeWhile fun x => O.lt x w) = s.elems.filter fun x => O.lt x w :=
  takeWhile_eq_filter s.sorted fun _ _ hxy hy => O.lt_trans hxy hy

theorem upper_scan (s : WordSet O) (w : β) :
    (s.elems.dropWhile fun x => O.lt x w) = s.elems.filter fun x => !O.lt x w :=
  dropWhile_eq_filter s.sorted fun _ _ _ _ hxy hy => O.lt_trans hxy hy

theorem above_scan (s : WordSet O) (w : β) :
    s.above w = (s.elems.filter fun x => !O.lt x w).filter fun x => !O.covers w x := by
  rw [above, upper_scan]
  refine dropWhile_eq_filter (s.sorted.filter _) fun x hx y hy hxy hwy => ?_
  have hx' := (List.mem_filter.mp hx).2
  refine O.convex hwy (by simpa using hx') ?_
  by_contra hyx
  have := O.lt_trans hxy (by simpa using hyx)
  rw [O.lt_irrefl] at this
  exact absurd this (by simp)

theorem mem_above {s : WordSet O} {w x : β} :
    x ∈ s.above w ↔ x ∈ s ∧ O.lt x w = false ∧ O.covers w x = false := by
  rw [above_scan]
  simp only [List.mem_filter, Bool.not_eq_true', mem_def]
  tauto

theorem sorted_insert {s : WordSet O} {w : β} (hw : w ∉ s) :
    ((s.elems.takeWhile fun x => O.lt x w) ++ w :: s.above w).Pairwise
      fun x y => O.lt x y = true := by
  have hlow : ∀ x ∈ s.elems.takeWhile fun x => O.lt x w, O.lt x w = true := by
    intro x hx
    rw [lower_scan] at hx
    exact (List.mem_filter.mp hx).2
  have habove : ∀ y ∈ s.above w, O.lt w y = true := by
    intro y hy
    obtain ⟨hys, hyw, -⟩ := mem_above.mp hy
    by_contra hwy
    exact hw (O.lt_connex hyw (by simpa using hwy) ▸ hys)
  refine List.pairwise_append.mpr ⟨s.sorted.sublist (List.takeWhile_sublist _), ?_, ?_⟩
  · refine List.pairwise_cons.mpr ⟨habove, ?_⟩
    rw [above_scan]
    exact (s.sorted.filter _).filter _
  · intro x hx y hy
    rcases List.mem_cons.mp hy with rfl | hy
    · exact hlow x hx
    · exact O.lt_trans (hlow x hx) (habove y hy)

theorem mem_insert_list {s : WordSet O} {w x : β} :
    x ∈ (s.elems.takeWhile fun x => O.lt x w) ++ w :: s.above w ↔
      x = w ∨ (x ∈ s ∧ O.covers w x = false) := by
  rw [List.mem_append, List.mem_cons, mem_above, lower_scan, List.mem_filter, ← mem_def]
  constructor
  · rintro (⟨hx, hlt⟩ | rfl | ⟨hx, -, hc⟩)
    · refine Or.inr ⟨hx, ?_⟩
      by_contra hc
      rw [O.le_of_covers (by simpa using hc)] at hlt
      exact absurd hlt (by simp)
    · exact Or.inl rfl
    · exact Or.inr ⟨hx, hc⟩
  · rintro (rfl | ⟨hx, hc⟩)
    · exact Or.inr (Or.inl rfl)
    · rcases hlt : O.lt x w with _ | _
      · exact Or.inr (Or.inr ⟨hx, rfl, hc⟩)
      · exact Or.inl ⟨hx, rfl⟩

/-- Put `w` at its place, unless the neighbour below covers it, and drop the
run of elements behind it that it covers. -/
def insertWord [DecidableEq β] (s : WordSet O) (w : β) : WordSet O :=
  if hw : w ∈ s.elems then s
  else if hb : s.matchesWord w = true then s
  else {
    elems := (s.elems.takeWhile fun x => O.lt x w) ++ w :: s.above w
    sorted := sorted_insert hw
    antichain := by
      have hcov : ∀ y ∈ s, ¬ O.covers y w = true := fun y hy hyw =>
        hb ((matchesWord_iff s w).mpr ⟨y, hy, hyw⟩)
      intro x hx y hy hxy
      rcases mem_insert_list.mp hx with rfl | ⟨hxs, hwx⟩ <;>
        rcases mem_insert_list.mp hy with rfl | ⟨hys, hwy⟩
      · rfl
      · rw [hwy] at hxy
        exact absurd hxy (by simp)
      · exact absurd hxy (hcov x hxs)
      · exact s.antichain x hxs y hys hxy }

/-- The members of a pattern set are the irredundant ones among them. -/
theorem mem_iff_leastOf_self {s : WordSet O} (x : β) :
    x ∈ s ↔ x ∈ leastOf (fun x y => O.covers x y = true) {x | x ∈ s} :=
  ⟨fun hx => ⟨hx, fun y hy hyx => s.antichain y hy x hx hyx⟩, fun hx => hx.1⟩

/-- **Insertion prunes.** A set that holds the irredundant members of `P` holds
those of `P` with `w` added after `w` has been inserted. -/
theorem mem_insertWord [DecidableEq β] {s : WordSet O} {P : Set β}
    (hs : ∀ x, x ∈ s ↔ x ∈ leastOf (fun x y => O.covers x y = true) P) (w x : β) :
    x ∈ s.insertWord w ↔ x ∈ leastOf (fun x y => O.covers x y = true) (insert w P) := by
  have hcov : (∃ p ∈ leastOf (fun x y => O.covers x y = true) P, O.covers p w = true) ↔
      s.matchesWord w = true := by
    rw [matchesWord_iff]
    exact exists_congr fun p => and_congr_left fun _ => (hs p).symm
  by_cases hm : s.matchesWord w = true
  · have heq : s.insertWord w = s := by
      unfold insertWord
      split_ifs <;> rfl
    rw [heq, hs, leastOf_insert_covered O.covering (hcov.mpr hm)]
  · have hw : w ∉ s.elems := fun hw =>
      hm ((matchesWord_iff s w).mpr ⟨w, hw, O.covering.refl w⟩)
    have hlist : x ∈ s.insertWord w ↔ x = w ∨ (x ∈ s ∧ O.covers w x = false) := by
      rw [insertWord, dif_neg hw, dif_neg hm]
      exact mem_insert_list
    rw [hlist, leastOf_insert_new O.covering fun h => hm (hcov.mp h), hs]
    simp [Set.mem_insert_iff]

/-- Inserting a list of patterns one by one. -/
theorem mem_foldl_insertWord [DecidableEq β] (l : List β) {s : WordSet O} {P : Set β}
    (hs : ∀ x, x ∈ s ↔ x ∈ leastOf (fun x y => O.covers x y = true) P) (x : β) :
    x ∈ l.foldl insertWord s ↔
      x ∈ leastOf (fun x y => O.covers x y = true) (P ∪ {y | y ∈ l}) := by
  induction l generalizing s P with
  | nil => simp [hs]
  | cons w l ih =>
      rw [List.foldl_cons, ih (P := insert w P) (mem_insertWord hs w)]
      have : insert w P ∪ {y | y ∈ l} = P ∪ {y | y ∈ w :: l} := by
        ext y
        simp only [Set.mem_union, Set.mem_insert_iff, Set.mem_ofPred_eq, List.mem_cons]
        tauto
      rw [this]

end WordSet

end Lib.CoverSet
