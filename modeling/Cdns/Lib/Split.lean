/-
Lists cut at a separator.

`List.splitOn` cuts a list at every occurrence of a separator. A piece has no separator in
it and is a part of the list (`mem_splitOn`), and there is one piece exactly when the list
has no separator (`length_splitOn_eq_one`). What stands between the pieces when they are
joined again need not be one element.

The words of a list are its pieces between separators of any kind, the empty ones left out.
-/
import Mathlib.Data.List.Basic

set_option autoImplicit false

namespace Lib.Split

variable {α : Type*} [BEq α] [LawfulBEq α]

/-- A piece lies in the list, between separators. -/
theorem mem_splitOn {x : α} {s p : List α} (h : p ∈ s.splitOn x) : x ∉ p ∧ p.Sublist s := by
  induction s generalizing p with
  | nil =>
      rw [List.splitOn_nil, List.mem_singleton] at h
      rw [h]
      exact ⟨List.not_mem_nil, List.Sublist.refl []⟩
  | cons y s ih =>
      rw [List.splitOn_cons_eq_if_modifyHead] at h
      split_ifs at h with hy
      · -- a separator: the pieces of the rest, and an empty one
        rcases List.mem_cons.mp h with rfl | h
        · exact ⟨List.not_mem_nil, List.nil_sublist _⟩
        · exact ⟨(ih h).1, (ih h).2.trans (List.sublist_cons_self y s)⟩
      · -- the first piece of the rest gets longer
        obtain ⟨q, qs, hqs⟩ := List.exists_cons_of_ne_nil (List.splitOn_ne_nil x s)
        rw [hqs, List.modifyHead_cons] at h
        rcases List.mem_cons.mp h with rfl | h
        · obtain ⟨hx, hsub⟩ := ih (hqs ▸ List.mem_cons_self ..)
          refine ⟨?_, hsub.cons_cons y⟩
          rw [List.mem_cons, not_or]
          refine ⟨fun heq => hy ?_, hx⟩
          rw [heq]
          exact beq_self_eq_true y
        · obtain ⟨hx, hsub⟩ := ih (hqs ▸ List.mem_cons_of_mem q h)
          exact ⟨hx, hsub.trans (List.sublist_cons_self y s)⟩

omit [BEq α] [LawfulBEq α] in
/-- Pieces behind pieces. -/
theorem intercalate_append (ys : List α) {zs ws : List (List α)} (hzs : zs ≠ []) (hws : ws ≠ []) :
    ys.intercalate (zs ++ ws) = ys.intercalate zs ++ ys ++ ys.intercalate ws := by
  induction zs with
  | nil => exact absurd rfl hzs
  | cons z zs ih =>
      by_cases hnil : zs = []
      · rw [hnil, List.singleton_append, List.intercalate_cons_of_ne_nil hws,
          List.intercalate_singleton]
      · rw [List.cons_append, List.intercalate_cons_of_ne_nil (by simp [hnil]), ih hnil,
          List.intercalate_cons_of_ne_nil hnil]
        simp only [List.append_assoc]

omit [BEq α] [LawfulBEq α] in
/-- A piece more at the end. -/
theorem intercalate_concat (ys : List α) {zs : List (List α)} (hzs : zs ≠ []) (l : List α) :
    ys.intercalate (zs ++ [l]) = ys.intercalate zs ++ ys ++ l := by
  rw [intercalate_append ys hzs (List.cons_ne_nil l []), List.intercalate_singleton]

omit [BEq α] [LawfulBEq α] in
/-- **Induction over the pieces**, from the last one. -/
theorem induction_pieces (x : α) {P : List α → Prop} (last : ∀ l, x ∉ l → P l)
    (cons : ∀ l r, x ∉ l → P r → P (l ++ x :: r)) (s : List α) : P s := by
  -- a part of the first piece is taken off before its end is seen
  have hpart : ∀ s l : List α, x ∉ l → P (l ++ s) := by
    intro s
    induction s with
    | nil =>
        intro l hl
        rw [List.append_nil]
        exact last l hl
    | cons y s ih =>
        intro l hl
        by_cases hy : x = y
        · rw [← hy]
          exact cons l s hl (ih [] List.not_mem_nil)
        · rw [← List.singleton_append, ← List.append_assoc]
          refine ih (l ++ [y]) ?_
          rw [List.mem_append, List.mem_singleton]
          exact fun hmem => hmem.elim hl hy
  exact hpart s [] List.not_mem_nil

omit [BEq α] [LawfulBEq α] in
/-- What is left out is left out of the pieces and of what stands between them. -/
theorem filter_intercalate (f : α → Bool) (ys : List α) (zs : List (List α)) :
    (ys.intercalate zs).filter f = (ys.filter f).intercalate (zs.map (List.filter f)) := by
  induction zs with
  | nil => rfl
  | cons z zs ih =>
      by_cases hnil : zs = []
      · rw [hnil]
        simp
      · rw [List.intercalate_cons_of_ne_nil hnil, List.filter_append, List.filter_append, ih,
          List.map_cons, List.intercalate_cons_of_ne_nil (by simpa using hnil)]

/-- One piece is the whole list. -/
theorem length_splitOn_eq_one {x : α} {s : List α} : (s.splitOn x).length = 1 ↔ x ∉ s := by
  constructor
  · intro h
    obtain ⟨p, hp⟩ := List.length_eq_one_iff.mp h
    have hs : s = p := by
      have hjoin : [x].intercalate (s.splitOn x) = s := List.intercalate_splitOn x
      rw [hp] at hjoin
      simpa using hjoin.symm
    rw [hs]
    exact (mem_splitOn (hp ▸ List.mem_singleton_self p)).1
  · intro h
    rw [List.splitOn_eq_singleton h]
    rfl

/-! ## Words -/

section Words

variable {β : Type*} {p : β → Bool}

/-- The words of a list: what stands between the elements of `p`, if it is something. -/
def words (p : β → Bool) (l : List β) : List (List β) := (l.splitOnP p).filter fun w => !w.isEmpty

/-- An element of `p` ends a word. -/
theorem words_append_cons (l r : List β) {x : β} (hx : p x = true) :
    words p (l ++ x :: r) = words p l ++ words p r := by
  unfold words
  rw [List.splitOnP_append_cons l r hx, List.filter_append]

/-- Elements of `p` in front belong to no word. -/
theorem words_append_left {s : List β} (hs : ∀ x ∈ s, p x = true) (l : List β) :
    words p (s ++ l) = words p l := by
  induction s with
  | nil => rfl
  | cons x s ih =>
      obtain ⟨hx, hs⟩ := List.forall_mem_cons.mp hs
      have hcons : words p (x :: (s ++ l)) = words p (s ++ l) := words_append_cons [] (s ++ l) hx
      rw [List.cons_append, hcons, ih hs]

/-- Without one there is a single word. -/
theorem words_eq_singleton {w : List β} (hne : w ≠ []) (hw : ∀ x ∈ w, p x = false) :
    words p w = [w] := by
  unfold words
  rw [List.splitOnP_eq_singleton hw]
  simp [hne]

/-- What a list starts with belongs to its first word. -/
theorem words_append {w : List β} (hne : w ≠ []) (hw : ∀ x ∈ w, p x = false) (l : List β) :
    ∃ v vs, words p (w ++ l) = (w ++ v) :: vs := by
  induction l generalizing w with
  | nil =>
      refine ⟨[], [], ?_⟩
      rw [List.append_nil, words_eq_singleton hne hw]
  | cons x l ih =>
      by_cases hx : p x = true
      · refine ⟨[], words p l, ?_⟩
        rw [words_append_cons w l hx, words_eq_singleton hne hw, List.append_nil,
          List.singleton_append]
      · have hwx : ∀ y ∈ w ++ [x], p y = false := by
          intro y hy
          rcases List.mem_append.mp hy with hy | hy
          · exact hw y hy
          · rw [List.mem_singleton.mp hy]
            simpa using hx
        obtain ⟨v, vs, h⟩ := ih (by simp) hwx
        refine ⟨x :: v, vs, ?_⟩
        rw [List.append_assoc, List.singleton_append] at h
        rw [h, List.append_assoc, List.singleton_append]

end Words

end Lib.Split
