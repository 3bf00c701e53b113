/-
Hash sets with an unspecified iteration order.

The order in which a hash set lists its elements depends on the hash function,
on the bucket count and on the history of the table, and no program may rely on
it. Here the order is data: a set is the list of its elements in the order an
iteration would show them, and an insertion asks a `Placement` where the new
element lands and how a rehash moves the others. Statements proved for every
`Placement` hold for every order.
-/
import Mathlib.Data.List.Dedup
import Mathlib.Tactic

set_option autoImplicit false

namespace Lib.Unordered

variable {α : Type*}

/-- How an insertion arranges the elements. -/
structure Placement (α : Type*) where
  place : List α → α → List α
  perm : ∀ l a, (place l a).Perm (a :: l)

/-- The placement that puts a new element first. -/
def Placement.front (α : Type*) : Placement α := ⟨fun l a => a :: l, fun _ _ => List.Perm.refl _⟩

/-- A hash set, as the list an iteration over it shows. -/
structure HashSet (α : Type*) where
  elems : List α
  nodup : elems.Nodup

namespace HashSet

instance : Membership α (HashSet α) := ⟨fun s x => x ∈ s.elems⟩

theorem mem_def {s : HashSet α} {x : α} : x ∈ s ↔ x ∈ s.elems := Iff.rfl

/-- The set without elements. -/
def empty : HashSet α := ⟨[], List.nodup_nil⟩

/-- Erase, in one iteration, the elements that fail a test. -/
def filter (s : HashSet α) (p : α → Bool) : HashSet α := ⟨s.elems.filter p, s.nodup.filter p⟩

theorem mem_filter {s : HashSet α} {p : α → Bool} {x : α} :
    x ∈ s.filter p ↔ x ∈ s ∧ p x = true := List.mem_filter

/-- Insert an element, wherever it lands. -/
def insert [DecidableEq α] (H : Placement α) (s : HashSet α) (a : α) : HashSet α :=
  if h : a ∈ s.elems then s
  else ⟨H.place s.elems a, (H.perm s.elems a).nodup_iff.mpr (List.nodup_cons.mpr ⟨h, s.nodup⟩)⟩

theorem mem_insert [DecidableEq α] (H : Placement α) {s : HashSet α} {a x : α} :
    x ∈ s.insert H a ↔ x = a ∨ x ∈ s := by
  unfold insert
  split_ifs with h
  · constructor
    · exact Or.inr
    · rintro (rfl | hx)
      · exact h
      · exact hx
  · rw [mem_def, (H.perm s.elems a).mem_iff, List.mem_cons, mem_def]

/-- Sets with the same elements have the same number of them. -/
theorem length_eq_of_mem_iff {s t : HashSet α} (h : ∀ x, x ∈ s ↔ x ∈ t) :
    s.elems.length = t.elems.length :=
  ((List.perm_ext_iff_of_nodup s.nodup t.nodup).mpr h).length_eq

end HashSet

end Lib.Unordered
