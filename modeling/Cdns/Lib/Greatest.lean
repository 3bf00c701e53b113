/-
The last of the greatest elements of a list.

A scan that keeps the element with the greater key, and of two elements with equal keys the later
one, ends with the last of the greatest elements (`LastMax.concat`). Which of them that is
depends on the order of the list; its key does not (`LastMax.key_eq_of_perm`).
-/
import Mathlib.Data.List.Perm.Basic
import Mathlib.Order.Defs.LinearOrder
import Mathlib.Tactic

set_option autoImplicit false

namespace Lib.Greatest

variable {α β : Type*} [LinearOrder β] {key : α → β} {l l' : List α} {a b : α}

/-- No key is greater, and all keys behind it are smaller. -/
def LastMax (key : α → β) (l : List α) (a : α) : Prop :=
  ∃ l₁ l₂, l = l₁ ++ a :: l₂ ∧ (∀ x ∈ l₁, key x ≤ key a) ∧ ∀ x ∈ l₂, key x < key a

theorem LastMax.singleton (key : α → β) (a : α) : LastMax key [a] a :=
  ⟨[], [], rfl, fun _ h => absurd h List.not_mem_nil, fun _ h => absurd h List.not_mem_nil⟩

theorem LastMax.mem (h : LastMax key l a) : a ∈ l := by
  obtain ⟨l₁, l₂, rfl, -, -⟩ := h
  exact List.mem_append_right l₁ List.mem_cons_self

theorem LastMax.le (h : LastMax key l a) (hb : b ∈ l) : key b ≤ key a := by
  obtain ⟨l₁, l₂, rfl, h₁, h₂⟩ := h
  rcases List.mem_append.mp hb with hb | hb
  · exact h₁ b hb
  · rcases List.mem_cons.mp hb with rfl | hb
    · exact le_refl _
    · exact le_of_lt (h₂ b hb)

/-- One step of the scan. -/
theorem LastMax.concat (h : LastMax key l a) (b : α) :
    LastMax key (l ++ [b]) (if key a ≤ key b then b else a) := by
  by_cases hab : key a ≤ key b
  · rw [if_pos hab]
    refine ⟨l, [], rfl, ?_, fun _ hx => absurd hx List.not_mem_nil⟩
    intro x hx
    exact le_trans (h.le hx) hab
  · rw [if_neg hab]
    obtain ⟨l₁, l₂, rfl, h₁, h₂⟩ := h
    refine ⟨l₁, l₂ ++ [b], by simp, h₁, ?_⟩
    intro x hx
    rcases List.mem_append.mp hx with hx | hx
    · exact h₂ x hx
    · rw [List.mem_singleton.mp hx]
      exact lt_of_not_ge hab

/-- **The order of the list does not matter** for the key. -/
theorem LastMax.key_eq_of_perm (h : LastMax key l a) (h' : LastMax key l' b)
    (hperm : l'.Perm l) : key b = key a := by
  apply le_antisymm
  · exact h.le (hperm.subset h'.mem)
  · exact h'.le (hperm.symm.subset h.mem)

end Lib.Greatest
