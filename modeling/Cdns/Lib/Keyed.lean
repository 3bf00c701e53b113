/-
Sets of records with one record for each key.

The elements of such a set carry their key with them and may be changed in place
as long as the key stays: a hash set whose elements have mutable parts. The
iteration order is that of the list and no operation below depends on it, since
`lookup` finds the only element there is (`lookup_eq_some`).
-/
import Mathlib.Data.List.Nodup
import Mathlib.Tactic

set_option autoImplicit false

namespace Lib.Keyed

variable {ε κ : Type*} {key : ε → κ}

/-- Records, no two of which have the same key. -/
structure KeyedSet (key : ε → κ) where
  elems : List ε
  nodup : (elems.map key).Nodup

namespace KeyedSet

/-- The set without records. -/
def empty : KeyedSet key := ⟨[], List.nodup_nil⟩

variable [DecidableEq κ]

/-- The record with a key. -/
def lookup (s : KeyedSet key) (k : κ) : Option ε := s.elems.find? fun e => key e = k

theorem lookup_eq_some {s : KeyedSet key} {k : κ} {e : ε} :
    s.lookup k = some e ↔ e ∈ s.elems ∧ key e = k := by
  constructor
  · intro h
    exact ⟨List.mem_of_find?_eq_some h, by simpa using List.find?_some h⟩
  · rintro ⟨he, hk⟩
    obtain ⟨e', he'⟩ : ∃ e', s.lookup k = some e' := by
      rw [← Option.isSome_iff_exists, lookup, List.find?_isSome]
      exact ⟨e, he, by simpa using hk⟩
    have hmem := List.mem_of_find?_eq_some he'
    have hkey : key e' = k := by simpa using List.find?_some he'
    rw [he', List.inj_on_of_nodup_map s.nodup hmem he (hkey.trans hk.symm)]

theorem lookup_eq_none {s : KeyedSet key} {k : κ} :
    s.lookup k = none ↔ ∀ e ∈ s.elems, key e ≠ k := by
  simp [lookup, List.find?_eq_none]

/-- Change the record with a key in place. -/
def modify (s : KeyedSet key) (k : κ) (f : ε → ε) (hf : ∀ e, key (f e) = key e) :
    KeyedSet key where
  elems := s.elems.map fun e => if key e = k then f e else e
  nodup := by
    have : (s.elems.map fun e => if key e = k then f e else e).map key = s.elems.map key := by
      rw [List.map_map]
      refine List.map_congr_left fun e _ => ?_
      rw [Function.comp_apply]
      split_ifs
      · exact hf e
      · rfl
    rw [this]
    exact s.nodup

theorem lookup_modify (s : KeyedSet key) (k : κ) (f : ε → ε) (hf : ∀ e, key (f e) = key e)
    (k' : κ) :
    (s.modify k f hf).lookup k' = if k' = k then (s.lookup k').map f else s.lookup k' := by
  have hkey : ∀ e, key (if key e = k then f e else e) = key e := by
    intro e
    split_ifs
    · exact hf e
    · rfl
  have hfind : (s.modify k f hf).lookup k'
      = (s.lookup k').map fun e => if key e = k then f e else e := by
    rw [lookup, modify, List.find?_map]
    simp only [Function.comp_def, hkey]
    rfl
  rw [hfind]
  cases hl : s.lookup k' with
  | none => simp
  | some e =>
      have he := (lookup_eq_some.mp hl).2
      rw [Option.map_some, he]
      split_ifs <;> rfl

/-- Add a record, unless there is one with its key. -/
def insert (s : KeyedSet key) (e : ε) : KeyedSet key :=
  if h : ∃ e' ∈ s.elems, key e' = key e then s
  else {
    elems := s.elems ++ [e]
    nodup := by
      rw [List.map_append, List.map_singleton, List.nodup_append]
      refine ⟨s.nodup, List.nodup_singleton _, fun a ha b hb => ?_⟩
      obtain ⟨e', he', rfl⟩ := List.mem_map.mp ha
      rw [List.mem_singleton.mp hb]
      exact fun heq => h ⟨e', he', heq⟩ }

/-- A record with a new key goes to the end. -/
theorem insert_elems {s : KeyedSet key} {e : ε} (h : ∀ e' ∈ s.elems, key e' ≠ key e) :
    (s.insert e).elems = s.elems ++ [e] := by
  rw [insert, dif_neg]
  rintro ⟨e', he', heq⟩
  exact h e' he' heq

theorem mem_insert {s : KeyedSet key} {e e' : ε} (h : e' ∈ (s.insert e).elems) :
    e' ∈ s.elems ∨ e' = e := by
  unfold insert at h
  split_ifs at h
  · exact Or.inl h
  · rcases List.mem_append.mp h with h | h
    · exact Or.inl h
    · exact Or.inr (List.mem_singleton.mp h)

theorem lookup_insert (s : KeyedSet key) {e : ε} (hnew : s.lookup (key e) = none) (k : κ) :
    (s.insert e).lookup k = if k = key e then some e else s.lookup k := by
  have h : ¬ ∃ e' ∈ s.elems, key e' = key e := by
    rintro ⟨e', he', heq⟩
    exact lookup_eq_none.mp hnew e' he' heq
  rw [insert, dif_neg h, lookup, List.find?_append, List.find?_singleton]
  by_cases hk : k = key e
  · rw [if_pos hk, hk]
    rw [lookup] at hnew
    rw [hnew]
    simp
  · rw [if_neg hk, lookup]
    have : ¬ (decide (key e = k) = true) := by simpa using fun h => hk h.symm
    rw [if_neg this, Option.or_none]

theorem length_modify (s : KeyedSet key) (k : κ) (f : ε → ε) (hf : ∀ e, key (f e) = key e) :
    (s.modify k f hf).elems.length = s.elems.length := List.length_map _

theorem length_insert (s : KeyedSet key) {e : ε} (hnew : s.lookup (key e) = none) :
    (s.insert e).elems.length = s.elems.length + 1 := by
  have h : ¬ ∃ e' ∈ s.elems, key e' = key e := by
    rintro ⟨e', he', heq⟩
    exact lookup_eq_none.mp hnew e' he' heq
  rw [insert, dif_neg h, List.length_append, List.length_singleton]

/-- Keep the records that pass a test. -/
def filter (s : KeyedSet key) (p : ε → Bool) : KeyedSet key where
  elems := s.elems.filter p
  nodup := s.nodup.sublist (List.filter_sublist.map key)

theorem lookup_filter (s : KeyedSet key) (p : ε → Bool) (k : κ) :
    (s.filter p).lookup k = (s.lookup k).filter p := by
  cases hl : s.lookup k with
  | none =>
      rw [lookup_eq_none] at hl
      rw [Option.filter_none, lookup_eq_none]
      exact fun e he => hl e (List.mem_of_mem_filter he)
  | some e =>
      obtain ⟨he, hk⟩ := lookup_eq_some.mp hl
      by_cases hp : p e = true
      · rw [Option.filter_some_pos hp, lookup_eq_some]
        exact ⟨List.mem_filter.mpr ⟨he, hp⟩, hk⟩
      · rw [Option.filter_some_neg (by simpa using hp), lookup_eq_none]
        intro e' he' hk'
        have hmem := List.mem_filter.mp he'
        have := List.inj_on_of_nodup_map s.nodup hmem.1 he (hk'.trans hk.symm)
        exact hp (this ▸ hmem.2)

end KeyedSet

end Lib.Keyed
