/-
The lists of pending requests: `responder::collect_garbage` (`dns/srcz/responder.cpp`) and
the same loop in `abs_listener::on_message` (`network/srcz/listener.cpp`).

The loop runs over a vector by index and erases what is finished. The request behind an
erased one moves to its index and the index moves on, so that one is not looked at. In the
end the vector is cut behind the last request that was looked at and kept. `kept` says what
this leaves without an index (`clean_up_eq_kept`), and it is the active requests exactly
when every request that directly follows a finished one is finished if and only if all the
requests behind it are (`clean_up_iff`).
-/
import Mathlib.Data.List.Basic

set_option autoImplicit false

namespace Cdns

/-! ## The loop -/

section Loop

variable {ρ : Type} (finished : ρ → Bool)

/-- `for (i = 0; i < reqs.size(); ++i)`: the vector and `last`. -/
def clean_loop (reqs : List ρ) (i last : ℕ) : List ρ × ℕ :=
  if h : i < reqs.length then
    if finished reqs[i] then clean_loop (reqs.eraseIdx i) (i + 1) last
    else clean_loop reqs (i + 1) (i + 1)
  else (reqs, last)
termination_by reqs.length - i
decreasing_by
  · rw [List.length_eraseIdx_of_lt h]
    omega
  · omega

end Loop

/-- `vector::resize`, for a vector of `std::shared_ptr`. -/
def resize {α : Type} (reqs : List (Option α)) (n : ℕ) : List (Option α) :=
  reqs.take n ++ List.replicate (n - reqs.length) none

/-- The clean-up of both functions, with the test for a finished request. A null pointer is
not one. -/
def clean_up {α : Type} (finished : α → Bool) (reqs : List (Option α)) : List (Option α) :=
  if reqs ≠ [] then
    let (reqs, last) := clean_loop (fun qreq => qreq.any finished) reqs 0 0
    resize reqs last
  else reqs

/-- `responder::collect_garbage`. -/
def responder.collect_garbage {α : Type} (is_active : α → Bool) (reqs : List (Option α)) :
    List (Option α) :=
  clean_up (fun qreq => !is_active qreq) reqs

/-- `abs_listener::on_message`, before it makes another request. -/
def abs_listener.on_message_clean_up {α : Type} (is_closed : α → Bool)
    (requests : List (Option α)) : List (Option α) :=
  clean_up is_closed requests

/-! ## What it leaves -/

section Kept

variable {ρ : Type} (finished : ρ → Bool)

/-- What the loop leaves. A request behind a finished one is passed over, and is cut off
unless something behind it is kept. -/
def kept : List ρ → List ρ
  | [] => []
  | [x] => if finished x then [] else [x]
  | x :: y :: l =>
      if finished x then (if kept l = [] then [] else y :: kept l) else x :: kept (y :: l)

variable {finished}

theorem kept_active {x : ρ} (hx : finished x = false) (l : List ρ) :
    kept finished (x :: l) = x :: kept finished l := by
  cases l with
  | nil => simp [kept, hx]
  | cons y l => simp [kept, hx]

theorem clean_loop_end {reqs : List ρ} {i : ℕ} (h : reqs.length ≤ i) (last : ℕ) :
    clean_loop finished reqs i last = (reqs, last) := by
  rw [clean_loop, dif_neg (by omega)]

/-- A request that is not finished stays, and so does all in front of it. -/
theorem clean_loop_active {x : ρ} (hx : finished x = false) (pre l : List ρ) (last : ℕ) :
    clean_loop finished (pre ++ x :: l) pre.length last =
      clean_loop finished (pre ++ x :: l) (pre.length + 1) (pre.length + 1) := by
  rw [clean_loop, dif_pos (by simp)]
  simp [hx]

/-- A finished request is erased, and what is behind it moves to its index. -/
theorem clean_loop_finished {x : ρ} (hx : finished x = true) (pre l : List ρ) (last : ℕ) :
    clean_loop finished (pre ++ x :: l) pre.length last =
      clean_loop finished (pre ++ l) (pre.length + 1) last := by
  rw [clean_loop, dif_pos (by simp)]
  simp [hx, List.eraseIdx_append_of_length_le]

/-- What the loop does to the rest `l` of a vector: `last` is inside the vector, and in front
of `last` is what was there and what is kept of the rest. -/
def Leaves (finished : ρ → Bool) (l : List ρ) : Prop :=
  ∀ (pre : List ρ) (last : ℕ), last ≤ pre.length →
    let (reqs, last') := clean_loop finished (pre ++ l) pre.length last
    last' ≤ reqs.length ∧
      reqs.take last' = if kept finished l = [] then pre.take last else pre ++ kept finished l

theorem leaves_active {x : ρ} {l : List ρ} (hx : finished x = false) (h : Leaves finished l) :
    Leaves finished (x :: l) := by
  intro pre last _
  have hrest := h (pre ++ [x]) (pre.length + 1) (by simp)
  rw [List.append_assoc, List.singleton_append, List.length_append, List.length_singleton] at hrest
  rw [clean_loop_active hx, kept_active hx, if_neg (by simp)]
  refine ⟨hrest.1, hrest.2.trans ?_⟩
  by_cases hl : kept finished l = []
  · rw [if_pos hl, hl]
    exact List.take_of_length_le (by simp)
  · rw [if_neg hl, List.append_assoc, List.singleton_append]

theorem leaves_finished {x y : ρ} {l : List ρ} (hx : finished x = true) (h : Leaves finished l) :
    Leaves finished (x :: y :: l) := by
  intro pre last hlast
  have hrest := h (pre ++ [y]) last (by simp; omega)
  rw [List.append_assoc, List.singleton_append, List.length_append, List.length_singleton] at hrest
  rw [clean_loop_finished hx, kept, if_pos hx]
  refine ⟨hrest.1, hrest.2.trans ?_⟩
  by_cases hl : kept finished l = []
  · rw [if_pos hl, if_pos hl, if_pos rfl, List.take_append_of_le_length hlast]
  · rw [if_neg hl, if_neg hl, if_neg (by simp)]
    simp

theorem leaves_nil : Leaves finished [] := by
  intro pre last h
  rw [List.append_nil, clean_loop_end (Nat.le_refl _), kept, if_pos rfl]
  exact ⟨h, rfl⟩

/-- **The loop** leaves what is kept. -/
theorem leaves_kept (l : List ρ) : Leaves finished l := by
  -- along `kept`, which takes one or two requests at a time
  induction l using kept.induct finished with
  | case1 => exact leaves_nil
  | case2 x hx =>
      intro pre last h
      rw [clean_loop_finished hx, List.append_nil, clean_loop_end (by omega), kept, if_pos hx,
        if_pos rfl]
      exact ⟨h, rfl⟩
  | case3 x hx => exact leaves_active (by simpa using hx) leaves_nil
  | case4 x y l hx hl ih => exact leaves_finished hx ih
  | case5 x y l hx hl ih => exact leaves_finished hx ih
  | case6 x y l hx ih => exact leaves_active (by simpa using hx) ih

/-! ## Whether it leaves the active requests -/

theorem kept_eq_nil {l : List ρ} (h : ∀ z ∈ l, finished z = true) : kept finished l = [] := by
  induction l using kept.induct finished with
  | case1 => rfl
  | case2 x hx => rw [kept, if_pos hx]
  | case3 x hx => exact absurd (h x (by simp)) hx
  | case4 x y l hx hl ih => rw [kept, if_pos hx, if_pos hl]
  | case5 x y l hx hl ih => exact absurd (ih fun z hz => h z (by simp [hz])) hl
  | case6 x y l hx ih => exact absurd (h x (by simp)) hx

/-- What directly follows a finished request is finished exactly if all that is behind it
is. -/
def Tidy (finished : ρ → Bool) (reqs : List ρ) : Prop :=
  ∀ a x y b, reqs = a ++ x :: y :: b → finished x = true →
    (finished y = true ↔ ∀ z ∈ b, finished z = true)

theorem tidy_active {x : ρ} (hx : finished x = false) (l : List ρ) :
    Tidy finished (x :: l) ↔ Tidy finished l := by
  constructor
  · intro h a x' y b hl
    exact h (x :: a) x' y b (by rw [hl]; rfl)
  · intro h a x' y b hl hx'
    cases a with
    | nil =>
        rw [← (List.cons.inj hl).1, hx] at hx'
        exact absurd hx' (by simp)
    | cons a₀ a => exact h a x' y b (List.cons.inj hl).2 hx'

theorem tidy_finished {x y : ρ} (hx : finished x = true) (l : List ρ) :
    Tidy finished (x :: y :: l) ↔
      (finished y = true ↔ ∀ z ∈ l, finished z = true) ∧ Tidy finished (y :: l) := by
  constructor
  · intro h
    refine ⟨h [] x y l rfl hx, fun a x' y' b hl => ?_⟩
    exact h (x :: a) x' y' b (by rw [hl]; rfl)
  · rintro ⟨hy, h⟩ a x' y' b hl hx'
    cases a with
    | nil =>
        obtain ⟨-, hl⟩ := List.cons.inj hl
        obtain ⟨rfl, rfl⟩ := List.cons.inj hl
        exact hy
    | cons a₀ a => exact h a x' y' b (List.cons.inj hl).2 hx'

theorem tidy_of_all {l : List ρ} (h : ∀ z ∈ l, finished z = true) : Tidy finished l := by
  intro a x y b hl _
  rw [hl] at h
  exact iff_of_true (h y (by simp)) fun z hz => h z (by simp [hz])

theorem active_eq_nil_iff (l : List ρ) :
    l.filter (fun x => !finished x) = [] ↔ ∀ z ∈ l, finished z = true := by
  rw [List.filter_eq_nil_iff]
  simp

theorem kept_eq_filter_active {x : ρ} {l : List ρ} (hx : finished x = false)
    (ih : kept finished l = l.filter (fun x => !finished x) ↔ Tidy finished l) :
    kept finished (x :: l) = (x :: l).filter (fun x => !finished x) ↔ Tidy finished (x :: l) := by
  rw [kept_active hx, tidy_active hx, ← ih, List.filter_cons_of_pos (by simp [hx])]
  exact List.cons_inj_right x

/-- **What is kept** is what is active, exactly in a tidy list. -/
theorem kept_eq_filter_iff (l : List ρ) :
    kept finished l = l.filter (fun x => !finished x) ↔ Tidy finished l := by
  induction l using kept.induct finished with
  | case1 => exact iff_of_true rfl (tidy_of_all (by simp))
  | case2 x hx => exact iff_of_true (by simp [kept, hx]) (tidy_of_all (by simpa using hx))
  | case3 x hx =>
      exact kept_eq_filter_active (by simpa using hx) (iff_of_true rfl (tidy_of_all (by simp)))
  | case4 x y l hx hl ih =>
      -- nothing is left, so nothing may be active
      rw [kept, if_pos hx, if_pos hl, tidy_finished hx, List.filter_cons_of_neg (by simp [hx]),
        eq_comm, active_eq_nil_iff, List.forall_mem_cons]
      constructor
      · rintro ⟨hy, hrest⟩
        exact ⟨iff_of_true hy hrest, tidy_of_all (List.forall_mem_cons.mpr ⟨hy, hrest⟩)⟩
      · rintro ⟨hiff, htidy⟩
        by_cases hy : finished y = true
        · exact ⟨hy, hiff.mp hy⟩
        · rw [tidy_active (by simpa using hy), ← ih, hl, eq_comm, active_eq_nil_iff] at htidy
          exact absurd (hiff.mpr htidy) hy
  | case5 x y l hx hl ih =>
      rw [kept, if_pos hx, if_neg hl, tidy_finished hx, List.filter_cons_of_neg (by simp [hx])]
      have hsome : ¬ ∀ z ∈ l, finished z = true := fun h => hl (kept_eq_nil h)
      by_cases hy : finished y = true
      · -- the request that was passed over is finished
        refine iff_of_false ?_ fun h => hsome (h.1.mp hy)
        rw [List.filter_cons_of_neg (by simp [hy])]
        intro h
        have hmem : y ∈ l.filter (fun x => !finished x) := by
          rw [← h]
          exact List.mem_cons_self
        exact absurd (List.mem_filter.mp hmem).2 (by simp [hy])
      · rw [List.filter_cons_of_pos (by simpa using hy), tidy_active (by simpa using hy), ← ih,
          List.cons_inj_right]
        exact (and_iff_right (iff_of_false hy hsome)).symm
  | case6 x y l hx ih => exact kept_eq_filter_active (by simpa using hx) ih

end Kept

section CleanUp

variable {α : Type} {finished : α → Bool}

/-- **The clean-up** leaves what is kept. -/
theorem clean_up_eq_kept (reqs : List (Option α)) :
    clean_up finished reqs = kept (fun qreq => qreq.any finished) reqs := by
  unfold clean_up
  by_cases h : reqs = []
  · rw [if_neg (not_not_intro h), h, kept]
  · rw [if_pos h]
    obtain ⟨hle, htake⟩ := @leaves_kept _ (fun qreq => Option.any finished qreq) reqs [] 0 (by simp)
    rw [List.nil_append, List.length_nil] at hle htake
    dsimp only
    rw [resize, Nat.sub_eq_zero_of_le hle, htake, List.nil_append, List.replicate_zero,
      List.append_nil]
    split_ifs with hnil
    · rw [hnil]
      rfl
    · rfl

/-- The requests that are not finished. -/
def still_active (finished : α → Bool) (reqs : List (Option α)) : List (Option α) :=
  reqs.filter fun qreq => !qreq.any finished

end CleanUp

/-- **When the clean-up loses nothing.** For every list of requests, either loop leaves
exactly those that are not finished, in their order, if and only if every request that
directly follows a finished one is finished exactly if all the requests behind it are. -/
theorem clean_up_iff {α : Type} (is_active is_closed : α → Bool) (reqs : List (Option α)) :
    (responder.collect_garbage is_active reqs = still_active (fun qreq => !is_active qreq) reqs ↔
      Tidy (fun qreq => qreq.any fun qreq => !is_active qreq) reqs) ∧
    (abs_listener.on_message_clean_up is_closed reqs = still_active is_closed reqs ↔
      Tidy (fun qreq => qreq.any is_closed) reqs) := by
  unfold responder.collect_garbage abs_listener.on_message_clean_up still_active
  rw [clean_up_eq_kept, clean_up_eq_kept]
  exact ⟨kept_eq_filter_iff reqs, kept_eq_filter_iff reqs⟩

/-- **An active request behind a finished one** is lost when it is the last one. -/
theorem clean_up_loses : responder.collect_garbage id [some false, some true] = [] ∧
    still_active (fun qreq => !id qreq) [some false, some true] = [some true] ∧
    abs_listener.on_message_clean_up id [some true, some false] = [] ∧
    still_active id [some true, some false] = [some false] := by
  unfold responder.collect_garbage abs_listener.on_message_clean_up
  rw [clean_up_eq_kept, clean_up_eq_kept]
  decide

end Cdns
