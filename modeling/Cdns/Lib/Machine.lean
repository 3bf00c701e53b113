/-
Machines that react to events.

A machine answers an event with a new state and some outputs, or it fails, which ends it. A run
is a list of events without a failure; what the machine does before a failure is the run that
leads there. `run_rule` is the rule for invariants: they may speak of the events that have
happened and of all that was put out. `run_returns` is the rule for machines that do not fail.

A `Desk` is what a machine is for that takes requests and answers them. It remembers which
requests it has seen and which of them it may still answer, and it may lose one at any time. It
answers none twice (`Moves.fair`), and none that it has lost (`Moves.answered`). A machine whose
steps are moves of a desk inherits both.
-/
import Mathlib.Data.Set.Insert
import Mathlib.Tactic

set_option autoImplicit false

namespace Lib.Machine

variable {σ ε ρ χ ι : Type*}

/-! ## Runs -/

section Run

variable (step : σ → ε → Except χ (σ × List ρ))

/-- The state and the outputs after some events. -/
def run (s : σ) : List ε → Except χ (σ × List ρ)
  | [] => .ok (s, [])
  | e :: es =>
      match step s e with
      | .error x => .error x
      | .ok (s', out) =>
          match run s' es with
          | .error x => .error x
          | .ok (s'', outs) => .ok (s'', out ++ outs)

variable {step} {s s' s'' : σ} {e : ε} {es : List ε} {out : List ρ}

theorem run_nil (h : run step s [] = .ok (s', out)) : s' = s ∧ out = [] := by
  obtain ⟨rfl, rfl⟩ := Prod.mk.inj (Except.ok.inj h)
  exact ⟨rfl, rfl⟩

theorem run_cons (h : run step s (e :: es) = .ok (s'', out)) :
    ∃ s' out₁ out₂, step s e = .ok (s', out₁) ∧ run step s' es = .ok (s'', out₂) ∧
      out = out₁ ++ out₂ := by
  rw [run] at h
  split at h
  · exact absurd h (by simp)
  · next s' out₁ hstep =>
    split at h
    · exact absurd h (by simp)
    · next s₂ out₂ hrun =>
      obtain ⟨rfl, rfl⟩ := Prod.mk.inj (Except.ok.inj h)
      exact ⟨s', out₁, out₂, hstep, hrun, rfl⟩

theorem run_concat {new : List ρ} (h : run step s es = .ok (s', out))
    (hstep : step s' e = .ok (s'', new)) : run step s (es ++ [e]) = .ok (s'', out ++ new) := by
  induction es generalizing s out with
  | nil =>
      obtain ⟨rfl, rfl⟩ := run_nil h
      rw [List.nil_append, run, hstep]
      simp [run]
  | cons a es ih =>
      obtain ⟨s₁, out₁, out₂, h₁, h₂, rfl⟩ := run_cons h
      rw [List.cons_append, run, h₁]
      dsimp only
      rw [ih h₂]
      simp

/-- **The rule for runs.** What every step keeps is kept by a run. The invariant may depend on
the events so far and on everything that was put out. -/
theorem run_rule {I : List ε → σ → List ρ → Prop} (h₀ : I [] s [])
    (hstep : ∀ {past s₁ out e s₂ new}, run step s past = .ok (s₁, out) → I past s₁ out →
      step s₁ e = .ok (s₂, new) → I (past ++ [e]) s₂ (out ++ new))
    (h : run step s es = .ok (s', out)) : I es s' out := by
  -- behind any events that have happened already
  have hrest : ∀ (es past : List ε) {s₁ : σ} {before out : List ρ},
      run step s past = .ok (s₁, before) → I past s₁ before →
      run step s₁ es = .ok (s', out) → I (past ++ es) s' (before ++ out) := by
    intro es
    induction es with
    | nil =>
        intro past s₁ before out _ hI hrun
        obtain ⟨rfl, rfl⟩ := run_nil hrun
        rw [List.append_nil, List.append_nil]
        exact hI
    | cons e es ih =>
        intro past s₁ before out hpast hI hrun
        obtain ⟨s₂, out₁, out₂, h₁, h₂, rfl⟩ := run_cons hrun
        have htail := ih (past ++ [e]) (run_concat hpast h₁) (hstep hpast hI h₁) h₂
        rw [List.append_assoc, List.append_assoc] at htail
        exact htail
  exact hrest es [] rfl h₀ h

/-- **The rule for runs that do not fail.** If no event of a kind `T` fails in a state with the
invariant, and the invariant is kept, then no run of such events fails. -/
theorem run_returns {I : σ → Prop} {T : ε → Prop}
    (hstep : ∀ {s e}, I s → T e → ∃ s' new, step s e = .ok (s', new) ∧ I s') (hI : I s)
    (hT : ∀ e ∈ es, T e) : ∃ s' out, run step s es = .ok (s', out) ∧ I s' := by
  induction es generalizing s with
  | nil => exact ⟨s, [], rfl, hI⟩
  | cons e es ih =>
      obtain ⟨he, hes⟩ := List.forall_mem_cons.mp hT
      obtain ⟨s₁, new, hs₁, hI₁⟩ := hstep hI he
      obtain ⟨s', out, hrun, hI'⟩ := ih hI₁ hes
      refine ⟨s', new ++ out, ?_, hI'⟩
      rw [run, hs₁]
      dsimp only
      rw [hrun]

end Run

/-! ## Desks -/

/-- A desk: the requests it has seen, and those that it may still answer. -/
structure Desk (ι : Type*) where
  seen : Set ι
  live : Set ι

namespace Desk

variable {d d' : Desk ι} {a : List ι} {i : ι}

/-- What a desk can do, and the requests that are answered on the way. It may lose requests
whatever else it does. -/
inductive Moves : Desk ι → List ι → Desk ι → Prop where
  /-- a request comes in -/
  | enter {d d' : Desk ι} {i : ι} (new : i ∉ d.seen) (seen : d'.seen = insert i d.seen)
      (live : d'.live ⊆ insert i d.live) : Moves d [] d'
  /-- nothing comes in and nothing is answered -/
  | lose {d d' : Desk ι} (seen : d'.seen = d.seen) (live : d'.live ⊆ d.live) : Moves d [] d'
  /-- a request is answered -/
  | answer {d d' : Desk ι} {i : ι} (old : i ∈ d.live) (seen : d'.seen = d.seen)
      (live : d'.live ⊆ d.live \ {i}) : Moves d [i] d'
  | trans {d d' d'' : Desk ι} {a a' : List ι} : Moves d a d' → Moves d' a' d'' →
      Moves d (a ++ a') d''

theorem Moves.seen_subset (h : Moves d a d') : d.seen ⊆ d'.seen := by
  induction h with
  | enter _ hseen _ =>
      rw [hseen]
      exact Set.subset_insert _ _
  | lose hseen _ => exact hseen.ge
  | answer _ hseen _ => exact hseen.ge
  | trans _ _ ih₁ ih₂ => exact ih₁.trans ih₂

/-- What was seen and is not live stays so. -/
theorem Moves.not_live (h : Moves d a d') (hi : i ∈ d.seen) (hdead : i ∉ d.live) :
    i ∉ d'.live := by
  induction h with
  | enter hnew _ hlive =>
      intro h
      rcases hlive h with rfl | h
      · exact hnew hi
      · exact hdead h
  | lose _ hlive => exact fun h => hdead (hlive h)
  | answer _ _ hlive => exact fun h => hdead (hlive h).1
  | trans h₁ _ ih₁ ih₂ => exact ih₂ (h₁.seen_subset hi) (ih₁ hi hdead)

/-- No request has been answered twice, and what was answered is over. -/
structure Fair (d : Desk ι) (answers : List ι) : Prop where
  nodup : answers.Nodup
  closed : ∀ i ∈ answers, i ∈ d.seen ∧ i ∉ d.live

/-- **No request is answered twice.** -/
theorem Moves.fair (h : Moves d a d') (hlive : d.live ⊆ d.seen) :
    d'.live ⊆ d'.seen ∧ ∀ {answers}, d.Fair answers → d'.Fair (answers ++ a) := by
  have hkeep : ∀ {d d' : Desk ι} {a answers : List ι}, Moves d a d' → d.Fair answers →
      ∀ i ∈ answers, i ∈ d'.seen ∧ i ∉ d'.live := by
    intro d d' a answers h hfair i hi
    obtain ⟨hseen, hdead⟩ := hfair.closed i hi
    exact ⟨h.seen_subset hseen, h.not_live hseen hdead⟩
  induction h with
  | enter hnew hseen hsub =>
      refine ⟨?_, fun hfair => ?_⟩
      · rw [hseen]
        exact hsub.trans (Set.insert_subset_insert hlive)
      · rw [List.append_nil]
        exact ⟨hfair.nodup, hkeep (.enter hnew hseen hsub) hfair⟩
  | lose hseen hsub =>
      refine ⟨?_, fun hfair => ?_⟩
      · rw [hseen]
        exact hsub.trans hlive
      · rw [List.append_nil]
        exact ⟨hfair.nodup, hkeep (.lose hseen hsub) hfair⟩
  | answer hold hseen hsub =>
      refine ⟨?_, fun hfair => ⟨?_, fun j hj => ?_⟩⟩
      · rw [hseen]
        exact (hsub.trans Set.sdiff_subset).trans hlive
      · rw [List.nodup_append]
        refine ⟨hfair.nodup, List.nodup_singleton _, ?_⟩
        intro j hj k hk hjk
        rw [hjk, List.mem_singleton.mp hk] at hj
        exact (hfair.closed _ hj).2 hold
      · rcases List.mem_append.mp hj with hj | hj
        · exact hkeep (.answer hold hseen hsub) hfair j hj
        · rw [List.mem_singleton.mp hj, hseen]
          exact ⟨hlive hold, fun h => (hsub h).2 rfl⟩
  | trans _ _ ih₁ ih₂ =>
      obtain ⟨hlive', h₁⟩ := ih₁ hlive
      obtain ⟨hlive'', h₂⟩ := ih₂ hlive'
      refine ⟨hlive'', fun hfair => ?_⟩
      rw [← List.append_assoc]
      exact h₂ (h₁ hfair)

/-- **What is lost stays lost**: an answered request was live, or came in later. -/
theorem Moves.answered (h : Moves d a d') (hi : i ∈ a) : i ∈ d.live ∨ i ∉ d.seen := by
  induction h with
  | enter _ _ _ => exact absurd hi List.not_mem_nil
  | lose _ _ => exact absurd hi List.not_mem_nil
  | answer hold _ _ =>
      rw [List.mem_singleton.mp hi]
      exact Or.inl hold
  | trans h₁ _ ih₁ ih₂ =>
      rcases List.mem_append.mp hi with hi | hi
      · exact ih₁ hi
      · by_contra hcon
        obtain ⟨hdead, hseen⟩ := not_or.mp hcon
        have hin := not_not.mp hseen
        rcases ih₂ hi with h | h
        · exact h₁.not_live hin hdead h
        · exact h (h₁.seen_subset hin)

end Desk

end Lib.Machine
