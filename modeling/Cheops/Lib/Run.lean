import Mathlib

/-! # Runs of labelled transition relations

`Run step s₀ ls s` says that the steps labelled `ls`, taken in order from `s₀`, can end
in `s`.  The list of labels is the history of the run, so a property of what happened
"earlier in the run" is a property of that list.

`Run.invariant` is the induction rule: what holds of the empty history at the start and
is kept by one step holds of every run.  `Guarded` restricts a relation to the steps
that meet a condition; its runs are the runs whose steps all meet it.

`Execution` is a run without an end.  `Execution.finitely_many` is the rule for showing
that it takes only finitely many steps of a kind: such a step makes a measure smaller, and
no step makes it larger.
-/

namespace Cheops.Lib

variable {σ ℓ : Type*}

/-- The steps labelled `ls` lead from `s₀` to the last argument. -/
inductive Run (step : σ → ℓ → σ → Prop) (s₀ : σ) : List ℓ → σ → Prop
  | refl : Run step s₀ [] s₀
  | snoc {ls : List ℓ} {s s' : σ} {l : ℓ} :
      Run step s₀ ls s → step s l s' → Run step s₀ (ls ++ [l]) s'

/-- The steps of `step` taken in a state and with a label that meet `C`. -/
def Guarded (C : σ → ℓ → Prop) (step : σ → ℓ → σ → Prop) (s : σ) (l : ℓ) (s' : σ) : Prop :=
  C s l ∧ step s l s'

namespace Run

variable {step : σ → ℓ → σ → Prop} {s₀ s s' : σ} {ls ms : List ℓ} {l : ℓ}

/-- Induction over a run: `I` may speak about the history as well as the state. -/
theorem invariant {I : List ℓ → σ → Prop} (init : I [] s₀)
    (keep : ∀ ls s l s', Run step s₀ ls s → I ls s → step s l s' → I (ls ++ [l]) s')
    (h : Run step s₀ ls s) : I ls s := by
  induction h with
  | refl => exact init
  | snoc run hstep ih => exact keep _ _ _ _ run ih hstep

/-- Induction over a run for a property of the state alone. -/
theorem state_invariant {I : σ → Prop} (init : I s₀)
    (keep : ∀ s l s', I s → step s l s' → I s') (h : Run step s₀ ls s) : I s :=
  h.invariant (I := fun _ s => I s) init fun _ s l s' _ => keep s l s'

theorem single (h : step s l s') : Run step s [l] s' := by
  simpa using Run.snoc .refl h

theorem trans (h₁ : Run step s₀ ls s) (h₂ : Run step s ms s') : Run step s₀ (ls ++ ms) s' := by
  induction h₂ with
  | refl => simpa using h₁
  | snoc _ hstep ih =>
    rw [← List.append_assoc]
    exact .snoc ih hstep

theorem cons {a : σ} (h₁ : step a l s₀) (h₂ : Run step s₀ ls s) : Run step a (l :: ls) s :=
  (single h₁).trans h₂

theorem mono {step' : σ → ℓ → σ → Prop} (sub : ∀ s l s', step s l s' → step' s l s')
    (h : Run step s₀ ls s) : Run step' s₀ ls s := by
  induction h with
  | refl => exact .refl
  | snoc _ hstep ih => exact .snoc ih (sub _ _ _ hstep)

/-- A run of a larger system is one of the part of it that `f` shows. -/
theorem map {τ : Type*} {step' : τ → ℓ → τ → Prop} {f : σ → τ}
    (sub : ∀ s l s', step s l s' → step' (f s) l (f s')) (h : Run step s₀ ls s) :
    Run step' (f s₀) ls (f s) := by
  induction h with
  | refl => exact .refl
  | snoc _ hstep ih => exact .snoc ih (sub _ _ _ hstep)

/-- A run whose steps all meet a condition is a run. -/
theorem of_guarded {C : σ → ℓ → Prop} (h : Run (Guarded C step) s₀ ls s) :
    Run step s₀ ls s :=
  h.mono fun _ _ _ hstep => hstep.2

/-- Where the condition is one on the labels alone, it may be checked on the history. -/
theorem guarded {C : σ → ℓ → Prop} (h : Run step s₀ ls s) (hC : ∀ l ∈ ls, ∀ s, C s l) :
    Run (Guarded C step) s₀ ls s := by
  induction h with
  | refl => exact .refl
  | snoc _ hstep ih =>
    exact .snoc (ih fun l hl => hC l (by simp [hl])) ⟨hC _ (by simp) _, hstep⟩

theorem snoc_inv (h : Run step s₀ (ls ++ [l]) s') : ∃ s, Run step s₀ ls s ∧ step s l s' := by
  generalize split : ls ++ [l] = ks at h
  cases h with
  | refl => simp at split
  | snoc run hstep =>
    obtain ⟨rfl, last⟩ := List.append_inj' split rfl
    cases last
    exact ⟨_, run, hstep⟩

/-- What stands in front of a label is a run to a state in which its step is taken. -/
theorem split (h : Run step s₀ (ls ++ l :: ms) s) :
    ∃ t t', Run step s₀ ls t ∧ step t l t' := by
  induction ms using List.reverseRecOn generalizing s with
  | nil =>
    obtain ⟨t, run, hstep⟩ := h.snoc_inv
    exact ⟨t, s, run, hstep⟩
  | append_singleton ms m ih =>
    rw [← List.cons_append, ← List.append_assoc] at h
    obtain ⟨t, run, -⟩ := h.snoc_inv
    exact ih run

/-- A run can be cut anywhere. -/
theorem append_inv (h : Run step s₀ (ls ++ ms) s) :
    ∃ t, Run step s₀ ls t ∧ Run step t ms s := by
  induction ms using List.reverseRecOn generalizing s with
  | nil =>
    rw [List.append_nil] at h
    exact ⟨s, h, .refl⟩
  | append_singleton ms m ih =>
    rw [← List.append_assoc] at h
    obtain ⟨t, run, hstep⟩ := h.snoc_inv
    obtain ⟨u, first, rest⟩ := ih run
    exact ⟨u, first, .snoc rest hstep⟩

theorem nil_inv (h : Run step s₀ [] s) : s = s₀ := by
  generalize none_left : ([] : List ℓ) = ls at h
  cases h with
  | refl => rfl
  | snoc _ _ => simp at none_left

theorem cons_inv (h : Run step s₀ (l :: ls) s) : ∃ t, step s₀ l t ∧ Run step t ls s := by
  have cut : ∃ t, Run step s₀ [l] t ∧ Run step t ls s := append_inv h
  obtain ⟨t, first, rest⟩ := cut
  have last : ∃ u, Run step s₀ [] u ∧ step u l t := snoc_inv first
  obtain ⟨u, none_left, hstep⟩ := last
  cases nil_inv none_left
  exact ⟨t, hstep, rest⟩

/-- A list of labels is followed to its end where `I` says of a state what can still be done:
    its next step can be taken, and leaves the rest to be done. -/
theorem follow {I : List ℓ → σ → Prop} (start : I ls s₀)
    (next : ∀ l ls s, I (l :: ls) s → (∃ s', step s l s') ∧ ∀ s', step s l s' → I ls s') :
    (∃ s, Run step s₀ ls s) ∧ ∀ s, Run step s₀ ls s → I [] s := by
  induction ls generalizing s₀ with
  | nil =>
    refine ⟨⟨s₀, .refl⟩, fun s run => ?_⟩
    cases nil_inv run
    exact start
  | cons l ls ih =>
    obtain ⟨⟨t, hstep⟩, keeps⟩ := next l ls s₀ start
    obtain ⟨⟨s, run⟩, -⟩ := ih (keeps t hstep)
    refine ⟨⟨s, .cons hstep run⟩, fun s run => ?_⟩
    obtain ⟨t', hstep', rest⟩ := cons_inv run
    exact (ih (keeps t' hstep')).2 s rest

/-- Where a step has one outcome, so has a run. -/
theorem unique {t : σ} (functional : ∀ s l a b, step s l a → step s l b → a = b)
    (h : Run step s₀ ls s) (h' : Run step s₀ ls t) : s = t := by
  induction h generalizing t with
  | refl =>
    generalize none_left : ([] : List ℓ) = ls at h'
    cases h' with
    | refl => rfl
    | snoc _ _ => simp at none_left
  | snoc _ hstep ih =>
    obtain ⟨a, run', hstep'⟩ := snoc_inv h'
    cases ih run'
    exact functional _ _ _ _ hstep hstep'

/-- A run can be computed where the steps can. -/
theorem of_exec {exec : σ → ℓ → Option σ}
    (sound : ∀ {s l s'}, exec s l = some s' → step s l s') (h : ls.foldlM exec s₀ = some s) :
    Run step s₀ ls s := by
  induction ls generalizing s₀ with
  | nil =>
    obtain rfl : s₀ = s := by simpa using h
    exact .refl
  | cons l ls ih =>
    obtain ⟨t, ht, hrest⟩ := Option.bind_eq_some_iff.mp h
    exact .cons (sound ht) (ih hrest)

end Run

/-! ## Runs without an end -/

/-- The steps `labels` lead from `s₀` through the states `states`, for ever. -/
structure Execution (step : σ → ℓ → σ → Prop) (s₀ : σ) (states : ℕ → σ) (labels : ℕ → ℓ) :
    Prop where
  start : states 0 = s₀
  steps : ∀ n, step (states n) (labels n) (states (n + 1))

namespace Execution

variable {step : σ → ℓ → σ → Prop} {s₀ : σ} {states : ℕ → σ} {labels : ℕ → ℓ}

/-- What it has done after any number of steps is a run. -/
theorem run (h : Execution step s₀ states labels) :
    ∀ n, Run step s₀ ((List.range n).map labels) (states n)
  | 0 => by
    rw [h.start]
    exact .refl
  | n + 1 => by
    rw [List.range_succ, List.map_append]
    exact .snoc (run h n) (h.steps n)

/-- Steps that make a well-founded measure smaller come to an end if no step makes it larger. -/
theorem finitely_many {α : Type*} [PartialOrder α] [WellFoundedLT α] {M : σ → α}
    {P : ℓ → Prop} (h : Execution step s₀ states labels)
    (keep : ∀ n, step (states n) (labels n) (states (n + 1)) →
      M (states (n + 1)) ≤ M (states n))
    (shrink : ∀ n, P (labels n) → step (states n) (labels n) (states (n + 1)) →
      M (states (n + 1)) < M (states n)) :
    ∃ n, ∀ m, n ≤ m → ¬ P (labels m) := by
  have antitone : Antitone (M ∘ states) :=
    antitone_nat_of_succ_le fun n => keep n (h.steps n)
  obtain ⟨n, constant⟩ := WellFoundedLT.antitone_chain_condition antitone
  refine ⟨n, fun m hm taken => ?_⟩
  have smaller := shrink m taken (h.steps m)
  have before : M (states n) = M (states m) := constant m hm
  have after : M (states n) = M (states (m + 1)) := constant (m + 1) (by omega)
  rw [← after, before] at smaller
  exact lt_irrefl _ smaller

end Execution

end Cheops.Lib
