/-
  PaseoGateway/StepRuns.lean
  ==========================
  **Runs of a step function.**

  `step s e` is the state after the event `e`, or none where the event is not possible.
  A run takes the events of a schedule in their order (`run`), and what every step
  preserves every run does (`run_invariant`).
-/
import Mathlib

namespace PaseoGateway.StepRuns

variable {σ ε : Type} {step : σ → ε → Option σ}

def run (step : σ → ε → Option σ) (s : σ) (events : List ε) : Option σ := events.foldlM step s

@[simp] theorem run_nil (s : σ) : run step s [] = some s := rfl

theorem run_cons {s s' : σ} {e : ε} {events : List ε} :
    run step s (e :: events) = some s' ↔ ∃ t, step s e = some t ∧ run step t events = some s' := by
  simp [run, List.foldlM_cons, Option.bind_eq_some_iff]

theorem run_append {s s' : σ} {before after : List ε} :
    run step s (before ++ after) = some s' ↔
      ∃ t, run step s before = some t ∧ run step t after = some s' := by
  simp [run, List.foldlM_append, Option.bind_eq_some_iff]

theorem run_invariant {Inv : σ → Prop}
    (hstep : ∀ {s e s'}, step s e = some s' → Inv s → Inv s') {s s' : σ} {events : List ε}
    (hrun : run step s events = some s') (h : Inv s) : Inv s' := by
  induction events generalizing s with
  | nil =>
    cases hrun
    exact h
  | cons e events ih =>
    obtain ⟨t, ht, hrun⟩ := run_cons.mp hrun
    exact ih hrun (hstep ht h)

end PaseoGateway.StepRuns
