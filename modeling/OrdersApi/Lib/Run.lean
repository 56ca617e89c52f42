import Mathlib.Data.List.Basic

/-!
# Labelled runs

`Run step s₀ tr s`: the step relation leads from `s₀` to `s`, and `tr` lists the
labels of the steps, the latest first. `Run.invariant` is the induction over a
run, with the trace as a history variable. A condition on steps is a smaller
step relation (`Guarded`), and a run under a condition is a run (`Run.forget`).
-/

namespace Trace

variable {σ lab : Type*} {step step' : σ → lab → σ → Prop} {s₀ s s' : σ} {tr tr' : List lab} {l : lab}

/-- The runs of a step relation from `s₀`, with their traces (latest label first). -/
inductive Run (step : σ → lab → σ → Prop) (s₀ : σ) : List lab → σ → Prop
  | init : Run step s₀ [] s₀
  | step {tr : List lab} {s s' : σ} {l : lab} : Run step s₀ tr s → step s l s' →
      Run step s₀ (l :: tr) s'

/-- The steps of `step` that meet the condition `ok` in the state before them. -/
def Guarded (step : σ → lab → σ → Prop) (ok : σ → lab → Prop) (s : σ) (l : lab) (s' : σ) : Prop :=
  step s l s' ∧ ok s l

/-- **Invariants of runs.** The step may use that the state before it is reached. -/
theorem Run.invariant {I : List lab → σ → Prop} (h0 : I [] s₀)
    (hstep : ∀ tr s l s', Run step s₀ tr s → I tr s → step s l s' → I (l :: tr) s')
    (h : Run step s₀ tr s) : I tr s := by
  induction h with
  | init => exact h0
  | step h hs ih => exact hstep _ _ _ _ h ih hs

theorem Run.mono (hsub : ∀ s l s', step s l s' → step' s l s') (h : Run step s₀ tr s) :
    Run step' s₀ tr s := by
  induction h with
  | init => exact .init
  | step _ hs ih => exact ih.step (hsub _ _ _ hs)

/-- A run under a condition is a run. -/
theorem Run.forget {ok : σ → lab → Prop} (h : Run (Guarded step ok) s₀ tr s) : Run step s₀ tr s :=
  h.mono fun _ _ _ hs => hs.1

/-- And a run is one under no condition. -/
theorem Run.unconditional (h : Run step s₀ tr s) : Run (Guarded step fun _ _ => True) s₀ tr s :=
  h.mono fun _ _ _ hs => ⟨hs, trivial⟩

/-- A reached state is the start of runs of its own. -/
theorem Run.restart (_ : Run step s₀ tr s) : Run step s [] s := .init

/-- And of runs under a condition. -/
theorem Run.under (_ : Run step s₀ tr s) (ok : σ → lab → Prop) : Run (Guarded step ok) s [] s := .init

theorem Run.append (h : Run step s₀ tr s) (h' : Run step s tr' s') : Run step s₀ (tr' ++ tr) s' := by
  induction h' with
  | init => exact h
  | step _ hs ih => exact ih.step hs

end Trace
