import OrdersApi.Lib.Run

/-!
# Simulation of runs

`Recorded step shows` is `step` with a history variable: the list of what its steps
show. Not every step shows something. `Run.simulated`: when each step that shows `o` is
matched by an abstract step `o`, and each other step keeps the abstract state, the
history of a run is the trace of an abstract run.
-/

namespace Trace

variable {σ τ lab obs : Type*} {step : σ → lab → σ → Prop} {shows : σ → lab → σ → Option obs}
  {s₀ s : σ} {tr tr' : List lab} {os : List obs}

/-- A step of `step`; the history (latest first) grows by what it shows. -/
def Recorded (step : σ → lab → σ → Prop) (shows : σ → lab → σ → Option obs)
    (x : σ × List obs) (l : lab)
    (x' : σ × List obs) : Prop :=
  step x.1 l x'.1 ∧ x'.2 = (shows x.1 l x'.1).toList ++ x.2

theorem Run.unrecord {x₀ x : σ × List obs} (h : Run (Recorded step shows) x₀ tr x) :
    Run step x₀.1 tr x.1 := by
  induction h with
  | init => exact .init
  | step _ hs ih => exact ih.step hs.1

/-- Every run has a history. -/
theorem Run.record (shows : σ → lab → σ → Option obs) (h : Run step s₀ tr s) :
    ∃ os, Run (Recorded step shows) (s₀, []) tr (s, os) := by
  induction h with
  | init => exact ⟨[], .init⟩
  | @step _ s s' l _ hs ih =>
    obtain ⟨os, hos⟩ := ih
    have hrec : Recorded step shows (s, os) l (s', (shows s l s').toList ++ os) := ⟨hs, rfl⟩
    exact ⟨_, hos.step hrec⟩

/-- A run is cut in two where its trace is. -/
theorem Run.split (h : Run step s₀ (tr' ++ tr) s) : ∃ s₁, Run step s₀ tr s₁ ∧ Run step s₁ tr' s := by
  induction tr' generalizing s with
  | nil => exact ⟨s, h, .init⟩
  | cons l tr' ih =>
    cases h with
    | step h hs =>
      obtain ⟨s₁, h₁, h₂⟩ := ih h
      exact ⟨s₁, h₁, h₂.step hs⟩

/-- The abstract state after a step that shows `o`, or nothing. -/
def Matched (astep : τ → obs → τ → Prop) (a : τ) : Option obs → τ → Prop
  | none, a' => a' = a
  | some o, a' => astep a o a'

/-- **Simulation with stuttering.** The relation may use the trace, as a history variable,
and that the state before the step is reached. -/
theorem Run.simulated {astep : τ → obs → τ → Prop} (rel : List lab → σ → τ → Prop) {a₀ : τ}
    (h0 : rel [] s₀ a₀)
    (hstep : ∀ tr s l s' a, Run step s₀ tr s → rel tr s a → step s l s' →
      ∃ a', Matched astep a (shows s l s') a' ∧ rel (l :: tr) s' a')
    (h : Run (Recorded step shows) (s₀, []) tr (s, os)) : ∃ a, Run astep a₀ os a ∧ rel tr s a := by
  obtain ⟨x, hx⟩ : ∃ x, x = (s, os) := ⟨_, rfl⟩
  rw [← hx] at h
  suffices hmain : ∃ a, Run astep a₀ x.2 a ∧ rel tr x.1 a by rwa [hx] at hmain
  clear hx
  refine h.invariant (I := fun tr x => ∃ a, Run astep a₀ x.2 a ∧ rel tr x.1 a) ⟨a₀, .init, h0⟩ ?_
  rintro tr ⟨s, os⟩ l ⟨s', os'⟩ hrun ⟨a, hrun_a, hrel⟩ ⟨hs, hos⟩
  obtain ⟨a', hmatch, hrel'⟩ := hstep tr s l s' a hrun.unrecord hrel hs
  refine ⟨a', ?_, hrel'⟩
  have hos : os' = (shows s l s').toList ++ os := hos
  rw [hos]
  cases hshow : shows s l s' with
  | none =>
    rw [hshow] at hmatch
    have hmatch : a' = a := hmatch
    rw [hmatch]
    exact hrun_a
  | some o =>
    rw [hshow] at hmatch
    exact hrun_a.step hmatch

end Trace
