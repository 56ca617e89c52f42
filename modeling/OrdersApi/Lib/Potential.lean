import OrdersApi.Lib.Prog
import OrdersApi.Lib.Run
import Mathlib.Algebra.BigOperators.Group.List.Basic
import Mathlib.Algebra.Order.Ring.Nat

/-!
# Paths of a machine, and what they cost

`Path node may p₀ l p`: from the control point `p₀` the machine has made the calls `l`
(latest first), each of which `may` happen, and is at `p`. `Path.spent` is amortized
accounting: if each call costs at most what the potential gives up and what is credited
for the call, then a whole path costs at most the potential at its start and all credits.
`Trace.Run.spent` is the same for runs, where the potential may depend on the whole state.
-/

namespace Effect

variable {S : Sig} {ε α π : Type} {node : π → Node S ε α π} {may : S.Call ε → Prop} {p₀ p : π}
  {l : List (S.Call ε)}

inductive Path (node : π → Node S ε α π) (may : S.Call ε → Prop) (p₀ : π) : List (S.Call ε) → π → Prop
  | nil : Path node may p₀ [] p₀
  | step {l : List (S.Call ε)} {p : π} {o : S.Op} {k : Except ε (S.Resp o) → π} {r : Except ε (S.Resp o)}
      (h : Path node may p₀ l p) (hn : node p = .op o k) (hm : may ⟨o, r⟩) :
      Path node may p₀ (⟨o, r⟩ :: l) (k r)

/-- The sum over all calls. -/
def total (f : S.Call ε → ℕ) (l : List (S.Call ε)) : ℕ := (l.map f).sum

@[simp] theorem total_nil (f : S.Call ε → ℕ) : total f [] = 0 := rfl

@[simp] theorem total_cons (f : S.Call ε → ℕ) (c : S.Call ε) (l : List (S.Call ε)) :
    total f (c :: l) = f c + total f l := by simp [total]

/-- **Amortized accounting.** -/
theorem Path.spent (h : Path node may p₀ l p) (cost credit : S.Call ε → ℕ) (φ : π → ℕ)
    (hstep : ∀ p o k r, node p = .op o k → may ⟨o, r⟩ → cost ⟨o, r⟩ + φ (k r) ≤ φ p + credit ⟨o, r⟩) :
    total cost l + φ p ≤ φ p₀ + total credit l := by
  induction h with
  | nil => simp
  | step _ hn hm ih =>
    have hone := hstep _ _ _ _ hn hm
    rw [total_cons, total_cons]
    omega

end Effect

namespace Trace

variable {σ lab : Type*} {step : σ → lab → σ → Prop} {s₀ s : σ} {tr : List lab}

/-- **Amortized accounting for runs.** The step may use that the state before it is reached. -/
theorem Run.spent (h : Run step s₀ tr s) (cost : lab → ℕ) (φ : σ → ℕ)
    (hstep : ∀ tr s l s', Run step s₀ tr s → step s l s' → cost l + φ s' ≤ φ s) :
    (tr.map cost).sum + φ s ≤ φ s₀ := by
  induction h with
  | init => simp
  | step h hs ih =>
    have hone := hstep _ _ _ _ h hs
    rw [List.map_cons, List.sum_cons]
    omega

end Trace
