import OrdersApi.Lib.Prog

/-!
# Total correctness

`Total env p s Q`: in the state `s` the program `p` is never held up, and however its
operations answer it ends with a result and a state that meet `Q`. The rules are one
for each way of composing programs, and `total_det` for an operation that has only one
answer. `Total.executes` says what this means for executions, and `Total.next` and its
companions for a machine that goes on step by step.
-/

namespace Effect

variable {S : Sig} {ε α β σ : Type} {env : σ → (o : S.Op) → Except ε (S.Resp o) → σ → Prop} {s : σ}

def Total (env : σ → (o : S.Op) → Except ε (S.Resp o) → σ → Prop) :
    Prog S ε α → σ → (Except ε α → σ → Prop) → Prop
  | .ret a, s, Q => Q (.ok a) s
  | .raise e, s, Q => Q (.error e) s
  | .op o k, s, Q => (∃ r s', env s o r s') ∧ ∀ r s', env s o r s' → Total env (k r) s' Q

section Rules

variable {p : Prog S ε α} {f : α → Prog S ε β} {h : ε → Prog S ε α} {fin : Prog S ε Unit}

@[simp] theorem total_ret {a : α} {Q : Except ε α → σ → Prop} :
    Total env (.ret a) s Q ↔ Q (.ok a) s := Iff.rfl

@[simp] theorem total_raise {e : ε} {Q : Except ε α → σ → Prop} :
    Total env (.raise e) s Q ↔ Q (.error e) s := Iff.rfl

theorem total_op {o : S.Op} {k : Except ε (S.Resp o) → Prog S ε α} {Q : Except ε α → σ → Prop} :
    Total env (.op o k) s Q ↔
      (∃ r s', env s o r s') ∧ ∀ r s', env s o r s' → Total env (k r) s' Q := Iff.rfl

/-- The environment that gives any response, and records the calls (latest first). -/
def Records (calls : List (S.Call ε)) (o : S.Op) (r : Except ε (S.Resp o))
    (calls' : List (S.Call ε)) : Prop :=
  calls' = ⟨o, r⟩ :: calls

theorem total_records {o : S.Op} {k : Except ε (S.Resp o) → Prog S ε α} {calls : List (S.Call ε)}
    {Q : Except ε α → List (S.Call ε) → Prop} [hε : Nonempty ε] :
    Total Records (.op o k) calls Q ↔ ∀ r, Total Records (k r) (⟨o, r⟩ :: calls) Q := by
  refine ⟨fun hop r => hop.2 r _ rfl, fun hk => ⟨hε.elim fun e => ⟨.error e, _, rfl⟩, ?_⟩⟩
  rintro r calls' rfl
  exact hk r

/-- An operation with a single answer. -/
theorem total_det {o : S.Op} {k : Except ε (S.Resp o) → Prog S ε α} {Q : Except ε α → σ → Prop}
    {r₀ : Except ε (S.Resp o)} {s₀ : σ} (hdet : ∀ r s', env s o r s' ↔ r = r₀ ∧ s' = s₀) :
    Total env (.op o k) s Q ↔ Total env (k r₀) s₀ Q := by
  refine ⟨fun hop => hop.2 r₀ s₀ ((hdet _ _).2 ⟨rfl, rfl⟩), fun hk => ⟨⟨r₀, s₀, (hdet _ _).2 ⟨rfl, rfl⟩⟩, ?_⟩⟩
  intro r s' henv
  obtain ⟨rfl, rfl⟩ := (hdet _ _).1 henv
  exact hk

theorem total_bind {Q : Except ε β → σ → Prop} : Total env (p >>= f) s Q ↔
    Total env p s fun r s' => match r with
      | .ok a => Total env (f a) s' Q
      | .error e => Q (.error e) s' := by
  induction p generalizing s with
  | ret a => exact Iff.rfl
  | raise e => exact Iff.rfl
  | op o k ih => exact and_congr_right fun _ => forall₃_congr fun r s' _ => ih r

theorem total_tryCatch {Q : Except ε α → σ → Prop} : Total env (p.tryCatch h) s Q ↔
    Total env p s fun r s' => match r with
      | .ok a => Q (.ok a) s'
      | .error e => Total env (h e) s' Q := by
  induction p generalizing s with
  | ret a => exact Iff.rfl
  | raise e => exact Iff.rfl
  | op o k ih => exact and_congr_right fun _ => forall₃_congr fun r s' _ => ih r

theorem total_ensuring {Q : Except ε α → σ → Prop} : Total env (p.ensuring fin) s Q ↔
    Total env p s fun r s' => Total env (fin >>= fun _ => Prog.ofExcept r) s' Q := by
  induction p generalizing s with
  | ret a => exact Iff.rfl
  | raise e => exact Iff.rfl
  | op o k ih => exact and_congr_right fun _ => forall₃_congr fun r s' _ => ih r

theorem Total.mono {Q Q' : Except ε α → σ → Prop} (ht : Total env p s Q)
    (hQ : ∀ r s', Q r s' → Q' r s') :
    Total env p s Q' := by
  induction p generalizing s with
  | ret a => exact hQ _ _ ht
  | raise e => exact hQ _ _ ht
  | op o k ih => exact ⟨ht.1, fun r s' henv => ih r (ht.2 r s' henv)⟩

/-- What every operation keeps holds at the end. -/
theorem Total.keeps {Q : Except ε α → σ → Prop} {I : σ → Prop} (ht : Total env p s Q) (hI : I s)
    (hkeep : ∀ s o r s', I s → env s o r s' → I s') : Total env p s fun r s' => Q r s' ∧ I s' := by
  induction p generalizing s with
  | ret a => exact ⟨ht, hI⟩
  | raise e => exact ⟨ht, hI⟩
  | op o k ih => exact ⟨ht.1, fun r s' henv => ih r (ht.2 r s' henv) (hkeep _ _ _ _ hI henv)⟩

/-- **What total correctness says**: there is an execution, and every execution ends well. -/
theorem Total.executes {Q : Except ε α → σ → Prop} (ht : Total env p s Q) :
    (∃ r s', Prog.Executes env p s r s') ∧ ∀ r s', Prog.Executes env p s r s' → Q r s' := by
  induction p generalizing s with
  | ret a => exact ⟨⟨_, _, .ret a s⟩, fun r s' hx => by obtain ⟨rfl, rfl⟩ := Prog.executes_ret.1 hx; exact ht⟩
  | raise e => exact ⟨⟨_, _, .raise e s⟩, fun r s' hx => by obtain ⟨rfl, rfl⟩ := Prog.executes_raise.1 hx; exact ht⟩
  | op o k ih =>
    obtain ⟨⟨r, s', henv⟩, hall⟩ := ht
    refine ⟨?_, fun r s' hx => ?_⟩
    · obtain ⟨⟨res, s'', hx⟩, -⟩ := ih r (hall r s' henv)
      exact ⟨res, s'', .op henv hx⟩
    · obtain ⟨r₁, s₁, henv, hk⟩ := Prog.executes_op.1 hx
      exact (ih r₁ (hall r₁ s₁ henv)).2 r s' hk

end Rules

section Machines

variable {π : Type} {node : π → Node S ε α π} {code : π → Prog S ε α} {pt : π}
  {Q : Except ε α → σ → Prop}

/-- A machine that awaits an operation is not held up. -/
theorem Total.answered (himp : Implements node code) (ht : Total env (code pt) s Q) {o : S.Op}
    {k : Except ε (S.Resp o) → π} (hn : node pt = .op o k) : ∃ r s', env s o r s' := by
  rw [himp pt, hn] at ht
  exact ht.1

/-- **A step keeps total correctness.** -/
theorem Total.next (himp : Implements node code) (ht : Total env (code pt) s Q) {o : S.Op}
    {k : Except ε (S.Resp o) → π} (hn : node pt = .op o k) {r : Except ε (S.Resp o)} {s' : σ}
    (henv : env s o r s') : Total env (code (k r)) s' Q := by
  rw [himp pt, hn] at ht
  exact ht.2 r s' henv

end Machines

end Effect
