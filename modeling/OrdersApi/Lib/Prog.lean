import Mathlib.Logic.Function.Basic

/-!
# Programs as trees of awaited operations

A program either returns, raises, or awaits an operation and goes on with its
response (`Prog`); a response may itself be an exception. `bind`, `tryCatch` and
`ensuring` are sequencing, `try/except` and `try/finally`, so that a program text
can be written with `do`.

A **machine** gives the same behaviour by named control points: `node p` says what
point `p` awaits and which point follows each response. `Implements` says that a
machine is the program text, point by point; then a machine's steps are an
execution of the text (`Ran`, `ran_step`).
-/

namespace Effect

/-- The operations a program may await, with the type of each one's result. -/
structure Sig where
  Op : Type
  Resp : Op → Type

variable {S : Sig} {ε α β π : Type}

inductive Prog (S : Sig) (ε α : Type) : Type
  | ret (a : α)
  | raise (e : ε)
  | op (o : S.Op) (k : Except ε (S.Resp o) → Prog S ε α)

namespace Prog

def bind : Prog S ε α → (α → Prog S ε β) → Prog S ε β
  | ret a, f => f a
  | raise e, _ => raise e
  | op o k, f => op o fun r => (k r).bind f

/-- `try p except h`. -/
def tryCatch : Prog S ε α → (ε → Prog S ε α) → Prog S ε α
  | ret a, _ => ret a
  | raise e, h => h e
  | op o k, h => op o fun r => (k r).tryCatch h

/-- `try p finally fin`: `fin` runs on both exits of `p`. -/
def ensuring : Prog S ε α → Prog S ε Unit → Prog S ε α
  | ret a, fin => fin.bind fun _ => ret a
  | raise e, fin => fin.bind fun _ => raise e
  | op o k, fin => op o fun r => (k r).ensuring fin

/-- What a program does with an exceptional or normal result. -/
def ofExcept : Except ε α → Prog S ε α
  | .ok a => ret a
  | .error e => raise e

/-- Await one operation. -/
def await (o : S.Op) : Prog S ε (S.Resp o) := op o ofExcept

instance : Monad (Prog S ε) where
  pure := ret
  bind := bind

instance : MonadExcept ε (Prog S ε) where
  throw := raise
  tryCatch := tryCatch

section Equations

variable (a : α) (e : ε) (f : α → Prog S ε β) (h : ε → Prog S ε α) (o : S.Op)
  (k : Except ε (S.Resp o) → Prog S ε α) (fin : Prog S ε Unit)

@[simp] theorem pure_eq : (pure a : Prog S ε α) = ret a := rfl
@[simp] theorem throw_eq : (throw e : Prog S ε α) = raise e := rfl
@[simp] theorem ret_bind : (ret a >>= f) = f a := rfl
@[simp] theorem raise_bind : ((raise e : Prog S ε α) >>= f) = raise e := rfl
@[simp] theorem op_bind : (op o k >>= f) = op o fun r => k r >>= f := rfl
@[simp] theorem ret_tryCatch : (ret a : Prog S ε α).tryCatch h = ret a := rfl
@[simp] theorem raise_tryCatch : (raise e : Prog S ε α).tryCatch h = h e := rfl
@[simp] theorem op_tryCatch : (op o k).tryCatch h = op o fun r => (k r).tryCatch h := rfl
@[simp] theorem raise_ensuring : (raise e : Prog S ε α).ensuring fin = fin >>= fun _ => raise e := rfl
@[simp] theorem op_ensuring : (op o k).ensuring fin = op o fun r => (k r).ensuring fin := rfl
@[simp] theorem ofExcept_ok : (ofExcept (.ok a) : Prog S ε α) = ret a := rfl
@[simp] theorem ofExcept_error : (ofExcept (.error e) : Prog S ε α) = raise e := rfl
@[simp] theorem await_eq : (await o : Prog S ε (S.Resp o)) = op o ofExcept := rfl

theorem bind_assoc {γ : Type} (p : Prog S ε α) (g : β → Prog S ε γ) :
    p >>= f >>= g = p >>= fun a => f a >>= g := by
  induction p with
  | ret a => rfl
  | raise e => rfl
  | op o k ih => exact congrArg (op o) (funext ih)

end Equations

/-- Running a program alone: in the state `s` the operation `o` may give `r` and leave
`s'` when `env s o r s'`. -/
inductive Executes {σ : Type} (env : σ → (o : S.Op) → Except ε (S.Resp o) → σ → Prop) :
    Prog S ε α → σ → Except ε α → σ → Prop
  | ret (a : α) (s : σ) : Executes env (.ret a) s (.ok a) s
  | raise (e : ε) (s : σ) : Executes env (.raise e) s (.error e) s
  | op {o : S.Op} {k : Except ε (S.Resp o) → Prog S ε α} {s s' s'' : σ} {r : Except ε (S.Resp o)}
      {res : Except ε α} : env s o r s' → Executes env (k r) s' res s'' →
      Executes env (.op o k) s res s''

section Executes

variable {σ : Type} {env : σ → (o : S.Op) → Except ε (S.Resp o) → σ → Prop} {s s' : σ}

@[simp] theorem executes_ret {a : α} {res : Except ε α} :
    Executes env (.ret a) s res s' ↔ res = .ok a ∧ s' = s := by
  refine ⟨fun h => by cases h; exact ⟨rfl, rfl⟩, ?_⟩
  rintro ⟨rfl, rfl⟩; exact .ret a s'

@[simp] theorem executes_raise {e : ε} {res : Except ε α} :
    Executes env (.raise e) s res s' ↔ res = .error e ∧ s' = s := by
  refine ⟨fun h => by cases h; exact ⟨rfl, rfl⟩, ?_⟩
  rintro ⟨rfl, rfl⟩; exact .raise e s'

theorem executes_op {o : S.Op} {k : Except ε (S.Resp o) → Prog S ε α} {res : Except ε α} :
    Executes env (.op o k) s res s' ↔ ∃ r s₁, env s o r s₁ ∧ Executes env (k r) s₁ res s' :=
  ⟨fun h => by cases h with | op ho hk => exact ⟨_, _, ho, hk⟩, fun ⟨_, _, ho, hk⟩ => .op ho hk⟩

theorem executes_bind {p : Prog S ε α} {f : α → Prog S ε β} {res : Except ε β} :
    Executes env (p >>= f) s res s' ↔ ∃ r s₁, Executes env p s r s₁ ∧ match r with
      | .ok a => Executes env (f a) s₁ res s'
      | .error e => res = .error e ∧ s' = s₁ := by
  induction p generalizing s with
  | ret a =>
    rw [ret_bind]
    refine ⟨fun h => ⟨.ok a, s, .ret a s, h⟩, ?_⟩
    rintro ⟨r, s₁, hx, h⟩
    obtain ⟨rfl, rfl⟩ := executes_ret.1 hx
    exact h
  | raise e =>
    rw [raise_bind, executes_raise]
    refine ⟨fun h => ⟨.error e, s, .raise e s, h⟩, ?_⟩
    rintro ⟨r, s₁, hx, h⟩
    obtain ⟨rfl, rfl⟩ := executes_raise.1 hx
    exact h
  | op o k ih =>
    simp only [op_bind, executes_op, ih]
    constructor
    · rintro ⟨r, s₁, ho, r', s₂, hk, h⟩
      exact ⟨r', s₂, ⟨r, s₁, ho, hk⟩, h⟩
    · rintro ⟨r', s₂, ⟨r, s₁, ho, hk⟩, h⟩
      exact ⟨r, s₁, ho, r', s₂, hk, h⟩

theorem executes_tryCatch {p : Prog S ε α} {h : ε → Prog S ε α} {res : Except ε α} :
    Executes env (p.tryCatch h) s res s' ↔ ∃ r s₁, Executes env p s r s₁ ∧ match r with
      | .ok a => res = .ok a ∧ s' = s₁
      | .error e => Executes env (h e) s₁ res s' := by
  induction p generalizing s with
  | ret a =>
    rw [ret_tryCatch, executes_ret]
    refine ⟨fun hres => ⟨.ok a, s, .ret a s, hres⟩, ?_⟩
    rintro ⟨r, s₁, hx, hres⟩
    obtain ⟨rfl, rfl⟩ := executes_ret.1 hx
    exact hres
  | raise e =>
    rw [raise_tryCatch]
    refine ⟨fun hres => ⟨.error e, s, .raise e s, hres⟩, ?_⟩
    rintro ⟨r, s₁, hx, hres⟩
    obtain ⟨rfl, rfl⟩ := executes_raise.1 hx
    exact hres
  | op o k ih =>
    simp only [op_tryCatch, executes_op, ih]
    constructor
    · rintro ⟨r, s₁, ho, r', s₂, hk, hres⟩
      exact ⟨r', s₂, ⟨r, s₁, ho, hk⟩, hres⟩
    · rintro ⟨r', s₂, ⟨r, s₁, ho, hk⟩, hres⟩
      exact ⟨r, s₁, ho, r', s₂, hk, hres⟩

@[simp] theorem executes_ofExcept {r res : Except ε α} :
    Executes env (ofExcept r) s res s' ↔ res = r ∧ s' = s := by
  rcases r with e | a
  · exact executes_raise
  · exact executes_ret

/-- Mapping the result of a program, and handling its exceptions. -/
theorem executes_recovered {p : Prog S ε α} {f : α → β} {g : ε → Except ε β} {res : Except ε β} :
    Executes env (((p >>= fun a => ret (f a)) : Prog S ε β).tryCatch fun e => ofExcept (g e)) s res s' ↔
      ∃ r, Executes env p s r s' ∧ res = match r with | .ok a => .ok (f a) | .error e => g e := by
  rw [executes_tryCatch]
  constructor
  · rintro ⟨r, s₁, hx, hres⟩
    obtain ⟨r', s₂, hp, hr⟩ := executes_bind.1 hx
    rcases r' with e | a
    · obtain ⟨rfl, rfl⟩ := hr
      obtain ⟨rfl, rfl⟩ := executes_ofExcept.1 hres
      exact ⟨_, hp, rfl⟩
    · obtain ⟨rfl, rfl⟩ := executes_ret.1 hr
      obtain ⟨rfl, rfl⟩ := hres
      exact ⟨_, hp, rfl⟩
  · rintro ⟨r, hp, rfl⟩
    rcases r with e | a
    · exact ⟨.error e, s', executes_bind.2 ⟨_, s', hp, rfl, rfl⟩, executes_ofExcept.2 ⟨rfl, rfl⟩⟩
    · exact ⟨.ok (f a), s', executes_bind.2 ⟨_, s', hp, .ret _ _⟩, rfl, rfl⟩

/-- Turning both outcomes of a program into values. -/
theorem executes_handled {p : Prog S ε α} {f : α → β} {g : ε → β} {res : Except ε β} :
    Executes env (((p >>= fun a => ret (f a)) : Prog S ε β).tryCatch fun e => ret (g e)) s res s' ↔
      ∃ r, Executes env p s r s' ∧ res = .ok (match r with | .ok a => f a | .error e => g e) := by
  refine (executes_recovered (g := fun e => .ok (g e))).trans ?_
  refine exists_congr fun r => and_congr_right fun _ => ?_
  rcases r with e | a <;> rfl

end Executes

end Prog

/-! ## Machines -/

/-- What a control point does: it has returned or raised, or awaits an operation
whose response decides the next point. -/
inductive Node (S : Sig) (ε α π : Type) : Type
  | ret (a : α)
  | raise (e : ε)
  | op (o : S.Op) (k : Except ε (S.Resp o) → π)

/-- The program of a node, given the programs of the points it leads to. -/
def Node.prog (code : π → Prog S ε α) : Node S ε α π → Prog S ε α
  | .ret a => .ret a
  | .raise e => .raise e
  | .op o k => .op o fun r => code (k r)

/-- The machine `node` is the program text `code`, at every point. -/
def Implements (node : π → Node S ε α π) (code : π → Prog S ε α) : Prop :=
  ∀ p, code p = (node p).prog code

/-- An operation with its response. -/
abbrev Sig.Call (S : Sig) (ε : Type) : Type := (o : S.Op) × Except ε (S.Resp o)

/-- `Ran p l q`: awaiting the operations of `l` (latest first), with their responses,
takes the program `p` to `q`. -/
inductive Ran (p : Prog S ε α) : List (S.Call ε) → Prog S ε α → Prop
  | nil : Ran p [] p
  | step {l : List (S.Call ε)} {o : S.Op} {k : Except ε (S.Resp o) → Prog S ε α} (r : Except ε (S.Resp o)) :
      Ran p l (.op o k) → Ran p (⟨o, r⟩ :: l) (k r)

/-- A step of a machine is a step of the text it implements. -/
theorem ran_step {node : π → Node S ε α π} {code : π → Prog S ε α} (himp : Implements node code)
    {p : Prog S ε α} {l : List (S.Call ε)} {pt : π} {o : S.Op} {k : Except ε (S.Resp o) → π}
    (hrun : Ran p l (code pt)) (hnode : node pt = .op o k) (r : Except ε (S.Resp o)) :
    Ran p (⟨o, r⟩ :: l) (code (k r)) := by
  have hcode : code pt = .op o fun r => code (k r) := by rw [himp pt, hnode]; rfl
  rw [hcode] at hrun
  exact hrun.step r

end Effect
