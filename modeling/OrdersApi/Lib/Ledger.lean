import OrdersApi.Lib.Simulation
import Mathlib.Logic.Function.Basic

/-!
# A ledger of announced entries

Clients ask for the entry of a key, which is accepted from the first of them
(put-if-absent) and found by the others. Each entry has a message, which is sent some
number of times, and its announcement is settled: the entry is announced, which takes a
message sent, or abandoned. With `once` an entry is settled at most once.

The steps are atomic. A client may be told that its request failed although its entry
was accepted.
-/

namespace Ledger

open Trace

variable {P κ ν μ : Type}

inductive Outcome
  | announced
  | abandoned
deriving DecidableEq

structure Entry (ν μ : Type) where
  value : ν
  message : μ
  sent : ℕ
  outcome : Option Outcome

inductive Answer (ν : Type)
  | created (value : ν)
  | existing (value : ν)
  | failed

/-- Where a client stands. -/
inductive Client (ν : Type)
  | new
  | waiting
  | accepted (value : ν)
  | found (value : ν)
  | answered

/-- The answers that may be given to a client. -/
def Client.MayGet : Client ν → Answer ν → Prop
  | accepted v, .created v' => v = v'
  | found v, .existing v' => v = v'
  | accepted _, .failed | waiting, .failed => True
  | _, _ => False

structure State (P κ ν μ : Type) where
  entry : κ → Option (Entry ν μ)
  client : P → Client ν

def State.empty : State P κ ν μ where
  entry _ := none
  client _ := .new

inductive Act (P κ ν μ : Type)
  | invoke (p : P)
  | accept (p : P) (value : ν) (message : μ)
  | find (p : P) (value : ν)
  | answer (p : P) (answer : Answer ν)
  | send (key : κ) (message : μ)
  | settle (key : κ) (outcome : Outcome)

section Step

variable [DecidableEq P] [DecidableEq κ]

def State.move (s : State P κ ν μ) (p : P) (c : Client ν) : State P κ ν μ :=
  { s with client := Function.update s.client p c }

def State.put (s : State P κ ν μ) (k : κ) (e : Entry ν μ) : State P κ ν μ :=
  { s with entry := Function.update s.entry k (some e) }

/-- The steps of a ledger in which client `p` asks for the entry of `key p`. -/
inductive Step (key : P → κ) (once : Prop) (s : State P κ ν μ) : Act P κ ν μ → State P κ ν μ → Prop
  | invoke (p : P) (client : s.client p = .new) : Step key once s (.invoke p) (s.move p .waiting)
  | accept (p : P) (v : ν) (m : μ) (client : s.client p = .waiting) (absent : s.entry (key p) = none) :
      Step key once s (.accept p v m) ((s.put (key p) ⟨v, m, 0, none⟩).move p (.accepted v))
  | find (p : P) (e : Entry ν μ) (client : s.client p = .waiting) (present : s.entry (key p) = some e) :
      Step key once s (.find p e.value) (s.move p (.found e.value))
  | answer (p : P) (a : Answer ν) (client : (s.client p).MayGet a) :
      Step key once s (.answer p a) (s.move p .answered)
  | send (k : κ) (e : Entry ν μ) (present : s.entry k = some e) :
      Step key once s (.send k e.message) (s.put k { e with sent := e.sent + 1 })
  | settle (k : κ) (o : Outcome) (e : Entry ν μ) (present : s.entry k = some e)
      (sent : o = .announced → 0 < e.sent) (fresh : once → e.outcome = none) :
      Step key once s (.settle k o) (s.put k { e with outcome := some o })

end Step

section Updates

variable {s : State P κ ν μ} {p q : P} {c : Client ν} {k k' : κ} {e : Entry ν μ}

section

variable [DecidableEq P]

@[simp] theorem move_entry : (s.move p c).entry = s.entry := rfl
@[simp] theorem move_self : (s.move p c).client p = c := by simp [State.move]

theorem move_other (h : q ≠ p) : (s.move p c).client q = s.client q := by simp [State.move, h]

end

variable [DecidableEq κ]

@[simp] theorem put_client : (s.put k e).client = s.client := rfl
@[simp] theorem put_self : (s.put k e).entry k = some e := by simp [State.put]

theorem put_other (h : k' ≠ k) : (s.put k e).entry k' = s.entry k' := by simp [State.put, h]

end Updates

end Ledger
