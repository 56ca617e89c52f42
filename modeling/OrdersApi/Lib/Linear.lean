import OrdersApi.Lib.Ledger

/-!
# Linearizability of a ledger

`Serial`: what a sequential put-if-absent register answers. A history of invocations
and answers is `Linearizable` when some requests, the answered ones among them, can be
put in an order in which the register gives just these answers, and which goes along
with real time: a request that was answered before another one was invoked comes
first. A request that was told `failed` may be in the order or not.

`linearizable_of_run`: the histories of a ledger are linearizable. A request takes effect
at the step at which its entry is accepted or found.
-/

namespace Ledger

open Trace

variable {P κ ν μ : Type} [DecidableEq κ] {key : P → κ} {once : Prop}

/-- Requests in an order (latest first), with the answers of a register that was empty at
the start, and what the register holds after them. -/
inductive Serial (key : P → κ) : List (P × Answer ν) → (κ → Option ν) → Prop
  | nil : Serial key [] fun _ => none
  | created {order : List (P × Answer ν)} {m : κ → Option ν} {p : P} {v : ν} (h : Serial key order m)
      (absent : m (key p) = none) :
      Serial key ((p, .created v) :: order) (Function.update m (key p) (some v))
  | existing {order : List (P × Answer ν)} {m : κ → Option ν} {p : P} {v : ν} (h : Serial key order m)
      (present : m (key p) = some v) : Serial key ((p, .existing v) :: order) m

/-- In `order` (latest first) the request of `p` comes before that of `q`. -/
def Precedes (order : List (P × Answer ν)) (p q : P) : Prop :=
  ∃ later earlier, order = later ++ earlier ∧ p ∉ later.map Prod.fst ∧ q ∉ earlier.map Prod.fst

structure Linearizable (key : P → κ) (history : List (Act P κ ν μ)) (final : κ → Option ν)
    (order : List (P × Answer ν)) : Prop where
  serial : Serial key order final
  nodup : (order.map Prod.fst).Nodup
  answered : ∀ p a, .answer p a ∈ history → a ≠ .failed → (p, a) ∈ order
  invoked : ∀ p a, (p, a) ∈ order → .invoke p ∈ history
  realTime : ∀ later p a earlier q, history = later ++ .answer p a :: earlier → .invoke q ∉ earlier →
    Precedes order p q

/-! ## The order in which requests take effect -/

/-- A step at which a request takes effect. -/
def Act.effect : Act P κ ν μ → Option (P × Answer ν)
  | accept p v _ => some (p, .created v)
  | find p v => some (p, .existing v)
  | _ => none

/-- The requests that have taken effect, in this order (latest first). -/
def effects (history : List (Act P κ ν μ)) : List (P × Answer ν) := history.filterMap Act.effect

/-- The values in a ledger. -/
def State.values (s : State P κ ν μ) (k : κ) : Option ν := (s.entry k).map Entry.value

omit [DecidableEq κ] in
theorem effects_append (h h' : List (Act P κ ν μ)) : effects (h ++ h') = effects h ++ effects h' :=
  List.filterMap_append

/-- How an entry is announced makes no difference to its value. -/
theorem values_put {s : State P κ ν μ} {k : κ} {e : Entry ν μ} (e' : Entry ν μ)
    (hk : s.entry k = some e)
    (hv : e'.value = e.value) : (s.put k e').values = s.values := by
  funext k'
  by_cases hk' : k' = k
  · simp [State.values, hk', hk, hv]
  · simp [State.values, put_other hk']

/-- What is known of a client from the history. -/
def Knows (history : List (Act P κ ν μ)) (p : P) : Client ν → Prop
  | .new => .invoke p ∉ history ∧ p ∉ (effects history).map Prod.fst ∧ ∀ a, .answer p a ∉ history
  | .waiting => .invoke p ∈ history ∧ p ∉ (effects history).map Prod.fst ∧ ∀ a, .answer p a ∉ history
  | .accepted v => .invoke p ∈ history ∧ (p, .created v) ∈ effects history ∧ ∀ a, .answer p a ∉ history
  | .found v => .invoke p ∈ history ∧ (p, .existing v) ∈ effects history ∧ ∀ a, .answer p a ∉ history
  | .answered => .invoke p ∈ history ∧ ∀ a, .answer p a ∈ history → a ≠ .failed →
      (p, a) ∈ effects history

/-- The client whose request an act is a part of. -/
def Act.client : Act P κ ν μ → Option P
  | invoke p | accept p _ _ | find p _ | answer p _ => some p
  | send _ _ | settle _ _ => none

section Knows

variable {history : List (Act P κ ν μ)} {act : Act P κ ν μ} {p : P} {c : Client ν} {v : ν} {m : μ}

omit [DecidableEq κ]

theorem effects_cons_other (history : List (Act P κ ν μ)) (h : act.client ≠ some p) :
    (p ∈ (effects (act :: history)).map Prod.fst ↔ p ∈ (effects history).map Prod.fst) ∧
      ∀ a, (p, a) ∈ effects history → (p, a) ∈ effects (act :: history) := by
  unfold effects
  cases act with
  | accept q v m =>
    have hne : p ≠ q := fun he => h (by rw [he]; rfl)
    exact ⟨by simp [Act.effect, hne], fun a ha => List.mem_cons_of_mem _ ha⟩
  | find q v =>
    have hne : p ≠ q := fun he => h (by rw [he]; rfl)
    exact ⟨by simp [Act.effect, hne], fun a ha => List.mem_cons_of_mem _ ha⟩
  | _ => exact ⟨Iff.rfl, fun a ha => ha⟩

/-- What other clients do changes nothing that is known of a client. -/
theorem Knows.other (hk : Knows history p c) (h : act.client ≠ some p) :
    Knows (act :: history) p c := by
  obtain ⟨heff, hmem⟩ := effects_cons_other history h
  have hinv : .invoke p ∈ act :: history ↔ .invoke p ∈ history := by
    refine List.mem_cons.trans (or_iff_right ?_)
    rintro rfl
    exact h rfl
  have hans : ∀ a, .answer p a ∈ act :: history ↔ .answer p a ∈ history := by
    intro a
    refine List.mem_cons.trans (or_iff_right ?_)
    rintro rfl
    exact h rfl
  cases c with
  | new => exact ⟨mt hinv.1 hk.1, mt heff.1 hk.2.1, fun a => mt (hans a).1 (hk.2.2 a)⟩
  | waiting => exact ⟨hinv.2 hk.1, mt heff.1 hk.2.1, fun a => mt (hans a).1 (hk.2.2 a)⟩
  | accepted v => exact ⟨hinv.2 hk.1, hmem _ hk.2.1, fun a => mt (hans a).1 (hk.2.2 a)⟩
  | found v => exact ⟨hinv.2 hk.1, hmem _ hk.2.1, fun a => mt (hans a).1 (hk.2.2 a)⟩
  | answered => exact ⟨hinv.2 hk.1, fun a ha hne => hmem _ (hk.2 a ((hans a).1 ha) hne)⟩

theorem Knows.invoke (hk : Knows history p .new) : Knows (.invoke p :: history) p .waiting :=
  ⟨List.mem_cons_self, hk.2.1, fun a ha => hk.2.2 a (by simpa using ha)⟩

theorem Knows.accept (hk : Knows history p .waiting) :
    Knows (.accept p v m :: history) p (.accepted v) :=
  ⟨List.mem_cons_of_mem _ hk.1, List.mem_cons_self, fun a ha => hk.2.2 a (by simpa using ha)⟩

theorem Knows.find (hk : Knows history p .waiting) : Knows (.find p v :: history) p (.found v) :=
  ⟨List.mem_cons_of_mem _ hk.1, List.mem_cons_self, fun a ha => hk.2.2 a (by simpa using ha)⟩

/-- A client gets one answer, which is that of the register if it is not `failed`. -/
theorem Knows.answer {a : Answer ν} (hk : Knows history p c) (ha : c.MayGet a) :
    Knows (.answer p a :: history) p .answered := by
  have hone : (∀ b, .answer p b ∉ history) ∧ .invoke p ∈ history ∧
      (a ≠ .failed → (p, a) ∈ effects history) := by
    cases c with
    | waiting =>
      refine ⟨hk.2.2, hk.1, fun hne => ?_⟩
      cases a with
      | failed => exact absurd rfl hne
      | _ => exact ha.elim
    | accepted v =>
      refine ⟨hk.2.2, hk.1, fun hne => ?_⟩
      cases a with
      | created v' => exact (show v = v' from ha) ▸ hk.2.1
      | existing v' => exact ha.elim
      | failed => exact absurd rfl hne
    | found v =>
      refine ⟨hk.2.2, hk.1, fun hne => ?_⟩
      cases a with
      | existing v' => exact (show v = v' from ha) ▸ hk.2.1
      | _ => exact ha.elim
    | _ => cases a <;> exact ha.elim
  obtain ⟨hnone, hinv, heff⟩ := hone
  refine ⟨List.mem_cons_of_mem _ hinv, fun b hb hne => ?_⟩
  rcases List.mem_cons.1 hb with hb | hb
  · cases hb
    exact heff hne
  · exact absurd hb (hnone b)

end Knows

section Runs

variable [DecidableEq P] {s s' s₀ : State P κ ν μ} {history later earlier : List (Act P κ ν μ)}
  {act : Act P κ ν μ}
  {p q : P} {a : Answer ν}

/-- Each client is where its history says. -/
theorem knows_of_run (h : Run (Step key once) .empty history s) (p : P) :
    Knows history p (s.client p) := by
  revert p
  refine h.invariant (I := fun history s => ∀ p, Knows history p (s.client p)) ?_ ?_
  · intro p
    exact ⟨List.not_mem_nil, List.not_mem_nil, fun a => List.not_mem_nil⟩
  · intro history s act s' _ hI hs q
    by_cases hq : act.client = some q
    · have hI := hI q
      cases hs with
      | invoke p hc =>
        cases hq
        rw [move_self]
        exact (hc ▸ hI).invoke
      | accept p v m hc =>
        cases hq
        rw [move_self]
        exact (hc ▸ hI).accept
      | find p e hc =>
        cases hq
        rw [move_self]
        exact (hc ▸ hI).find
      | answer p a hc =>
        cases hq
        rw [move_self]
        exact hI.answer hc
      | _ => cases hq
    · have hI := (hI q).other hq
      have hkeep : s'.client q = s.client q := by
        have hne : ∀ p, act.client = some p → q ≠ p := fun p hp he => hq (he ▸ hp)
        cases hs with
        | invoke p => exact move_other (hne p rfl)
        | accept p => exact move_other (hne p rfl)
        | find p => exact move_other (hne p rfl)
        | answer p => exact move_other (hne p rfl)
        | _ => rfl
      rw [hkeep]
      exact hI

/-- An answered client takes no further effect. -/
theorem quiet_of_answered (hc : s₀.client p = .answered) (h : Run (Step key once) s₀ history s) :
    p ∉ (effects history).map Prod.fst := by
  have hmain : s.client p = .answered ∧ p ∉ (effects history).map Prod.fst := by
    refine h.invariant (I := fun history s => s.client p = .answered ∧ p ∉ (effects history).map Prod.fst)
      ⟨hc, List.not_mem_nil⟩ ?_
    rintro history s act s' - ⟨hcl, heff⟩ hs
    have hne : ∀ q, s.client q ≠ .answered → p ≠ q := fun q hq he => hq (he ▸ hcl)
    cases hs with
    | invoke q hq =>
      have hpq := hne q (by rw [hq]; nofun)
      exact ⟨(move_other hpq).trans hcl, heff⟩
    | accept q v m hq =>
      have hpq := hne q (by rw [hq]; nofun)
      refine ⟨(move_other hpq).trans hcl, ?_⟩
      simpa [effects, Act.effect, hpq] using heff
    | find q e hq =>
      have hpq := hne q (by rw [hq]; nofun)
      refine ⟨(move_other hpq).trans hcl, ?_⟩
      simpa [effects, Act.effect, hpq] using heff
    | answer q a hq =>
      by_cases hpq : p = q
      · rw [hpq, move_self]
        exact ⟨rfl, hpq ▸ heff⟩
      · exact ⟨(move_other hpq).trans hcl, heff⟩
    | _ => exact ⟨hcl, heff⟩
  exact hmain.2

/-- The requests take effect one after the other, as on a register. -/
theorem serial_of_run (h : Run (Step key once) .empty history s) :
    Serial key (effects history) s.values ∧ ((effects history).map Prod.fst).Nodup := by
  refine h.invariant (I := fun history s => Serial key (effects history) s.values ∧
    ((effects history).map Prod.fst).Nodup) ⟨.nil, List.nodup_nil⟩ ?_
  rintro history s act s' hrun ⟨hser, hnd⟩ hs
  have hnew : ∀ p, s.client p = .waiting → p ∉ (effects history).map Prod.fst := by
    intro p hp
    have hk := knows_of_run hrun p
    rw [hp] at hk
    exact hk.2.1
  cases hs with
  | accept p v m hc habs =>
    refine ⟨?_, List.nodup_cons.2 ⟨hnew p hc, hnd⟩⟩
    have hvals : (((s.put (key p) ⟨v, m, 0, none⟩).move p (.accepted v)).values) =
        Function.update s.values (key p) (some v) := by
      funext k
      by_cases hk : k = key p
      · simp [State.values, hk]
      · simp [State.values, put_other hk, hk]
    rw [hvals]
    exact hser.created (by simp [State.values, habs])
  | find p e hc hpres =>
    exact ⟨hser.existing (by simp [State.values, hpres]), List.nodup_cons.2 ⟨hnew p hc, hnd⟩⟩
  | send k e hpres =>
    rw [values_put { e with sent := e.sent + 1 } hpres rfl]
    exact ⟨hser, hnd⟩
  | settle k o e hpres =>
    rw [values_put { e with outcome := some o } hpres rfl]
    exact ⟨hser, hnd⟩
  | _ => exact ⟨hser, hnd⟩

/-- A request has been invoked before it takes effect. -/
theorem invoked_of_run (h : Run (Step key once) .empty history s) (hp : (p, a) ∈ effects history) :
    .invoke p ∈ history := by
  have hk := knows_of_run h p
  cases hc : s.client p with
  | new =>
    rw [hc] at hk
    exact absurd (List.mem_map_of_mem (f := Prod.fst) hp) hk.2.1
  | _ =>
    rw [hc] at hk
    exact hk.1

/-- **The histories of a ledger are linearizable.** -/
theorem linearizable_of_run (h : Run (Step key once) .empty history s) :
    Linearizable key history s.values (effects history) where
  serial := (serial_of_run h).1
  nodup := (serial_of_run h).2
  answered p a hans hne := by
    have hk := knows_of_run h p
    cases hc : s.client p with
    | answered =>
      rw [hc] at hk
      exact hk.2 a hans hne
    | _ =>
      rw [hc] at hk
      exact absurd hans (hk.2.2 a)
  invoked p a hp := invoked_of_run h hp
  realTime later p a earlier q hsplit hq := by
    rw [hsplit] at h ⊢
    obtain ⟨s₁, h₁, h₂⟩ := h.split
    refine ⟨effects later, effects earlier, effects_append _ _, ?_, ?_⟩
    -- `p` has its answer in `s₁`
    · cases h₁ with
      | step _ hs =>
        cases hs with
        | answer => exact quiet_of_answered move_self h₂
    · intro hmem
      obtain ⟨⟨q', b⟩, hb, rfl⟩ := List.mem_map.1 hmem
      cases h₁ with
      | step h₀ _ => exact hq (invoked_of_run h₀ hb)

end Runs

end Ledger
