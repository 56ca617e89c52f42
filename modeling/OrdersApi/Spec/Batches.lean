import OrdersApi.Spec.Observe

/-!
# A worker and its batches

What statements about one worker use: its counters and the status changes they count,
the rest of a batch that is under way, and the conditions on how statements and
commits of a worker may fail.
-/

namespace OrdersApi

variable {P : Type}

/-- Only `p` may be a worker. -/
def SoleWorker (role : P → Role) (p : P) : Prop := ∀ q W polls, role q = .worker W polls → q = p

/-! ## Counters -/

/-- The counter that a step increments. -/
def Event.counts : Event P → Option Counter
  | .exec _ (.inc counter) (.ok _) => some counter
  | _ => none

/-- The value of a counter that was 0 at the start of the run. -/
def counted (counter : Counter) (tr : List (Event P)) : ℕ := (tr.filterMap Event.counts).count counter

/-- The events whose committed status went from `pending` to `status`: an event that was
not there at the start was inserted as `pending`. -/
def Went (start now : Tables) (status : OutboxStatus) : Set UUID :=
  {e | now.statusOf e = some status ∧ (start.statusOf e = none ∨ start.statusOf e = some .pending)}

/-- The points of a worker before, between and after its batches. -/
def WorkerPoint.betweenBatches : WorkerPoint → Prop
  | fetch _ | pause _ | stopped _ => True
  | _ => False

/-- A step in which a commit that raises is not applied. -/
def SureStep [DecidableEq P] (w : World P) (l : Event P) (w' : World P) : Prop :=
  Step w l w' ∧ ∀ p e, l = .exec p .commit (.error e) → w'.db.committed = w.db.committed

/-- A `mark_failed`, and the commit after it, does not raise. -/
def GiveUpOk (w : World P) (l : Event P) : Prop :=
  ∀ p W job o e, w.procs p = .worker W (.markFailed job) ∨ w.procs p = .worker W (.commitFailed job) →
    l ≠ .exec p o (.error e)

/-! ## What `failed` says -/

/-- A `mark_processed` does not fail for want of a connection. -/
def ConnectOk (w : World P) (l : Event P) : Prop :=
  ∀ p e err, l = .exec p (.updateStatus e .processed) (.error err) → w.db.session p ≠ .idle

/-- No fetch has returned an event for which `publish` had returned before. -/
def NotRefetched : List (Event P) → Prop
  | [] => True
  | l :: tr => NotRefetched tr ∧ ∀ p n rows, l = .exec p (.selectPending n) (.ok rows) →
      ∀ row ∈ rows, ¬ PublishedOk tr row.id

/-! ## The rest of a batch -/

/-- A step is an operation of `p`. -/
def Event.IsOf [DecidableEq P] (p : P) : Event P → Bool
  | .exec q _ _ => q = p
  | _ => false

/-- How often `p` calls `publish` for an event. -/
def publishCallsBy [DecidableEq P] (p : P) (e : UUID) (tr : List (Event P)) : ℕ :=
  publishCalls e (tr.filter (Event.IsOf p))

/-- A step within the batch of `p` in which publishing succeeds, statements and commits of `p`
succeed unless its transaction is aborted, and nobody else changes the status of the events. -/
structure RestOk (p : P) (events : List OutboxEvent) (w : World P) (l : Event P) : Prop where
  within : ∀ r, l ≠ .exec p .close r
  published : ∀ event body r, l = .exec p (.publish event body) r → r = .ok ()
  healthy : ∀ o e, l = .exec p o (.error e) → o.isStatement ∨ o = .commit → ¬ (w.db.session p).Usable
  opened : l ≠ .abort p
  others : ∀ q r e status, q ≠ p → l = .exec q .commit r →
    .setStatus e status ∈ (w.db.session q).writes →
    ∀ event ∈ events, event.id ≠ e

end OrdersApi
