import OrdersApi.Spec.Effort

/-!
# What a party does while it holds locks

A request locks the keys of its order and has its event insert and its commit ahead. A
worker locks the rows of a batch, and its first transaction ends with the first event of
the batch that it marks: up to then it makes attempts and pauses between them.
-/

namespace OrdersApi

open TxStore

variable {P : Type}

/-- The party holds a lock. -/
def Holding (p : P) (w : World P) (_ : Event P) : Prop := (w.db.session p).locks ≠ []

/-- The points of a request that has written its order and not ended its transaction. -/
def CallPoint.inside : CallPoint → Prop
  | .eventClock _ _ | .insertEvent _ _ _ | .commit _ _ => True
  | _ => False

/-- The operations that a request awaits before its locks are gone. -/
def CallPoint.hold : CallPoint → ℕ
  | .eventClock _ _ => 3
  | .insertEvent _ _ _ => 2
  | .commit _ _ => 1
  | _ => 0

section Cost

variable (cost : Op → ℕ) (event : OutboxEvent)

/-- The attempts at an event in one transaction, and giving it up. -/
def attemptsHold : List ℕ → ℕ
  | [] => cost (.updateStatus event.id .failed) + cost .commit
  | attempt :: later =>
    cost (.publish event (Json.dumps event.payload)) + max (cost (.updateStatus event.id .processed) + cost .commit)
      (backoffCost cost attempt + attemptsHold later)

/-- What a worker spends before its locks are gone. -/
def WorkerPoint.hold : WorkerPoint → ℕ
  | publish job attempt later => attemptsHold cost job.event (attempt :: later)
  | mark job _ _ => cost (.updateStatus job.event.id .processed) + cost .commit
  | commit _ _ _ => cost .commit
  | backoff job attempt later => backoffCost cost attempt + attemptsHold cost job.event later
  | markFailed job => attemptsHold cost job.event []
  | commitFailed _ => cost .commit
  | _ => 0

end Cost

/-- The attempt under way and those after it are the last ones of `range(MAX_RETRIES)`. -/
def WorkerPoint.OnSchedule : WorkerPoint → Prop
  | publish _ attempt later | mark _ attempt later | commit _ attempt later | count _ attempt later =>
    attempt :: later <:+ List.range maxRetries
  | backoff _ attempt later => attempt < maxRetries - 1 ∧ attempt :: later <:+ List.range maxRetries
  | _ => True

/-- The operations of a party before its locks are gone, at most. -/
def Role.hold : Role → ℕ
  | call _ => 3
  | worker _ _ => 2 * maxRetries + 1

/-- The seconds that it sleeps meanwhile. -/
def Role.holdSleep : Role → ℕ
  | call _ => 0
  | worker _ _ => (retryDelays.take (maxRetries - 1)).sum

/-- The calls of the requester service. -/
def getCost : Op → ℕ
  | .get _ _ => 1
  | _ => 0

end OrdersApi
