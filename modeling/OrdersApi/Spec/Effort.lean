import OrdersApi.Lib.Potential
import OrdersApi.Spec.Database
import OrdersApi.Spec.Points
import OrdersApi.Spec.System

/-!
# What parties do at most

A `cost` for each operation gives every event the cost of the worst way of processing it
(`eventCost`): all attempts fail at their commit, or the last one succeeds. `Role.work` is
the number of operations of a party.
-/

namespace OrdersApi

/-- An operation may be answered so, in some database. -/
def May (P : Type) [DecidableEq P] (call : effects.Call Exc) : Prop :=
  ∃ (db db' : Db P) (p : P), Exec db p call.1 call.2 db'

section Cost

variable (cost : Op → ℕ) (event : OutboxEvent)

/-- The pause after an attempt that failed. -/
def backoffCost (attempt : ℕ) : ℕ :=
  if attempt < maxRetries - 1 then cost (.sleep (retryDelays.getD attempt 0)) else 0

/-- The attempts at an event, and giving it up. -/
def attemptsCost : List ℕ → ℕ
  | [] => cost (.updateStatus event.id .failed) + (cost .commit + cost (.inc .messagesFailedTotal))
  | attempt :: later =>
    cost (.publish event (Json.dumps event.payload)) + (cost (.updateStatus event.id .processed) +
      (cost .commit + max (cost (.inc .messagesProcessedTotal)) (backoffCost cost attempt + attemptsCost later)))

def eventCost : ℕ := attemptsCost cost event (List.range maxRetries)

def batchCost (events : List OutboxEvent) : ℕ := (events.map (eventCost cost)).sum

/-- A poll without the events of its batch. -/
def pollCost (W : OutboxWorker) : ℕ :=
  cost (.selectPending W.batchSize) + (cost .close + cost (.sleep W.pollInterval))

/-- What is left to do when a batch is done. -/
def tailCost (W : OutboxWorker) (polls : ℕ) : ℕ :=
  cost .close + cost (.sleep W.pollInterval) + pollCost cost W * polls

/-- The events that a call fetches. -/
def fetchedRows : effects.Call Exc → List OutboxEventModel
  | ⟨.selectPending _, .ok rows⟩ => rows
  | _ => []

/-- What is left to do at a point of a worker. -/
def WorkerPoint.potential (W : OutboxWorker) : WorkerPoint → ℕ
  | fetch polls => pollCost cost W * (polls + 1)
  | publish job attempt later =>
    attemptsCost cost job.event (attempt :: later) + (batchCost cost job.batch + tailCost cost W job.polls)
  | mark job attempt later =>
    cost (.updateStatus job.event.id .processed) + (cost .commit + max (cost (.inc .messagesProcessedTotal))
      (backoffCost cost attempt + attemptsCost cost job.event later)) +
        (batchCost cost job.batch + tailCost cost W job.polls)
  | commit job attempt later =>
    cost .commit + max (cost (.inc .messagesProcessedTotal))
      (backoffCost cost attempt + attemptsCost cost job.event later) +
        (batchCost cost job.batch + tailCost cost W job.polls)
  | count job _ _ => cost (.inc .messagesProcessedTotal) + (batchCost cost job.batch + tailCost cost W job.polls)
  | backoff job attempt later =>
    cost (.sleep (retryDelays.getD attempt 0)) + attemptsCost cost job.event later +
      (batchCost cost job.batch + tailCost cost W job.polls)
  | markFailed job => attemptsCost cost job.event [] + (batchCost cost job.batch + tailCost cost W job.polls)
  | commitFailed job =>
    cost .commit + cost (.inc .messagesFailedTotal) + (batchCost cost job.batch + tailCost cost W job.polls)
  | countFailed job => cost (.inc .messagesFailedTotal) + (batchCost cost job.batch + tailCost cost W job.polls)
  | close polls => tailCost cost W polls
  | pause polls => cost (.sleep W.pollInterval) + pollCost cost W * polls
  | stopped _ => 0

end Cost

/-- The polls that a worker has still to begin. -/
def WorkerPoint.pollsLeft : WorkerPoint → ℕ
  | fetch polls => polls + 1
  | publish job _ _ | mark job _ _ | commit job _ _ | count job _ _ | backoff job _ _ => job.polls
  | markFailed job | commitFailed job | countFailed job => job.polls
  | close polls | pause polls => polls
  | stopped _ => 0

/-- The event under way, and how often `publish` is still to be called for it if every
attempt fails. -/
def WorkerPoint.ahead : WorkerPoint → Option (UUID × ℕ)
  | publish job _ later => some (job.event.id, later.length + 1)
  | mark job _ later | commit job _ later | backoff job _ later => some (job.event.id, later.length)
  | markFailed job | commitFailed job => some (job.event.id, 0)
  | count _ _ _ | countFailed _ | fetch _ | close _ | pause _ | stopped _ => none

/-- The operations that a request has still to await, at most. -/
def CallPoint.rank : CallPoint → ℕ
  | validate => 12
  | find => 11
  | orderId => 10
  | now _ => 9
  | eventId _ _ => 8
  | orderClock _ _ => 7
  | insertOrder _ _ => 6
  | eventClock _ _ => 5
  | insertEvent _ _ _ => 4
  | rollback => 3
  | commit _ _ | refind => 2
  | close _ => 1
  | done _ => 0

/-- The operations of a party, at most. -/
def Role.work : Role → ℕ
  | call _ => 12
  | worker W polls => polls * (14 * W.batchSize + 3)

/-- The calls of `publish` for an event. -/
def publishCost (e : UUID) : Op → ℕ
  | .publish event _ => if event.id = e then 1 else 0
  | _ => 0

/-- The seconds slept. -/
def sleepCost : Op → ℕ
  | .sleep seconds => seconds
  | _ => 0

end OrdersApi
