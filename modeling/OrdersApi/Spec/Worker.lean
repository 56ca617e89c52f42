import OrdersApi.Spec.Ops

/-!
# The outbox worker (`app/messaging/outbox_worker.py`, `sqs_publisher.py`)

`start n` polls `n` times: the source loops until `stop()`, and a finite run sees
finitely many polls. An exception that leaves a batch is logged and the loop goes on.
-/

namespace OrdersApi

/-- `RETRY_DELAYS`. -/
def retryDelays : List ℕ := [1, 5, 30]

/-- `MAX_RETRIES`. -/
def maxRetries : ℕ := retryDelays.length

/-- The settings a worker reads: `outbox_batch_size` and `outbox_poll_interval_seconds`. -/
structure OutboxWorker where
  batchSize : ℕ
  pollInterval : ℕ
deriving DecidableEq

/-- `SQSPublisher.publish`: the message body is the payload as JSON. -/
def SQSPublisher.publish (event : OutboxEvent) : Prog Unit :=
  await (.publish event (Json.dumps event.payload))

namespace OutboxWorker

variable (W : OutboxWorker) (event : OutboxEvent)

/-- The body of the `try` in one attempt. -/
def attemptOnce : Prog Bool := do
  SQSPublisher.publish event
  OutboxRepository.markProcessed event.id
  await .commit
  await (.inc .messagesProcessedTotal)
  return true

/-- The `except` clause of an attempt: the delay, except after the last one. -/
def onAttemptError (attempt : ℕ) : Exc → Prog Bool := fun _ =>
  if attempt < maxRetries - 1 then do
    await (.sleep (retryDelays.getD attempt 0))
    return false
  else return false

/-- The retry loop over the given attempts: whether one of them went through. -/
def tryAttempts : List ℕ → Prog Bool
  | [] => return false
  | attempt :: later => do
    if ← (attemptOnce event).tryCatch (onAttemptError attempt) then return true
    else tryAttempts later

/-- What follows the retry loop when no attempt went through. -/
def giveUp : Prog Unit := do
  Effect.Prog.tryCatch
    (do
      OutboxRepository.markFailed event.id
      await .commit)
    fun _ => return ()
  await (.inc .messagesFailedTotal)

/-- `_process_event`. -/
def processEvent : Prog Unit := do
  if ← tryAttempts event (List.range maxRetries) then return ()
  else giveUp event

/-- The events of a batch, one after the other. -/
def processEvents : List OutboxEvent → Prog Unit
  | [] => return ()
  | event :: batch => do
    processEvent event
    processEvents batch

/-- `_process_batch`. -/
def processBatch : Prog Unit := withSession do
  let events ← OutboxRepository.fetchPending W.batchSize
  processEvents events

/-- `start`, for `polls` iterations of its loop. -/
def start : ℕ → Prog Unit
  | 0 => return ()
  | polls + 1 => do
    W.processBatch.tryCatch fun _ => return ()
    await (.sleep W.pollInterval)
    start polls

end OutboxWorker

end OrdersApi
