import OrdersApi.Lib.Prog
import OrdersApi.Spec.Entities

/-!
# Awaited operations and the repositories

Everything the request handler and the worker await is an `Op`. The repositories
(`app/repositories/order_repository.py`, `outbox_repository.py`) are programs over
the operations of the session they are given.
-/

namespace OrdersApi

/-- The counters of `app/observability/metrics.py` that the worker increments. -/
inductive Counter
  | messagesProcessedTotal
  | messagesFailedTotal
deriving DecidableEq, Repr

/-- The counter that is incremented for a terminal status. -/
def OutboxStatus.counter : OutboxStatus → Counter
  | failed => .messagesFailedTotal
  | _ => .messagesProcessedTotal

/-- An `httpx.Response`: its status, and the text with which `raise_for_status` raises. -/
structure Response where
  statusCode : ℕ
  errorText : String
deriving DecidableEq

inductive Op
  /-- `AsyncClient(base_url=baseUrl).get(path)`. -/
  | get (baseUrl path : String)
  | uuid4
  /-- `datetime.now(timezone.utc)`. -/
  | now
  /-- `SELECT … FROM orders WHERE external_order_id = …`. -/
  | selectOrder (externalOrderId : String)
  | insertOrder (model : OrderModel)
  | insertOutboxEvent (model : OutboxEventModel)
  /-- `SELECT … FROM outbox_events WHERE status = 'pending' ORDER BY created_at
  LIMIT … FOR UPDATE SKIP LOCKED`. -/
  | selectPending (batchSize : ℕ)
  /-- `UPDATE outbox_events SET status = … WHERE id = …`. -/
  | updateStatus (eventId : UUID) (status : OutboxStatus)
  | commit
  | rollback
  | close
  /-- Handing `body` to SQS for `event`. -/
  | publish (event : OutboxEvent) (body : String)
  | sleep (seconds : ℕ)
  | inc (counter : Counter)
deriving DecidableEq

@[reducible] def Op.Resp : Op → Type
  | get _ _ => Response
  | uuid4 => UUID
  | now => DateTime
  | selectOrder _ => Option OrderModel
  | selectPending _ => List OutboxEventModel
  | _ => Unit

/-- The effects of the service. -/
abbrev effects : Effect.Sig := ⟨Op, Op.Resp⟩

abbrev Prog := Effect.Prog effects Exc

/-- `await` an operation. -/
abbrev await (o : Op) : Prog (Op.Resp o) := Effect.Prog.await (S := effects) o

/-- `OrderRepository.find_by_external_id`. -/
def OrderRepository.findByExternalId (externalOrderId : String) : Prog (Option Order) := do
  let model ← await (.selectOrder externalOrderId)
  return model.map OrderModel.toEntity

/-- `OrderRepository.create`. -/
def OrderRepository.create (order : Order) : Prog Order := do
  let createdAt ← await .now
  let model : OrderModel :=
    { id := order.id
      externalOrderId := order.externalOrderId
      requesterId := order.requesterId
      description := some order.description
      status := order.status
      createdAt := createdAt }
  await (.insertOrder model)
  return model.toEntity

namespace OutboxRepository

/-- `OutboxRepository.create`. -/
def create (event : OutboxEvent) : Prog OutboxEvent := do
  let createdAt ← await .now
  let model : OutboxEventModel :=
    { id := event.id
      eventType := event.eventType
      payload := event.payload
      status := event.status
      createdAt := createdAt }
  await (.insertOutboxEvent model)
  return model.toEntity

/-- `OutboxRepository.fetch_pending`. -/
def fetchPending (batchSize : ℕ) : Prog (List OutboxEvent) := do
  let models ← await (.selectPending batchSize)
  return models.map OutboxEventModel.toEntity

/-- `OutboxRepository.mark_processed`. -/
def markProcessed (eventId : UUID) : Prog Unit := await (.updateStatus eventId .processed)

/-- `OutboxRepository.mark_failed`. -/
def markFailed (eventId : UUID) : Prog Unit := await (.updateStatus eventId .failed)

end OutboxRepository

/-- `async with session_factory() as session`: the session is closed on both exits. -/
def withSession {α : Type} (body : Prog α) : Prog α := body.ensuring (await .close)

end OrdersApi
