import OrdersApi.Spec.Requester

/-!
# The order service (`app/services/order_service.py`)

`createOrder` is the source's flow: validate the requester, look the order up, else
create the order and its outbox event in one transaction, and after an
`IntegrityError` roll back and look it up again. `request` runs it in the session of
one HTTP request (`get_session`).
-/

namespace OrdersApi

/-- A call of `OrderService.create_order`: the client it was built with and its arguments. -/
structure CallArgs where
  client : RequesterClient
  externalOrderId : String
  requesterId : String
  description : String
  correlationId : String
deriving DecidableEq

namespace OrderService

variable (a : CallArgs)

/-- The order entity that `_create_order_with_outbox` builds. -/
def newOrder (orderId : UUID) (now : DateTime) : Order where
  id := orderId
  externalOrderId := a.externalOrderId
  requesterId := a.requesterId
  description := a.description
  status := "pending"
  createdAt := now

/-- The outbox event that `_create_order_with_outbox` builds. -/
def newEvent (orderId : UUID) (now : DateTime) (eventId : UUID) : OutboxEvent where
  id := eventId
  eventType := "order_created"
  payload :=
    [("event_type", "order_created"),
     ("order_id", orderId.str),
     ("external_order_id", a.externalOrderId),
     ("requester_id", a.requesterId),
     ("correlation_id", a.correlationId),
     ("created_at", now.isoformat)]
  status := .pending
  createdAt := now

/-- `_create_order_with_outbox`. -/
def createOrderWithOutbox : Prog (Order × OutboxEvent) := do
  let orderId ← await .uuid4
  let now ← await .now
  let order := newOrder a orderId now
  let eventId ← await .uuid4
  let outboxEvent := newEvent a orderId now eventId
  let createdOrder ← OrderRepository.create order
  let _ ← OutboxRepository.create outboxEvent
  await .commit
  return (createdOrder, outboxEvent)

/-- The `except IntegrityError` branch; any other exception propagates. -/
def onInsertError : Exc → Prog (Order × Bool)
  | .integrityError => do
    await .rollback
    match ← OrderRepository.findByExternalId a.externalOrderId with
    | some existing => return (existing, true)
    | none => throw (.duplicateOrder a.externalOrderId)
  | e => throw e

/-- `OrderService.create_order`. -/
def createOrder : Prog (Order × Bool) := do
  let _ ← a.client.validateRequester a.requesterId
  match ← OrderRepository.findByExternalId a.externalOrderId with
  | some existing => return (existing, true)
  | none =>
    Effect.Prog.tryCatch
      (do
        let (order, _) ← createOrderWithOutbox a
        return (order, false))
      (onInsertError a)

/-- A request's use of the service: `create_order` in a session of its own. -/
def request : Prog (Order × Bool) := withSession (createOrder a)

end OrderService

end OrdersApi
