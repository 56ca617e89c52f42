import OrdersApi.Lib.Distinct
import OrdersApi.Lib.Json
import OrdersApi.Spec.Observe

/-!
# Messages and rows, as they are read

What a consumer of the queue reads from a message (`readMessage`), and when the rows of an
order are what a request asked for (`Requested`). Delivery is at least once, so a consumer
has to be idempotent: it acts on the first message of each order (`consume`).
-/

namespace OrdersApi

/-- The fields of an `order_created` message. -/
structure OrderMessage where
  eventType : String
  orderId : String
  externalOrderId : String
  requesterId : String
  correlationId : String
  createdAt : String
deriving DecidableEq

/-- A message body, as a JSON object with the fields. -/
def readMessage (body : String) : Option OrderMessage := do
  let message ← Json.loads body
  return {
    eventType := ← message.text "event_type"
    orderId := ← message.text "order_id"
    externalOrderId := ← message.text "external_order_id"
    requesterId := ← message.text "requester_id"
    correlationId := ← message.text "correlation_id"
    createdAt := ← message.text "created_at" }

/-- The message that announces the order `orderId` of the request `a`. -/
def CallArgs.message (a : CallArgs) (orderId : UUID) (now : DateTime) : OrderMessage where
  eventType := "order_created"
  orderId := orderId.str
  externalOrderId := a.externalOrderId
  requesterId := a.requesterId
  correlationId := a.correlationId
  createdAt := now.isoformat

/-- The row of an order is what the request `a` asks for. -/
def OrderOf (a : CallArgs) (m : OrderModel) : Prop :=
  m = ⟨m.id, a.externalOrderId, a.requesterId, some a.description, "pending", m.createdAt⟩

/-- And so is its event. -/
structure Requested (a : CallArgs) (m : OrderModel) (e : OutboxEventModel) : Prop where
  order : OrderOf a m
  event : e.eventType = "order_created"
  payload : ∃ now, e.payload = (OrderService.newEvent a m.id now e.id).payload

/-! ## Delivery -/

variable {P : Type}

/-- The queue has delivered what was handed to it, each message at least once and in any
order; the database had the entries of the payload in some order. -/
structure Delivers (tr : List (Event P)) (bodies : List String) : Prop where
  handed : ∀ body ∈ bodies, ∃ event sent payload, Handed tr event sent ∧ payload.Perm event.payload ∧
    body = Json.dumps payload
  delivered : ∀ event sent, Handed tr event sent → ∃ payload, payload.Perm event.payload ∧
    Json.dumps payload ∈ bodies

/-- The messages that a consumer acts on, of those delivered: the first one of each order. -/
def consume (bodies : List String) : List OrderMessage :=
  Distinct.kept OrderMessage.orderId (bodies.filterMap readMessage)

end OrdersApi
