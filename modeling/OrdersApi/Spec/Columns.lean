import OrdersApi.Spec.Api
import OrdersApi.Spec.Database

/-!
# The columns (`alembic/versions/001_initial.py`)

The types of the columns in the migrated schema, and the values that a statement sends.
PostgreSQL refuses a statement with a value that its type does not have: a `varchar(n)`
has at most `n` characters, and no text, also in JSONB, has the character U+0000.
`Typed` is the database when nothing else fails.
-/

namespace OrdersApi

open TxStore

inductive ColumnType
  | uuid
  | varchar (length : ℕ)
  | text
  | timestamptz
  | jsonb
deriving DecidableEq, Repr

structure Column where
  name : String
  type : ColumnType
  nullable : Bool := false
deriving DecidableEq, Repr

/-- `orders`. -/
def ordersColumns : List Column :=
  [{ name := "id", type := .uuid },
   { name := "external_order_id", type := .varchar 255 },
   { name := "requester_id", type := .varchar 255 },
   { name := "description", type := .text, nullable := true },
   { name := "status", type := .varchar 50 },
   { name := "created_at", type := .timestamptz }]

/-- `outbox_events`. -/
def outboxEventsColumns : List Column :=
  [{ name := "id", type := .uuid },
   { name := "event_type", type := .varchar 100 },
   { name := "payload", type := .jsonb },
   { name := "status", type := .varchar 50 },
   { name := "created_at", type := .timestamptz }]

/-- A value that is sent for a column. -/
inductive SqlValue
  | null
  | uuid (value : UUID)
  | text (value : String)
  | timestamp (value : DateTime)
  | json (value : Payload)

/-- The strings of PostgreSQL. -/
def storable (s : String) : Bool := !s.toList.contains (Char.ofNat 0)

def ColumnType.accepts : ColumnType → SqlValue → Bool
  | uuid, .uuid _ => true
  | varchar length, .text s => storable s && s.length ≤ length
  | text, .text s => storable s
  | timestamptz, .timestamp _ => true
  | jsonb, .json payload => payload.all fun entry => storable entry.1 && storable entry.2
  | _, _ => false

def Column.accepts (column : Column) : SqlValue → Bool
  | .null => column.nullable
  | value => column.type.accepts value

/-- A row of values for the columns of a table. -/
def acceptsRow (columns : List Column) (values : List SqlValue) : Bool :=
  values.length = columns.length && (columns.zip values).all fun entry => entry.1.accepts entry.2

def OutboxStatus.value : OutboxStatus → String
  | pending => "pending"
  | processed => "processed"
  | failed => "failed"

/-- The values of an insert into `orders`. -/
def OrderModel.values (model : OrderModel) : List SqlValue :=
  [.uuid model.id, .text model.externalOrderId, .text model.requesterId,
   model.description.elim .null .text, .text model.status, .timestamp model.createdAt]

/-- The values of an insert into `outbox_events`. -/
def OutboxEventModel.values (model : OutboxEventModel) : List SqlValue :=
  [.uuid model.id, .text model.eventType, .json model.payload, .text model.status.value,
   .timestamp model.createdAt]

/-- PostgreSQL has the values of the operation. -/
def Op.accepted : Op → Bool
  | selectOrder externalOrderId => storable externalOrderId
  | insertOrder model => acceptsRow ordersColumns model.values
  | insertOutboxEvent model => acceptsRow outboxEventsColumns model.values
  | updateStatus _ status => (ColumnType.varchar 50).accepts (.text status.value)
  | _ => true

variable {P : Type}

/-- A UUID that no row has, committed or not. -/
def Unused (db : Db P) (u : UUID) : Prop :=
  ∀ k, k = .orderId u ∨ k = .eventId u → k ∉ db.committed.keys ∧ ∀ q, k ∉ (db.session q).locks

/-- The requester service answers `response`, UUIDs are new, and a database error is a
refused value. -/
def Behaves (response : Response) (db : Db P) : (o : Op) → Except Exc (Op.Resp o) → Prop
  | .get _ path, r => r = httpGet path (.ok response)
  | .uuid4, r => ∃ u, r = .ok u ∧ Unused db u
  | o, r => r = .error .databaseError ↔ o.accepted = false

/-- An operation of `p` when nothing fails but a refused value. -/
structure Typed [DecidableEq P] (response : Response) (p : P) (db : Db P) (o : Op)
    (r : Except Exc (Op.Resp o))
    (db' : Db P) : Prop where
  exec : Exec db p o r db'
  behaves : Behaves response db o r

/-- The call returns a new order, and the tables `t'` are `t` with the order and its event. -/
def Creates (a : CallArgs) (t : Tables) (result : Except Exc (Order × Bool)) (t' : Tables) : Prop :=
  ∃ (order : OrderModel) (event : OutboxEventModel) (now : DateTime),
    result = .ok (order.toEntity, false) ∧
    t' = ⟨t.orders ++ [order], t.outboxEvents ++ [event]⟩ ∧
    order = ⟨order.id, a.externalOrderId, a.requesterId, some a.description, "pending", order.createdAt⟩ ∧
    event = ⟨event.id, "order_created", (OrderService.newEvent a order.id now event.id).payload, .pending,
      event.createdAt⟩

/-- The call that the route makes for a validated request. -/
def validatedArgs (client : RequesterClient) (request : CreateOrderRequest)
    (correlationId : String) : CallArgs where
  client := client
  externalOrderId := request.externalOrderId
  requesterId := request.requesterId
  description := request.description
  correlationId := correlationId

/-- A session that has only read, on tables where the key and some UUIDs are new. -/
structure Clear (a : CallArgs) (p : P) (db : Db P) : Prop where
  usable : (db.session p).Usable
  writes : (db.session p).writes = []
  key : ∀ m ∈ db.committed.orders, m.externalOrderId ≠ a.externalOrderId
  free : db.Free p (.externalOrderId a.externalOrderId)
  fresh : ∃ u, Unused db u

/-- What a call with a validated request leads to. -/
def Settles (a : CallArgs) (t : Tables) (result : Except Exc (Order × Bool)) (t' : Tables) : Prop :=
  if storable a.externalOrderId && storable a.description && storable a.correlationId then Creates a t result t'
  else result = .error .databaseError ∧ t' = t

end OrdersApi
