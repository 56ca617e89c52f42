import OrdersApi.Spec.Api
import OrdersApi.Spec.System

/-!
# What a run shows

The observations that statements about runs use: the results of `create_order`, the
operations of one party, the UUIDs drawn and the clock readings, the calls of `publish`
with their outcomes, the messages handed to SQS, and which transaction waits for which.
-/

namespace OrdersApi

variable {P : Type}

/-- The result of `create_order` at a point where it has returned or raised. -/
def CallPoint.result : CallPoint → Option (Except Exc (Order × Bool))
  | close r | done r => some r
  | _ => none

/-- Request `p`, with arguments `a`, has the result `r` of `create_order`. -/
def World.Result (w : World P) (p : P) (a : CallArgs) (r : Except Exc (Order × Bool)) : Prop :=
  ∃ pt, w.procs p = .call a pt ∧ pt.result = some r

/-! ## Responses -/

/-- A success shows the committed order, and without a committed order the response is an error. -/
structure Durable (t : Tables) (externalOrderId : String) (response : HttpResponse) : Prop where
  success : response.IsSuccess → ∃ m ∈ t.orders, m.externalOrderId = externalOrderId ∧
    response.body = .order m.toEntity.response
  absent : (∀ m ∈ t.orders, m.externalOrderId ≠ externalOrderId) → 400 ≤ response.statusCode

/-- The responses to all requests that have their result are durable. -/
def World.Answered (w : World P) : Prop :=
  ∀ p a result context, w.Result p a result →
    Durable w.db.committed a.externalOrderId (respond context result)

/-- When the lookup after an `IntegrityError` is answered, an order with the key is committed. -/
def RefindOk (w : World P) (l : Event P) : Prop :=
  ∀ p a found, w.procs p = .call a .refind → l = .exec p (.selectOrder a.externalOrderId) (.ok found) →
    ∃ m ∈ w.db.committed.orders, m.externalOrderId = a.externalOrderId

/-! ## The requester check -/

/-- The request for `requesterId`, if it is sent, is addressed to that requester. -/
def Addressed (S : Uri.SafeSet) (requesterId : String) : Prop :=
  printableUrl (RequesterClient.path requesterId) = true →
    Uri.Addresses (RequesterClient.target S requesterId) "requesters".toList requesterId.toList

/-- The request for `requesterId` is not sent, or the id is a path segment as it stands. -/
def PlainId (requesterId : String) : Prop :=
  printableUrl (RequesterClient.path requesterId) = true → Uri.Plain requesterId.toList

/-- The outgoing call was answered with a 2xx status. -/
def IsValid (got : Except Exc Response) : Prop :=
  ∃ response, got = .ok response ∧ 200 ≤ response.statusCode ∧ response.statusCode < 300

/-- The outgoing call was answered with 404. -/
def IsNotFound (got : Except Exc Response) : Prop :=
  ∃ response, got = .ok response ∧ response.statusCode = 404

/-- `validate_requester` returns `True`, raises `RequesterNotFoundException` or raises
`RequesterServiceUnavailableException`, by what the outgoing call got. -/
structure Classified (client : RequesterClient) (requesterId : String)
    (got : Except Exc Response) : Prop where
  valid : client.classify requesterId got = .ok true ↔ IsValid got
  notFound : client.classify requesterId got = .error (.requesterNotFound requesterId) ↔ IsNotFound got
  unavailable : ¬ IsValid got → ¬ IsNotFound got →
    ∃ reason, client.classify requesterId got = .error (.requesterServiceUnavailable requesterId reason)

section Post

variable [DecidableEq P] (client : RequesterClient) (context : Option String)
  (request : CreateOrderRequest)
  (outcome : Except HttpxError Response)

/-- `POST /orders`, run by `p` on `db` with the given outcome of the outgoing call, is
answered with `response` and leaves `db'`. -/
def PostAnswers (p : P) (db : Db P) (response : HttpResponse) (db' : Db P) : Prop :=
  ∃ k, postOrders client context (.ok request) =
      .op (.get client.baseUrl (RequesterClient.path request.requesterId)) k ∧
    Effect.Prog.Executes (S := effects) (fun db o r db' => Exec db p o r db')
      (k (httpGet (RequesterClient.path request.requesterId) outcome)) db (.ok response) db'

/-- The requester check is classified, and without a valid requester the request is
answered, with 422 or 503, and the tables stay as they are. -/
structure FailsClosed (p : P) : Prop where
  classified : Classified client request.requesterId
    (httpGet (RequesterClient.path request.requesterId) outcome)
  answered : ∀ db, ¬ IsValid (httpGet (RequesterClient.path request.requesterId) outcome) →
    ∃ response db', PostAnswers client context request outcome p db response db'
  notFound : ∀ db response db', PostAnswers client context request outcome p db response db' →
    IsNotFound (httpGet (RequesterClient.path request.requesterId) outcome) → response.statusCode = 422
  unavailable : ∀ db response db', PostAnswers client context request outcome p db response db' →
    ¬ IsValid (httpGet (RequesterClient.path request.requesterId) outcome) →
    ¬ IsNotFound (httpGet (RequesterClient.path request.requesterId) outcome) →
    response.statusCode = 503
  unchanged : ∀ db response db', PostAnswers client context request outcome p db response db' →
    ¬ IsValid (httpGet (RequesterClient.path request.requesterId) outcome) →
    db'.committed = db.committed

end Post

/-! ## Orders and their events -/

/-- `e` is the event that announces the order `m`. -/
def EventOf (m : OrderModel) (e : OutboxEventModel) : Prop :=
  e.eventType = "order_created" ∧ e.payload.get "order_id" = some m.id.str ∧
    e.payload.get "external_order_id" = some m.externalOrderId

instance (m : OrderModel) (e : OutboxEventModel) : Decidable (EventOf m e) :=
  inferInstanceAs (Decidable (_ ∧ _ ∧ _))

/-- Every field that the payload of `e` shares with `order` has the same value in both. -/
structure Describes (e : OutboxEventModel) (order : Order) : Prop where
  orderId : e.payload.get "order_id" = some order.id.str
  externalOrderId : e.payload.get "external_order_id" = some order.externalOrderId
  requesterId : e.payload.get "requester_id" = some order.requesterId
  createdAt : e.payload.get "created_at" = some order.createdAt.isoformat

/-! ## The operations of a party -/

/-- The operations of party `p` in a trace, with their responses (latest first). -/
def callsOf [DecidableEq P] (p : P) : List (Event P) → List (effects.Call Exc)
  | [] => []
  | .exec q o r :: tr => if q = p then ⟨o, r⟩ :: callsOf p tr else callsOf p tr
  | _ :: tr => callsOf p tr

/-! ## Draws and clock readings -/

/-- The UUID that a step draws. -/
def Event.draw : Event P → Option UUID
  | .exec _ .uuid4 (.ok u) => some u
  | _ => none

/-- The UUIDs drawn in a trace. -/
def draws (tr : List (Event P)) : List UUID := tr.filterMap Event.draw

/-- Party `p` has drawn `u`. -/
def Drawn (tr : List (Event P)) (p : P) (u : UUID) : Prop := .exec p .uuid4 (.ok u) ∈ tr

/-- The primary keys in use. -/
def Tables.ids (t : Tables) : List UUID :=
  t.orders.map OrderModel.id ++ t.outboxEvents.map OutboxEventModel.id

/-- `uuid.uuid4` values are fresh: all different, and none in use before the run. -/
def FreshUuids (t : ValidTables) (tr : List (Event P)) : Prop :=
  (draws tr).Nodup ∧ ∀ u ∈ draws tr, u ∉ t.1.ids

/-- The reading of `datetime.now` in a step. -/
def Event.reading : Event P → Option DateTime
  | .exec _ .now (.ok t) => some t
  | _ => none

/-- The clock never goes back. -/
def ClockMonotone (tr : List (Event P)) : Prop :=
  (tr.filterMap Event.reading).Pairwise fun later earlier => earlier ≤ later

/-- Every reading in `OrderRepository.create` is related by `R` to the reading that
the service took for the same order. -/
def ClockOk (R : DateTime → DateTime → Prop) (w : World P) (l : Event P) : Prop :=
  ∀ p a order event t, w.procs p = .call a (.orderClock order event) → l = .exec p .now (.ok t) →
    R order.createdAt t

/-! ## Publishing -/

/-- The event for which a step calls `publish`. -/
def Event.publishes : Event P → Option UUID
  | .exec _ (.publish event _) _ => some event.id
  | _ => none

/-- How often `publish` is called for an event. -/
def publishCalls (e : UUID) (tr : List (Event P)) : ℕ := (tr.filterMap Event.publishes).count e

/-- `publish` has returned normally for the event `e`. -/
def PublishedOk (tr : List (Event P)) (e : UUID) : Prop :=
  ∃ p event body, event.id = e ∧ .exec p (.publish event body) (.ok ()) ∈ tr

/-- A call of `publish` for `event` has handed `body` to SQS, whether or not it returned. -/
def Handed (tr : List (Event P)) (event : OutboxEvent) (body : String) : Prop :=
  ∃ p r, .exec p (.publish event body) r ∈ tr ∧ r ≠ .error (.publishError false)

/-- `body` is the message of the committed order `m`: the JSON of the payload of the
committed event that announces `m`. -/
structure MessageFor (t : Tables) (m : OrderModel) (event : OutboxEvent) (body : String) : Prop where
  order : m ∈ t.orders
  row : ∃ e ∈ t.outboxEvents, e.id = event.id ∧ e.payload = event.payload ∧ EventOf m e
  body : body = Json.dumps event.payload

/-! ## Waiting -/

/-- The locks of other transactions for which a statement waits: an insert for its
unique keys, an update for its row. `SELECT … FOR UPDATE SKIP LOCKED` waits for none. -/
def Op.needs : Op → List Lock
  | insertOrder model => model.keys
  | insertOutboxEvent model => model.keys
  | updateStatus eventId _ => [.eventRow eventId]
  | _ => []

/-- Party `p` is at a point where it awaits `o`. -/
def World.Awaits (w : World P) (p : P) (o : Op) : Prop :=
  match w.procs p with
  | .call a pt => ∃ k, pt.node a = .op o k
  | .worker W pt => ∃ k, pt.node W = .op o k

/-- The transaction of `p` is waiting for that of `q`. -/
def World.WaitsFor (w : World P) (p q : P) : Prop := ∃ o, w.Awaits p o ∧ w.db.Waits p q o.needs

/-- Party `p` has returned or raised. -/
def World.Finished (w : World P) (p : P) : Prop :=
  match w.procs p with
  | .call _ (.done _) | .worker _ (.stopped _) => True
  | _ => False

/-- The server has ended the transactions of the dead processes. -/
def World.Reaped (w : World P) : Prop := ∀ p, ¬ w.alive p → ∀ tx, w.db.session p ≠ .active tx

/-! ## Faults, and events in the memory of a worker -/

/-- A step in which a `publish`, a statement or a commit fails, a process dies, or an
open transaction is ended from outside. An `IntegrityError` is not a fault. -/
def Event.Fault : Event P → Prop
  | .exec _ (.publish _ _) (.error _) => True
  | .exec _ o (.error e) => e = .databaseError ∧ (o.isStatement ∨ o = .commit)
  | .exec _ _ (.ok _) => False
  | .die _ | .abort _ => True

/-- `p` is a live worker at `pt` whose transaction is not aborted. -/
def World.Works (w : World P) (p : P) (pt : WorkerPoint) : Prop :=
  w.alive p ∧ (∃ W, w.procs p = .worker W pt) ∧ (w.db.session p).Usable

/-- A fetch of `batchSize` rows in session `p` may return `row`. -/
def InReach (db : Db P) (p : P) (batchSize : ℕ) (row : OutboxEventModel) : Prop :=
  row ∈ db.committed.outboxEvents ∧ Eligible db p row ∧
    {x | x ∈ db.committed.outboxEvents ∧ Eligible db p x ∧ x.createdAt < row.createdAt}.ncard < batchSize

/-- When a worker fetches, no event that another worker has still to finish is in reach. -/
def FetchOk (w : World P) (l : Event P) : Prop :=
  ∀ p batchSize r, l = .exec p (.selectPending batchSize) r → ∀ q pt, q ≠ p → w.Works q pt →
    ∀ event ∈ pt.held, ∀ row, InReach w.db p batchSize row → row.id ≠ event.id

end OrdersApi
