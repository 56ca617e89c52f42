import OrdersApi.Lib.OrderLimit
import OrdersApi.Lib.TxStore
import OrdersApi.Spec.Ops

/-!
# The database, the requester service and the queue

`Exec db p o r db'`: awaiting `o` in the session of party `p` may give `r` and leave
the database `db'`. The tables are those of `app/repositories/models.py`, with their
primary keys and the unique `external_order_id`. Transactions are PostgreSQL's READ
COMMITTED as SQLAlchemy's session shows it:

* an insert locks its unique keys; it cannot go on while another transaction holds
  one of them, and raises `IntegrityError` when a visible row already uses one;
* an update and `SELECT … FOR UPDATE` lock their rows until the transaction ends; the
  update waits for a locked row, the select skips it;
* a statement or a commit may fail at any time. A failure in an open transaction
  aborts it, and then every statement and commit fails until a rollback; without an
  open transaction a failure to get a connection leaves the session as it was. A
  commit that fails may have been applied.
-/

namespace OrdersApi

open TxStore

structure Tables where
  orders : List OrderModel := []
  outboxEvents : List OutboxEventModel := []
deriving DecidableEq

inductive Write
  | insertOrder (model : OrderModel)
  | insertOutboxEvent (model : OutboxEventModel)
  | setStatus (eventId : UUID) (status : OutboxStatus)
deriving DecidableEq

/-- What a transaction can lock: a value of a unique key, or a row of `outbox_events`. -/
inductive Lock
  | orderId (id : UUID)
  | externalOrderId (key : String)
  | eventId (id : UUID)
  | eventRow (id : UUID)
deriving DecidableEq

/-- The unique keys of a row of `orders`: its primary key and `external_order_id`. -/
def OrderModel.keys (model : OrderModel) : List Lock :=
  [.orderId model.id, .externalOrderId model.externalOrderId]

def OutboxEventModel.keys (model : OutboxEventModel) : List Lock := [.eventId model.id]

/-- `UPDATE outbox_events SET status = status WHERE id = eventId`, on one row. -/
def OutboxEventModel.setStatus (eventId : UUID) (status : OutboxStatus) (model : OutboxEventModel) :
    OutboxEventModel :=
  if model.id = eventId then { model with status := status } else model

namespace Tables

def apply (t : Tables) : Write → Tables
  | .insertOrder model => { t with orders := t.orders ++ [model] }
  | .insertOutboxEvent model => { t with outboxEvents := t.outboxEvents ++ [model] }
  | .setStatus eventId status =>
    { t with outboxEvents := t.outboxEvents.map (OutboxEventModel.setStatus eventId status) }

def keys (t : Tables) : List Lock :=
  t.orders.flatMap OrderModel.keys ++ t.outboxEvents.flatMap OutboxEventModel.keys

/-- `scalar_one_or_none` of the select by `external_order_id`. -/
def findOrder (t : Tables) (externalOrderId : String) : Option OrderModel :=
  t.orders.find? fun model => model.externalOrderId = externalOrderId

/-- The committed status of an event. -/
def statusOf (t : Tables) (eventId : UUID) : Option OutboxStatus :=
  (t.outboxEvents.find? fun model => model.id = eventId).map OutboxEventModel.status

end Tables

def Write.newKeys : Write → List Lock
  | insertOrder model => model.keys
  | insertOutboxEvent model => model.keys
  | setStatus _ _ => []

@[simp] theorem OutboxEventModel.setStatus_id (eventId : UUID) (status : OutboxStatus)
    (model : OutboxEventModel) : (model.setStatus eventId status).id = model.id := by
  unfold OutboxEventModel.setStatus; split <;> rfl

/-- The tables as a store of unique keys. -/
def schema : Schema Tables Write Lock where
  app := Tables.apply
  keys := Tables.keys
  newKeys := Write.newKeys
  keys_app t w := by
    cases w with
    | insertOrder model =>
      simp only [Tables.keys, Tables.apply, Write.newKeys, List.flatMap_append, List.flatMap_cons,
        List.flatMap_nil, List.append_nil, List.append_assoc]
      exact List.perm_append_comm.append_left _
    | insertOutboxEvent model =>
      simp [Tables.keys, Tables.apply, Write.newKeys]
    | setStatus eventId status =>
      simp only [Tables.keys, Tables.apply, Write.newKeys, List.flatMap_map, OutboxEventModel.keys,
        OutboxEventModel.setStatus_id, List.append_nil]
      exact .refl _

/-- Tables that meet the unique constraints of the schema. -/
def ValidTables : Type := { t : Tables // t.keys.Nodup }

/-- The migrated, empty database. -/
def ValidTables.empty : ValidTables := ⟨{}, List.nodup_nil⟩

abbrev Db (P : Type) := Store P Tables Write Lock

variable {P : Type}

/-- The rows that `fetch_pending` may select in session `p`: pending, and not locked by
another transaction. -/
def Eligible (db : Db P) (p : P) (model : OutboxEventModel) : Prop :=
  model.status = .pending ∧ db.Free p (.eventRow model.id)

/-- The result of `ORDER BY created_at LIMIT batchSize` over the eligible rows of a
table: any order among equal `created_at`. -/
abbrev Fetched (table : List OutboxEventModel) (elig : OutboxEventModel → Prop) (batchSize : ℕ)
    (rows : List OutboxEventModel) : Prop :=
  OrderLimit.Selected table elig (fun row => row.createdAt.key) batchSize rows

/-- `httpx` raises `InvalidURL` for a URL with a non-printable ASCII character. -/
def printableUrl (url : String) : Bool := url.toList.all fun c => 0x20 ≤ c.toNat && c.toNat ≠ 0x7f

/-- `client.get`: the URL is built first, then the network decides. -/
def httpGet (path : String) (outcome : Except HttpxError Response) : Except Exc Response :=
  if printableUrl path then outcome.mapError .httpx
  else .error (.httpx ⟨.invalidURL, "Invalid non-printable ASCII character in URL"⟩)

/-- The operations that are SQL statements. -/
def Op.isStatement : Op → Bool
  | selectOrder _ | insertOrder _ | insertOutboxEvent _ | selectPending _ | updateStatus _ _ => true
  | _ => false

variable [DecidableEq P]

/-- What a failed statement leaves behind. -/
inductive Failed (db : Db P) (p : P) : Db P → Prop
  | aborted : Failed db p (db.abort p)
  | noConnection (h : ∀ tx, db.session p ≠ .active tx) : Failed db p db

inductive Exec (db : Db P) (p : P) : (o : Op) → Except Exc (Op.Resp o) → Db P → Prop
  | get (baseUrl path : String) (outcome : Except HttpxError Response) :
      Exec db p (.get baseUrl path) (httpGet path outcome) db
  | uuid4 (u : UUID) : Exec db p .uuid4 (.ok u) db
  | now (t : DateTime) : Exec db p .now (.ok t) db
  | failed {o : Op} {db' : Db P} (statement : o.isStatement) (failed : Failed db p db') :
      Exec db p o (.error .databaseError) db'
  | selectOrder (key : String) (usable : (db.session p).Usable) :
      Exec db p (.selectOrder key) (.ok ((db.view schema p).findOrder key)) (db.extend p [] [])
  | insertOrder (model : OrderModel) (usable : (db.session p).Usable)
      (free : ∀ k ∈ model.keys, db.Free p k) (new : ∀ k ∈ model.keys, k ∉ (db.view schema p).keys) :
      Exec db p (.insertOrder model) (.ok ()) (db.extend p [.insertOrder model] model.keys)
  | insertOrderConflict (model : OrderModel) (usable : (db.session p).Usable) (k : Lock)
      (key : k ∈ model.keys) (used : k ∈ (db.view schema p).keys) :
      Exec db p (.insertOrder model) (.error .integrityError) (db.abort p)
  | insertOutboxEvent (model : OutboxEventModel) (usable : (db.session p).Usable)
      (free : ∀ k ∈ model.keys, db.Free p k) (new : ∀ k ∈ model.keys, k ∉ (db.view schema p).keys) :
      Exec db p (.insertOutboxEvent model) (.ok ()) (db.extend p [.insertOutboxEvent model] model.keys)
  | insertOutboxEventConflict (model : OutboxEventModel) (usable : (db.session p).Usable) (k : Lock)
      (key : k ∈ model.keys) (used : k ∈ (db.view schema p).keys) :
      Exec db p (.insertOutboxEvent model) (.error .integrityError) (db.abort p)
  | selectPending (batchSize : ℕ) (rows : List OutboxEventModel) (usable : (db.session p).Usable)
      (fetched : Fetched (db.view schema p).outboxEvents (Eligible db p) batchSize rows) :
      Exec db p (.selectPending batchSize) (.ok rows) (db.extend p [] (rows.map fun row => .eventRow row.id))
  | updateStatus (eventId : UUID) (status : OutboxStatus) (usable : (db.session p).Usable)
      (visible : ∃ row ∈ (db.view schema p).outboxEvents, row.id = eventId)
      (free : db.Free p (.eventRow eventId)) :
      Exec db p (.updateStatus eventId status) (.ok ())
        (db.extend p [.setStatus eventId status] [.eventRow eventId])
  | updateNoRow (eventId : UUID) (status : OutboxStatus) (usable : (db.session p).Usable)
      (invisible : ∀ row ∈ (db.view schema p).outboxEvents, row.id ≠ eventId) :
      Exec db p (.updateStatus eventId status) (.ok ()) (db.extend p [] [])
  | commit (usable : (db.session p).Usable) : Exec db p .commit (.ok ()) (db.commit schema p)
  | commitFailed (opened : db.session p ≠ .idle) :
      Exec db p .commit (.error .databaseError) (db.abort p)
  | commitLost (usable : (db.session p).Usable) (opened : db.session p ≠ .idle) :
      Exec db p .commit (.error .databaseError) (db.commitLost schema p)
  | rollback : Exec db p .rollback (.ok ()) (db.rollback p)
  | rollbackFailed (opened : db.session p ≠ .idle) :
      Exec db p .rollback (.error .databaseError) (db.abort p)
  | close : Exec db p .close (.ok ()) (db.rollback p)
  | published (event : OutboxEvent) (body : String) : Exec db p (.publish event body) (.ok ()) db
  | publishFailed (event : OutboxEvent) (body : String) (handed : Bool) :
      Exec db p (.publish event body) (.error (.publishError handed)) db
  | sleep (seconds : ℕ) : Exec db p (.sleep seconds) (.ok ()) db
  | inc (counter : Counter) : Exec db p (.inc counter) (.ok ()) db

end OrdersApi
