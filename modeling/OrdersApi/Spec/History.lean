import OrdersApi.Lib.Ledger
import OrdersApi.Spec.Observe

/-!
# The service as a ledger

The purpose of the service, over `Ledger`: the order of an `external_order_id` is accepted
once, and its message is announced. `shows` says which act of the ledger a step of the
system is, if any, and `Tables.entries` reads the ledger's entries off the committed
tables, which hold each order with its event.
-/

namespace OrdersApi

variable {P : Type}

/-- The outcome of an announcement: none as long as the event is pending. -/
def OutboxStatus.outcome : OutboxStatus → Option Ledger.Outcome
  | pending => none
  | processed => some .announced
  | failed => some .abandoned

/-- The key of the order that a payload announces. -/
def Payload.key (payload : Payload) : String := (payload.get "external_order_id").getD ""

/-- The key that a request asks for. -/
def Role.key : Role → String
  | call a => a.externalOrderId
  | worker _ _ => ""

/-- The event for which a step hands a message to SQS. -/
def Event.hands : Event P → Option UUID
  | .exec _ (.publish event _) r => if r = .error (.publishError false) then none else some event.id
  | _ => none

/-- How many messages were handed to SQS for an event. -/
def handings (e : UUID) (tr : List (Event P)) : ℕ := (tr.filterMap Event.hands).count e

/-- The orders with their events. -/
def Tables.pairs (t : Tables) : List (OrderModel × OutboxEventModel) := t.orders.zip t.outboxEvents

def entryOf (tr : List (Event P)) (x : OrderModel × OutboxEventModel) : Ledger.Entry Order String where
  value := x.1.toEntity
  message := Json.dumps x.2.payload
  sent := handings x.2.id tr
  outcome := x.2.status.outcome

def Tables.entries (tr : List (Event P)) (t : Tables) (key : String) :
    Option (Ledger.Entry Order String) :=
  (t.pairs.find? fun x => x.1.externalOrderId = key).map (entryOf tr)

/-- The answer to the caller of `create_order`. -/
def answerOf : Except Exc (Order × Bool) → Ledger.Answer Order
  | .ok (order, false) => .created order
  | .ok (order, true) => .existing order
  | .error _ => .failed

/-- The act of the ledger that a step is: a request is invoked with its first operation and
answered when its session is closed, takes effect at its commit or at a lookup that finds
the order; a commit that leaves the tables as they are is none. -/
def shows (w : World P) (l : Event P) (w' : World P) : Option (Ledger.Act P String Order String) :=
  match l with
  | .exec p (.get _ _) _ => some (.invoke p)
  | .exec p (.selectOrder _) (.ok (some model)) => some (.find p model.toEntity)
  | .exec _ (.publish event body) r =>
    if r = .error (.publishError false) then none else some (.send event.payload.key body)
  | .exec p .commit _ =>
    if w'.db.committed = w.db.committed then none
    else match w.procs p with
      | .call _ (.commit created event) => some (.accept p created (Json.dumps event.payload))
      | .worker _ (.commit job _ _) => some (.settle job.event.payload.key .announced)
      | .worker _ (.commitFailed job) => some (.settle job.event.payload.key .abandoned)
      | _ => none
  | .exec p .close _ =>
    match w.procs p with
    | .call _ (.close result) => some (.answer p (answerOf result))
    | _ => none
  | _ => none

end OrdersApi
