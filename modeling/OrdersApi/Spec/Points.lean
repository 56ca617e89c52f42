import OrdersApi.Spec.Service
import OrdersApi.Spec.Worker

/-!
# Control points

The points at which a request (`CallPoint`) and a worker (`WorkerPoint`) await an
operation, each with the local variables that the rest of the program reads, and
`node`: the operation awaited there and the point that follows each response.
`OrdersApi/Proof/Points.lean` proves that these machines are the program texts.
-/

namespace OrdersApi

open Effect (Node)

/-- The points of a request. -/
inductive CallPoint
  | validate
  | find
  | orderId
  | now (orderId : UUID)
  | eventId (orderId : UUID) (now : DateTime)
  | orderClock (order : Order) (event : OutboxEvent)
  | insertOrder (model : OrderModel) (event : OutboxEvent)
  | eventClock (created : Order) (event : OutboxEvent)
  | insertEvent (created : Order) (event : OutboxEvent) (model : OutboxEventModel)
  | commit (created : Order) (event : OutboxEvent)
  | rollback
  | refind
  | close (result : Except Exc (Order × Bool))
  | done (result : Except Exc (Order × Bool))

namespace CallPoint

/-- Where an exception raised in `_create_order_with_outbox` leads. -/
def insertError : Exc → CallPoint
  | .integrityError => rollback
  | e => close (.error e)

def node (a : CallArgs) : CallPoint → Node effects Exc (Order × Bool) CallPoint
  | validate => .op (.get a.client.baseUrl (RequesterClient.path a.requesterId)) fun got =>
      match a.client.classify a.requesterId got with
      | .ok _ => find
      | .error e => close (.error e)
  | find => .op (.selectOrder a.externalOrderId) fun
      | .ok (some model) => close (.ok (model.toEntity, true))
      | .ok none => orderId
      | .error e => close (.error e)
  | orderId => .op .uuid4 fun
      | .ok u => now u
      | .error e => insertError e
  | now u => .op .now fun
      | .ok t => eventId u t
      | .error e => insertError e
  | eventId u t => .op .uuid4 fun
      | .ok v => orderClock (OrderService.newOrder a u t) (OrderService.newEvent a u t v)
      | .error e => insertError e
  | orderClock order event => .op .now fun
      | .ok t => insertOrder
          { id := order.id
            externalOrderId := order.externalOrderId
            requesterId := order.requesterId
            description := some order.description
            status := order.status
            createdAt := t } event
      | .error e => insertError e
  | insertOrder model event => .op (.insertOrder model) fun
      | .ok _ => eventClock model.toEntity event
      | .error e => insertError e
  | eventClock created event => .op .now fun
      | .ok t => insertEvent created event
          { id := event.id
            eventType := event.eventType
            payload := event.payload
            status := event.status
            createdAt := t }
      | .error e => insertError e
  | insertEvent created event model => .op (.insertOutboxEvent model) fun
      | .ok _ => commit created event
      | .error e => insertError e
  | commit created _ => .op .commit fun
      | .ok _ => close (.ok (created, false))
      | .error e => insertError e
  | rollback => .op .rollback fun
      | .ok _ => refind
      | .error e => close (.error e)
  | refind => .op (.selectOrder a.externalOrderId) fun
      | .ok (some model) => close (.ok (model.toEntity, true))
      | .ok none => close (.error (.duplicateOrder a.externalOrderId))
      | .error e => close (.error e)
  | close result => .op .close fun
      | .ok _ => done result
      | .error e => done (.error e)
  | done (.ok value) => .ret value
  | done (.error e) => .raise e

end CallPoint

/-- An event under way: the events of its batch that come after it, and the polls
that come after its batch. -/
structure Job where
  event : OutboxEvent
  batch : List OutboxEvent
  polls : ℕ

/-- The points of a worker. `later` are the attempts that remain after the current one. -/
inductive WorkerPoint
  | fetch (polls : ℕ)
  | publish (job : Job) (attempt : ℕ) (later : List ℕ)
  | mark (job : Job) (attempt : ℕ) (later : List ℕ)
  | commit (job : Job) (attempt : ℕ) (later : List ℕ)
  | count (job : Job) (attempt : ℕ) (later : List ℕ)
  | backoff (job : Job) (attempt : ℕ) (later : List ℕ)
  | markFailed (job : Job)
  | commitFailed (job : Job)
  | countFailed (job : Job)
  | close (polls : ℕ)
  | pause (polls : ℕ)
  | stopped (result : Except Exc Unit)

namespace WorkerPoint

/-- The start of the poll loop with `polls` iterations to go. -/
def poll : ℕ → WorkerPoint
  | 0 => stopped (.ok ())
  | polls + 1 => fetch polls

/-- The next attempt at an event, or giving it up. -/
def nextAttempt (job : Job) : List ℕ → WorkerPoint
  | [] => markFailed job
  | attempt :: later => publish job attempt later

/-- Where an exception of an attempt leads. -/
def attemptError (job : Job) (attempt : ℕ) (later : List ℕ) : WorkerPoint :=
  if attempt < maxRetries - 1 then backoff job attempt later else nextAttempt job later

/-- The next event of a batch, or the end of the batch. -/
def nextEvent (polls : ℕ) : List OutboxEvent → WorkerPoint
  | [] => close polls
  | event :: batch => nextAttempt ⟨event, batch, polls⟩ (List.range maxRetries)

def node (W : OutboxWorker) : WorkerPoint → Node effects Exc Unit WorkerPoint
  | fetch polls => .op (.selectPending W.batchSize) fun
      | .ok models => nextEvent polls (models.map OutboxEventModel.toEntity)
      | .error _ => close polls
  | publish job attempt later => .op (.publish job.event (Json.dumps job.event.payload)) fun
      | .ok _ => mark job attempt later
      | .error _ => attemptError job attempt later
  | mark job attempt later => .op (.updateStatus job.event.id .processed) fun
      | .ok _ => commit job attempt later
      | .error _ => attemptError job attempt later
  | commit job attempt later => .op .commit fun
      | .ok _ => count job attempt later
      | .error _ => attemptError job attempt later
  | count job attempt later => .op (.inc .messagesProcessedTotal) fun
      | .ok _ => nextEvent job.polls job.batch
      | .error _ => attemptError job attempt later
  | backoff job attempt later => .op (.sleep (retryDelays.getD attempt 0)) fun
      | .ok _ => nextAttempt job later
      | .error _ => close job.polls
  | markFailed job => .op (.updateStatus job.event.id .failed) fun
      | .ok _ => commitFailed job
      | .error _ => countFailed job
  | commitFailed job => .op .commit fun _ => countFailed job
  | countFailed job => .op (.inc .messagesFailedTotal) fun
      | .ok _ => nextEvent job.polls job.batch
      | .error _ => close job.polls
  | close polls => .op .close fun _ => pause polls
  | pause polls => .op (.sleep W.pollInterval) fun
      | .ok _ => poll polls
      | .error e => stopped (.error e)
  | stopped (.ok _) => .ret ()
  | stopped (.error e) => .raise e

/-- The events in memory that the worker has still to finish. -/
def held : WorkerPoint → List OutboxEvent
  | publish job _ _ | mark job _ _ | commit job _ _ | backoff job _ _ => job.event :: job.batch
  | markFailed job | commitFailed job => job.event :: job.batch
  | count job _ _ | countFailed job => job.batch
  | fetch _ | close _ | pause _ | stopped _ => []

end WorkerPoint

end OrdersApi
