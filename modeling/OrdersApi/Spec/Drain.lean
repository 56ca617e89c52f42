import OrdersApi.Spec.Observe

/-!
# Draining the outbox

A worker that is alone on the database, with a stream of publish outcomes and no other
failure (`Quiet`); the log records its operations. `Drained` says what some runs of
`_process_batch` have then done: which events were attempted, in which order and how
often, what was recorded for them, and the tables they leave behind. `Recovered` says what
is left of a backlog, whoever else was at work before.
-/

namespace OrdersApi

variable {P : Type}

/-- The outcome of a call of `publish`; a failure may come after the message was handed over. -/
abbrev Outcome := Except Bool Unit

/-- The database, and the operations so far with their responses (latest first). -/
structure Log (P : Type) where
  db : Db P
  calls : List (effects.Call Exc) := []

def Op.isPublish : Op → Bool
  | publish _ _ => true
  | _ => false

/-- The number of calls of `publish`. -/
def publishes (calls : List (effects.Call Exc)) : ℕ := calls.countP fun call => call.1.isPublish

/-- The `n`-th outcome of the stream answers a `publish`; everything else succeeds. -/
def Answers (stream : ℕ → Outcome) (n : ℕ) : (o : Op) → Except Exc (Op.Resp o) → Prop
  | .publish _ _, r => r = (stream n).mapError .publishError
  | _, r => ∃ v, r = .ok v

/-- An operation of `p` when nothing but `publish` fails. -/
structure Quiet [DecidableEq P] (stream : ℕ → Outcome) (p : P) (s : Log P) (o : Op)
    (r : Except Exc (Op.Resp o))
    (s' : Log P) : Prop where
  exec : Exec s.db p o r s'.db
  answers : Answers stream (publishes s.calls) o r
  calls : s'.calls = ⟨o, r⟩ :: s.calls

/-! ## What is to be done for an event -/

/-- An event that was fetched, with the outcomes of its attempts. -/
structure Attempted where
  row : OutboxEventModel
  outcomes : List Outcome

/-- The attempts end with the first success, or after `MAX_RETRIES` failures. -/
def Tried (outcomes : List Outcome) : Prop :=
  (∃ failures, outcomes = failures ++ [.ok ()] ∧ failures.length < maxRetries ∧ .ok () ∉ failures) ∨
    (outcomes.length = maxRetries ∧ .ok () ∉ outcomes)

/-- `processed` if an attempt succeeded, else `failed`. -/
def verdict (outcomes : List Outcome) : OutboxStatus :=
  if .ok () ∈ outcomes then .processed else .failed

section Calls

variable (event : OutboxEvent)

/-- The attempts from number `i` on, with the pauses between them. -/
def attemptCalls : ℕ → List Outcome → List (effects.Call Exc)
  | _, [] => []
  | i, outcome :: later =>
    ⟨.publish event (Json.dumps event.payload), outcome.mapError .publishError⟩ ::
      ((if outcome ≠ .ok () ∧ i < maxRetries - 1 then [⟨.sleep (retryDelays.getD i 0), .ok ()⟩] else []) ++
        attemptCalls (i + 1) later)

/-- The status of an event is committed and counted. -/
def settleCalls (status : OutboxStatus) : List (effects.Call Exc) :=
  [⟨.updateStatus event.id status, .ok ()⟩, ⟨.commit, .ok ()⟩, ⟨.inc status.counter, .ok ()⟩]

end Calls

/-- The operations for an event. -/
def Attempted.calls (a : Attempted) : List (effects.Call Exc) :=
  attemptCalls a.row.toEntity 0 a.outcomes ++ settleCalls a.row.toEntity (verdict a.outcomes)

/-! ## What is to be done in some polls -/

/-- The operations of a poll: the fetch, each event, the end of the batch, the pause. -/
def pollCalls (W : OutboxWorker) (batch : List Attempted) : List (effects.Call Exc) :=
  ⟨.selectPending W.batchSize, .ok (batch.map Attempted.row)⟩ :: (batch.flatMap Attempted.calls ++
    [⟨.close, .ok ()⟩, ⟨.sleep W.pollInterval, .ok ()⟩])

/-- The status of a row when the events in `done` have been settled. -/
def statusAfter (done : List Attempted) (row : OutboxEventModel) : OutboxStatus :=
  match done.find? fun a => a.row.id = row.id with
  | some a => verdict a.outcomes
  | none => row.status

/-- The tables when the events in `done` have been settled: only statuses change. -/
def Tables.settled (t : Tables) (done : List Attempted) : Tables :=
  { t with outboxEvents := t.outboxEvents.map fun row => { row with status := statusAfter done row } }

def Tables.pending (t : Tables) : List OutboxEventModel :=
  t.outboxEvents.filter fun row => row.status = .pending

/-- What the polls with the given batches have done: the events attempted are the oldest
pending ones, by `created_at`, as many as fit into the batches, and each one is settled
by the outcomes of its attempts. -/
structure Drained (W : OutboxWorker) (stream : ℕ → Outcome) (t : Tables)
    (batches : List (List Attempted))
    (s : Log P) : Prop where
  oldest : OrderLimit.Oldest t.pending (fun row => row.createdAt.key) (batches.length * W.batchSize)
    (batches.flatten.map Attempted.row)
  tried : ∀ a ∈ batches.flatten, Tried a.outcomes
  stream : batches.flatten.flatMap Attempted.outcomes = (List.range (publishes s.calls)).map stream
  tables : s.db.committed = t.settled batches.flatten
  calls : s.calls.reverse = batches.flatMap (pollCalls W)

/-! ## A backlog that others left behind -/

/-- Only `p` acts, and nothing that it does fails. The server may end the transactions of
the others, and their processes may die. -/
def Undisturbed (p : P) (_ : World P) : Event P → Prop
  | .exec q _ r => q = p ∧ ∃ v, r = .ok v
  | .die q | .abort q => q ≠ p

end OrdersApi
