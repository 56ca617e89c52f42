import OrdersApi.Spec.Points

/-!
# The machines are the program texts

`CallPoint.code` and `WorkerPoint.code` are the programs that remain at each control
point, written with the definitions of the service and of the worker. The machines
implement them (`call_implements`, `worker_implements`), and their first points are
the whole programs (`call_code_start`, `worker_code_start`).
-/

namespace OrdersApi

open Effect Effect.Prog

/-! ## Requests -/

namespace CallPoint

variable (a : CallArgs)

/-- The rest of a request once `p` remains of `_create_order_with_outbox`. -/
def creating (p : Prog (Order × OutboxEvent)) : Prog (Order × Bool) :=
  withSession <| Effect.Prog.tryCatch
    (do
      let (order, _) ← p
      return (order, false))
    (OrderService.onInsertError a)

/-- The program that remains at a point. -/
def code : CallPoint → Prog (Order × Bool)
  | validate => OrderService.request a
  | find => withSession do
      match ← OrderRepository.findByExternalId a.externalOrderId with
      | some existing => return (existing, true)
      | none =>
        Effect.Prog.tryCatch
          (do
            let (order, _) ← OrderService.createOrderWithOutbox a
            return (order, false))
          (OrderService.onInsertError a)
  | orderId => creating a (OrderService.createOrderWithOutbox a)
  | now u => creating a do
      let t ← await .now
      let v ← await .uuid4
      let created ← OrderRepository.create (OrderService.newOrder a u t)
      let _ ← OutboxRepository.create (OrderService.newEvent a u t v)
      await .commit
      return (created, OrderService.newEvent a u t v)
  | eventId u t => creating a do
      let v ← await .uuid4
      let created ← OrderRepository.create (OrderService.newOrder a u t)
      let _ ← OutboxRepository.create (OrderService.newEvent a u t v)
      await .commit
      return (created, OrderService.newEvent a u t v)
  | orderClock order event => creating a do
      let created ← OrderRepository.create order
      let _ ← OutboxRepository.create event
      await .commit
      return (created, event)
  | insertOrder model event => creating a do
      let created ← await (.insertOrder model) >>= fun _ => pure model.toEntity
      let _ ← OutboxRepository.create event
      await .commit
      return (created, event)
  | eventClock created event => creating a do
      let _ ← OutboxRepository.create event
      await .commit
      return (created, event)
  | insertEvent created event model => creating a do
      let _ ← await (.insertOutboxEvent model) >>= fun _ => pure model.toEntity
      await .commit
      return (created, event)
  | commit created event => creating a do
      await .commit
      return (created, event)
  | rollback => withSession (OrderService.onInsertError a .integrityError)
  | refind => withSession do
      match ← OrderRepository.findByExternalId a.externalOrderId with
      | some existing => return (existing, true)
      | none => throw (.duplicateOrder a.externalOrderId)
  | close result => withSession (Effect.Prog.ofExcept result)
  | done result => Effect.Prog.ofExcept result

theorem code_insertError (e : Exc) :
    code a (insertError e) = (OrderService.onInsertError a e).ensuring (await .close) := by
  cases e <;> rfl

theorem call_code_start : code a validate = OrderService.request a := rfl

/-- **A request's machine is the program text.** -/
theorem call_implements : Implements (node a) (code a) := by
  intro pt
  cases pt with
  | validate =>
    show OrderService.request a = _
    unfold OrderService.request OrderService.createOrder withSession
    rw [RequesterClient.validateRequester_eq]
    simp only [op_bind, op_ensuring, node, Node.prog]
    congr 1; funext got
    cases a.client.classify a.requesterId got <;> rfl
  | find =>
    simp only [code, node, Node.prog]
    refine congrArg (Prog.op _) (funext fun r => ?_)
    rcases r with e | _ | m <;> rfl
  | refind =>
    simp only [code, node, Node.prog]
    refine congrArg (Prog.op _) (funext fun r => ?_)
    rcases r with e | _ | m <;> rfl
  | close result =>
    rcases result with e' | v <;> refine congrArg (Prog.op _) (funext fun r => ?_) <;>
      rcases r with e | _ <;> rfl
  | done result => rcases result with e | v <;> rfl
  | rollback =>
    refine congrArg (Prog.op _) (funext fun r => ?_)
    rcases r with e | _ <;> rfl
  -- the operations of the creation: their exceptions reach the handler of `create_order`
  | _ =>
    refine congrArg (Prog.op _) (funext fun r => ?_)
    rcases r with e | _
    · exact (code_insertError a e).symm
    · rfl

end CallPoint

/-! ## Workers -/

namespace WorkerPoint

open OutboxWorker

variable (W : OutboxWorker)

/-- The rest of the poll loop once `p` remains of a batch. -/
def inBatch (polls : ℕ) (p : Prog Unit) : Prog Unit := do
  (withSession p).tryCatch fun _ => return ()
  await (.sleep W.pollInterval)
  W.start polls

/-- The retry loop over the given attempts, and giving up after it. -/
def retrying (job : Job) (attempts : List ℕ) : Prog Unit := do
  if ← tryAttempts job.event attempts then return ()
  else giveUp job.event

/-- The rest of an event once `p` remains of the attempt under way. -/
def afterAttempt (job : Job) (later : List ℕ) (p : Prog Bool) : Prog Unit := do
  if ← (do
      if ← p then return true
      else tryAttempts job.event later) then return ()
  else giveUp job.event

/-- The same, inside the `try` of the attempt. -/
def inAttempt (job : Job) (attempt : ℕ) (later : List ℕ) (p : Prog Bool) : Prog Unit :=
  afterAttempt job later (p.tryCatch (onAttemptError attempt))

/-- The program that remains at a point. -/
def code : WorkerPoint → Prog Unit
  | fetch polls => W.start (polls + 1)
  | publish job attempt later => inBatch W job.polls do
      inAttempt job attempt later (attemptOnce job.event)
      processEvents job.batch
  | mark job attempt later => inBatch W job.polls do
      inAttempt job attempt later do
        OutboxRepository.markProcessed job.event.id
        await .commit
        await (.inc .messagesProcessedTotal)
        pure true
      processEvents job.batch
  | commit job attempt later => inBatch W job.polls do
      inAttempt job attempt later do
        await .commit
        await (.inc .messagesProcessedTotal)
        pure true
      processEvents job.batch
  | count job attempt later => inBatch W job.polls do
      inAttempt job attempt later do
        await (.inc .messagesProcessedTotal)
        pure true
      processEvents job.batch
  | backoff job attempt later => inBatch W job.polls do
      afterAttempt job later (await (.sleep (retryDelays.getD attempt 0)) >>= fun _ => pure false)
      processEvents job.batch
  | markFailed job => inBatch W job.polls do
      giveUp job.event
      processEvents job.batch
  | commitFailed job => inBatch W job.polls do
      (do
        (await .commit).tryCatch fun _ => pure ()
        await (.inc .messagesFailedTotal))
      processEvents job.batch
  | countFailed job => inBatch W job.polls do
      await (.inc .messagesFailedTotal)
      processEvents job.batch
  | close polls => inBatch W polls (pure ())
  | pause polls => do
      await (.sleep W.pollInterval)
      W.start polls
  | stopped result => Effect.Prog.ofExcept result

theorem code_poll : ∀ polls, code W (poll polls) = W.start polls
  | 0 => rfl
  | _ + 1 => rfl

theorem code_nextAttempt (job : Job) (attempts : List ℕ) :
    code W (nextAttempt job attempts) = inBatch W job.polls (do
      retrying job attempts
      processEvents job.batch) := by
  cases attempts <;> rfl

theorem code_nextEvent (polls : ℕ) (events : List OutboxEvent) :
    code W (nextEvent polls events) = inBatch W polls (processEvents events) := by
  cases events <;> rfl

theorem code_attemptError (job : Job) (attempt : ℕ) (later : List ℕ) (e : Exc) :
    code W (attemptError job attempt later) = inBatch W job.polls (do
      inAttempt job attempt later (throw e)
      processEvents job.batch) := by
  unfold attemptError inAttempt
  rw [throw_eq, raise_tryCatch]
  unfold onAttemptError
  by_cases h : attempt < maxRetries - 1
  · simp only [h, if_true]; rfl
  · simp only [h, if_false]; rw [code_nextAttempt]; rfl

/-- An exception that leaves the batch closes the session, like its normal end. -/
theorem code_close_raise (polls : ℕ) (e : Exc) : code W (close polls) = inBatch W polls (throw e) := by
  refine congrArg (Prog.op _) (funext fun r => ?_)
  rcases r with e' | _ <;> rfl

theorem worker_code_start (polls : ℕ) : code W (poll polls) = W.start polls := code_poll W polls

/-- **A worker's machine is the program text.** -/
theorem worker_implements : Implements (node W) (code W) := by
  intro pt
  cases pt with
  | fetch polls =>
    refine congrArg (Prog.op _) (funext fun r => ?_)
    rcases r with e | models
    · exact (code_close_raise W polls e).symm
    · exact (code_nextEvent W polls _).symm
  | publish job attempt later =>
    refine congrArg (Prog.op _) (funext fun r => ?_)
    rcases r with e | _
    · exact (code_attemptError W job attempt later e).symm
    · rfl
  | mark job attempt later =>
    refine congrArg (Prog.op _) (funext fun r => ?_)
    rcases r with e | _
    · exact (code_attemptError W job attempt later e).symm
    · rfl
  | commit job attempt later =>
    refine congrArg (Prog.op _) (funext fun r => ?_)
    rcases r with e | _
    · exact (code_attemptError W job attempt later e).symm
    · rfl
  | count job attempt later =>
    refine congrArg (Prog.op _) (funext fun r => ?_)
    rcases r with e | _
    · exact (code_attemptError W job attempt later e).symm
    · exact (code_nextEvent W job.polls job.batch).symm
  | backoff job attempt later =>
    refine congrArg (Prog.op _) (funext fun r => ?_)
    rcases r with e | _
    · exact (code_close_raise W job.polls e).symm
    · exact (code_nextAttempt W job later).symm
  | markFailed job =>
    refine congrArg (Prog.op _) (funext fun r => ?_)
    rcases r with e | _ <;> rfl
  | commitFailed job =>
    refine congrArg (Prog.op _) (funext fun r => ?_)
    rcases r with e | _ <;> rfl
  | countFailed job =>
    refine congrArg (Prog.op _) (funext fun r => ?_)
    rcases r with e | _
    · exact (code_close_raise W job.polls e).symm
    · exact (code_nextEvent W job.polls job.batch).symm
  | close polls =>
    refine congrArg (Prog.op _) (funext fun r => ?_)
    rcases r with e | _ <;> rfl
  | pause polls =>
    refine congrArg (Prog.op _) (funext fun r => ?_)
    rcases r with e | _
    · rfl
    · exact (code_poll W polls).symm
  | stopped result => rcases result with e | _ <;> rfl

/-- A point of a worker awaits an operation, or is the end. -/
theorem stopped_or_node (pt : WorkerPoint) : (∃ result, pt = .stopped result) ∨
    ∃ (o : Op) (k : Except Exc (Op.Resp o) → WorkerPoint), pt.node W = .op o k := by
  cases pt with
  | stopped result => exact .inl ⟨result, rfl⟩
  | _ => exact .inr ⟨_, _, rfl⟩

end WorkerPoint

end OrdersApi
