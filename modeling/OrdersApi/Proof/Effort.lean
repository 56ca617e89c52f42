import Mathlib.Algebra.BigOperators.Ring.List
import Mathlib.Tactic.Ring
import OrdersApi.Proof.Delivery
import OrdersApi.Proof.Spread
import OrdersApi.Spec.Effort

/-!
# What parties do at most

`worker_spent` bounds what a worker's operations cost, for any cost of an operation and in
every run: a fixed cost for each poll, and for each event that it fetches the cost of the
worst way of processing it. With particular costs this bounds the operations of every
party (`work_bounded`), and the calls of `publish` for an event and the time slept
(`retries_bounded`).
-/

namespace OrdersApi

open TxStore Trace Effect

variable {P : Type} [DecidableEq P] {cost : Op → ℕ} {W : OutboxWorker} {o : Op}
  {r : Except Exc (Op.Resp o)}

/-! ## The cost of a worker's next operation -/

section Points

namespace WorkerPoint

variable (job : Job) (attempt polls : ℕ) (later : List ℕ) (events : List OutboxEvent)

@[simp] theorem potential_nextAttempt : (nextAttempt job later).potential cost W =
    attemptsCost cost job.event later + (batchCost cost job.batch + tailCost cost W job.polls) := by
  cases later <;> rfl

@[simp] theorem potential_attemptError : (attemptError job attempt later).potential cost W =
    backoffCost cost attempt + attemptsCost cost job.event later +
      (batchCost cost job.batch + tailCost cost W job.polls) := by
  unfold attemptError backoffCost
  split
  · rfl
  · rw [potential_nextAttempt, Nat.zero_add]

@[simp] theorem potential_nextEvent : (nextEvent polls events).potential cost W =
    batchCost cost events + tailCost cost W polls := by
  cases events with
  | nil => simp [nextEvent, potential, batchCost]
  | cons event batch =>
    rw [nextEvent, potential_nextAttempt]
    show eventCost cost event + _ = _
    simp only [batchCost, List.map_cons, List.sum_cons]
    omega

@[simp] theorem potential_poll : (poll polls).potential cost W = pollCost cost W * polls := by
  cases polls <;> rfl

@[simp] theorem ahead_nextAttempt :
    (nextAttempt job later).ahead = some (job.event.id, later.length) := by
  cases later <;> rfl

@[simp] theorem ahead_attemptError :
    (attemptError job attempt later).ahead = some (job.event.id, later.length) := by
  unfold attemptError
  split
  · rfl
  · exact ahead_nextAttempt job later

@[simp] theorem pollsLeft_nextAttempt :
    (nextAttempt job later).pollsLeft = job.polls := by cases later <;> rfl

@[simp] theorem pollsLeft_attemptError : (attemptError job attempt later).pollsLeft = job.polls := by
  unfold attemptError
  split
  · rfl
  · exact pollsLeft_nextAttempt job later

@[simp] theorem pollsLeft_nextEvent : (nextEvent polls events).pollsLeft = polls := by
  cases events with
  | nil => rfl
  | cons event batch => exact pollsLeft_nextAttempt ⟨event, batch, polls⟩ (List.range maxRetries)

@[simp] theorem pollsLeft_poll : (poll polls).pollsLeft = polls := by cases polls <;> rfl

variable {pt : WorkerPoint} {k : Except Exc (Op.Resp o) → WorkerPoint}

/-- **A worker's operation costs what it gives up**, and what was fetched is to be paid for. -/
theorem cost_step (hn : pt.node W = .op o k) (hm : May P ⟨o, r⟩) :
    cost o + (k r).potential cost W ≤
      pt.potential cost W + batchCost cost ((fetchedRows ⟨o, r⟩).map OutboxEventModel.toEntity) := by
  obtain ⟨db, db', p, hx⟩ := hm
  have hx : Exec db p o r db' := hx
  cases pt with
  | fetch polls =>
    cases hn
    rcases r with e | rows
    · simp only [potential, tailCost, pollCost, Nat.mul_add_one]
      omega
    · simp only [potential_nextEvent]
      simp only [potential, tailCost, pollCost, fetchedRows, Nat.mul_add_one]
      omega
  | publish job attempt later =>
    cases hn
    rcases r with e | u
    · simp only [potential_attemptError]
      simp only [potential, attemptsCost]
      omega
    · simp only [potential, attemptsCost]
      omega
  | mark job attempt later =>
    cases hn
    rcases r with e | u
    · simp only [potential_attemptError]
      simp only [potential]
      omega
    · simp only [potential]
      omega
  | commit job attempt later =>
    cases hn
    rcases r with e | u
    · simp only [potential_attemptError]
      simp only [potential]
      omega
    · simp only [potential]
      omega
  -- incrementing a counter never fails
  | count job attempt later =>
    cases hn
    cases hx with
    | failed hst => cases hst
    | inc =>
      simp only [potential_nextEvent]
      simp only [potential]
      omega
  | backoff job attempt later =>
    cases hn
    cases hx with
    | failed hst => cases hst
    | sleep =>
      simp only [potential_nextAttempt]
      simp only [potential]
      omega
  | markFailed job =>
    cases hn
    rcases r with e | u
    · simp only [potential, attemptsCost]
      omega
    · simp only [potential, attemptsCost]
      omega
  | commitFailed job =>
    cases hn
    simp only [potential]
    omega
  | countFailed job =>
    cases hn
    cases hx with
    | failed hst => cases hst
    | inc =>
      simp only [potential_nextEvent]
      simp only [potential]
      omega
  | close polls =>
    cases hn
    simp only [potential, tailCost]
    omega
  | pause polls =>
    cases hn
    cases hx with
    | failed hst => cases hst
    | sleep =>
      simp only [potential_poll]
      simp only [potential]
      omega
  | stopped res => rcases res with e | u <;> cases hn

/-- A poll fetches at most a batch. -/
theorem rows_step (hn : pt.node W = .op o k) (hm : May P ⟨o, r⟩) :
    (fetchedRows ⟨o, r⟩).length + (k r).pollsLeft * W.batchSize ≤ pt.pollsLeft * W.batchSize := by
  obtain ⟨db, db', p, hx⟩ := hm
  have hx : Exec db p o r db' := hx
  cases pt with
  | fetch polls =>
    cases hn
    cases hx with
    | failed =>
      simp only [pollsLeft, fetchedRows, Nat.add_one_mul, List.length_nil]
      omega
    | selectPending _ rows _ hrows =>
      have hlimit := hrows.limit
      simp only [pollsLeft_nextEvent]
      simp only [pollsLeft, fetchedRows, Nat.add_one_mul]
      omega
  | pause polls =>
    cases hn
    cases hx with
    | failed hst => cases hst
    | sleep =>
      simp only [pollsLeft_poll]
      simp [pollsLeft, fetchedRows]
  | stopped res => rcases res with e | u <;> cases hn
  | close polls => cases hn; simp [pollsLeft, fetchedRows]
  | markFailed job => cases hn; rcases r with e | u <;> simp [pollsLeft, fetchedRows]
  | commitFailed job => cases hn; simp [pollsLeft, fetchedRows]
  | countFailed job =>
    cases hn
    rcases r with e | u
    · simp [pollsLeft, fetchedRows]
    · simp only [pollsLeft_nextEvent]
      simp [pollsLeft, fetchedRows]
  | backoff job attempt later =>
    cases hn
    rcases r with e | u
    · simp [pollsLeft, fetchedRows]
    · simp only [pollsLeft_nextAttempt]
      simp [pollsLeft, fetchedRows]
  | count job attempt later =>
    cases hn
    rcases r with e | u
    · simp only [pollsLeft_attemptError]
      simp [pollsLeft, fetchedRows]
    · simp only [pollsLeft_nextEvent]
      simp [pollsLeft, fetchedRows]
  -- an attempt goes on, or its exception leads to the next one
  | _ =>
    cases hn
    rcases r with e | u
    · simp only [pollsLeft_attemptError]
      simp [pollsLeft, fetchedRows]
    · simp [pollsLeft, fetchedRows]

end WorkerPoint

/-- The cost of an event, attempt by attempt. -/
theorem eventCost_eq (event : OutboxEvent) : eventCost cost event =
    attemptsCost cost event [0, 1, 2] := rfl

/-- Every operation counts. -/
theorem batchCost_one (events : List OutboxEvent) :
    batchCost (fun _ => 1) events = 14 * events.length := by
  have hone : ∀ event, eventCost (fun _ => 1) event = 14 := by
    intro event
    simp [eventCost_eq, attemptsCost, backoffCost, maxRetries, retryDelays]
  unfold batchCost
  rw [funext hone, List.map_const', List.sum_replicate_nat, Nat.mul_comm]

theorem total_mul (n : ℕ) (f : effects.Call Exc → ℕ) (l : List (effects.Call Exc)) :
    total (fun c => n * f c) l = n * total f l :=
  List.sum_map_mul_left l f n

namespace WorkerPoint

variable {l : List (effects.Call Exc)} {pt : WorkerPoint} {polls : ℕ}

/-- **What a worker's operations cost**, whatever the cost of an operation. -/
theorem path_spent (h : Path (node W) (May P) (poll polls) l pt) (cost : Op → ℕ) :
    total (fun c => cost c.1) l ≤ pollCost cost W * polls +
      total (fun c => batchCost cost ((fetchedRows c).map OutboxEventModel.toEntity)) l := by
  have hspent := h.spent (fun c => cost c.1)
    (fun c => batchCost cost ((fetchedRows c).map OutboxEventModel.toEntity)) (potential cost W)
    fun _ _ _ _ hn hm => cost_step hn hm
  rw [potential_poll] at hspent
  omega

/-- A worker fetches at most a batch in each poll. -/
theorem path_rows (h : Path (node W) (May P) (poll polls) l pt) :
    total (fun c => (fetchedRows c).length) l ≤ polls * W.batchSize := by
  have hspent := h.spent (fun c => (fetchedRows c).length) (fun _ => 0)
    (fun pt => pt.pollsLeft * W.batchSize) fun _ _ _ _ hn hm => rows_step hn hm
  have hzero : total (fun _ => 0) l = 0 := by simp [total]
  rw [pollsLeft_poll, hzero] at hspent
  omega

/-- A worker's operations are bounded by its polls and the size of a batch. -/
theorem path_length (h : Path (node W) (May P) (poll polls) l pt) :
    l.length ≤ polls * (14 * W.batchSize + 3) := by
  have hspent := path_spent h fun _ => 1
  simp only [batchCost_one, List.length_map] at hspent
  rw [total_mul] at hspent
  have hrows := path_rows h
  have hpoll : pollCost (fun _ => 1) W = 3 := rfl
  calc l.length = total (fun _ => 1) l := by simp [total]
    _ ≤ 3 * polls + 14 * total (fun c => (fetchedRows c).length) l := by rw [← hpoll]; exact hspent
    _ ≤ 3 * polls + 14 * (polls * W.batchSize) := by omega
    _ = polls * (14 * W.batchSize + 3) := by ring

end WorkerPoint

/-- A request's operation brings it nearer to its end; a commit never meets a conflict. -/
theorem CallPoint.rank_step {a : CallArgs} {pt : CallPoint} {k : Except Exc (Op.Resp o) → CallPoint}
    (hn : pt.node a = .op o k) (hm : May P ⟨o, r⟩) : 1 + (k r).rank ≤ pt.rank := by
  obtain ⟨db, db', p, hx⟩ := hm
  have hx : Exec db p o r db' := hx
  cases pt with
  | validate =>
    cases hn
    simp only
    split <;> simp [rank]
  | find => cases hn; rcases r with e | _ | m <;> simp [rank]
  | rollback => cases hn; rcases r with e | u <;> simp [rank]
  | refind => cases hn; rcases r with e | _ | m <;> simp [rank]
  | close res => cases hn; rcases r with e | u <;> simp [rank]
  | done res => rcases res with e | v <;> cases hn
  | commit created event =>
    cases hn
    cases hx with
    | failed hst => cases hst
    | commit => simp [rank]
    | commitFailed => simp [rank, insertError]
    | commitLost => simp [rank, insertError]
  | _ =>
    cases hn
    rcases r with e | u
    · cases e <;> simp [rank, insertError]
    · simp [rank]

end Points

/-! ## Runs -/

section Runs

variable {t : ValidTables} {role : P → Role} {tr : List (Event P)} {w : World P} {p : P} {polls : ℕ}
  {pt : WorkerPoint}

/-- The calls of a party lead it from its start to where it is. -/
def Role.Walked (P : Type) [DecidableEq P] (role : Role) (l : List (effects.Call Exc))
    (proc : Proc) : Prop :=
  match role, proc with
  | .call a, .call a' pt => a' = a ∧ Path (CallPoint.node a) (May P) .validate l pt
  | .worker W polls, .worker W' pt => W' = W ∧ Path (WorkerPoint.node W) (May P) (.poll polls) l pt
  | _, _ => False

theorem Reached.walked (h : Reached t role tr w) (p : P) :
    (role p).Walked P (callsOf p tr) (w.procs p) := by
  have hg : Run (Guarded Step fun _ _ => True) (World.init t role) tr w := h.unconditional
  refine Reached.local (Φ := fun tr _ p x _ => (role p).Walked P (callsOf p tr) x) ?_ ?_ ?_ ?_ ?_ hg p
  · intro p
    cases hr : role p with
    | call a => exact ⟨rfl, .nil⟩
    | worker W polls => exact ⟨rfl, .nil⟩
  · intro tr _ _ p x _ l hl _ hΦ
    rw [callsOf_other hl]
    exact hΦ
  · intro _ _ _ _ _ hΦ
    exact hΦ
  · intro tr w p a pt o k r db' _ _ _ hn hx hΦ
    simp only [callsOf, if_true]
    cases hr : role p with
    | call a' =>
      rw [hr] at hΦ
      obtain ⟨rfl, hpath⟩ := hΦ
      exact ⟨rfl, hpath.step hn ⟨_, _, _, hx⟩⟩
    | worker W polls => rw [hr] at hΦ; exact hΦ.elim
  · intro tr w p W pt o k r db' _ _ _ hn hx hΦ
    simp only [callsOf, if_true]
    cases hr : role p with
    | call a' => rw [hr] at hΦ; exact hΦ.elim
    | worker W' polls =>
      rw [hr] at hΦ
      obtain ⟨rfl, hpath⟩ := hΦ
      exact ⟨rfl, hpath.step hn ⟨_, _, _, hx⟩⟩

/-- A worker's path from the start of its poll loop. -/
theorem Reached.worker_path (h : Reached t role tr w) (hr : role p = .worker W polls) :
    ∃ pt, w.procs p = .worker W pt ∧
    Path (WorkerPoint.node W) (May P) (.poll polls) (callsOf p tr) pt := by
  have hwalk := h.walked p
  rw [hr] at hwalk
  cases hp : w.procs p with
  | call a pt => rw [hp] at hwalk; exact hwalk.elim
  | worker W' pt =>
    rw [hp] at hwalk
    obtain ⟨rfl, hpath⟩ := hwalk
    exact ⟨pt, rfl, hpath⟩

/-- What a worker's operations cost in a run, whatever happens in it. -/
theorem Reached.worker_spent (h : Reached t role tr w) (hr : role p = .worker W polls) (cost : Op → ℕ) :
    total (fun c => cost c.1) (callsOf p tr) ≤ pollCost cost W * polls +
      total (fun c => batchCost cost ((fetchedRows c).map OutboxEventModel.toEntity)) (callsOf p tr) := by
  obtain ⟨pt, -, hpath⟩ := h.worker_path hr
  exact WorkerPoint.path_spent hpath cost

/-- **Every party does bounded work**, whatever the database, SQS, the requester service and
the other parties do. -/
theorem work_bounded (h : Reached t role tr w) (p : P) : (callsOf p tr).length ≤ (role p).work := by
  cases hr : role p with
  | call a =>
    have hwalk := h.walked p
    rw [hr] at hwalk
    cases hp : w.procs p with
    | worker W pt => rw [hp] at hwalk; exact hwalk.elim
    | call a' pt =>
      rw [hp] at hwalk
      have hspent := hwalk.2.spent (fun _ => 1) (fun _ => 0) CallPoint.rank
        fun _ _ _ _ hn hm => CallPoint.rank_step hn hm
      have hlength : (callsOf p tr).length = total (fun _ => 1) (callsOf p tr) := by simp [total]
      have hzero : total (fun _ => 0) (callsOf p tr) = 0 := by simp [total]
      have hstart : CallPoint.validate.rank = 12 := rfl
      show _ ≤ 12
      omega
  | worker W polls =>
    obtain ⟨pt, -, hpath⟩ := h.worker_path hr
    exact WorkerPoint.path_length hpath

/-- The worker `true` gives the first event up, publishes the second one and returns; the worker
`false` finds both rows locked. -/
theorem work_bounded_sample : ∃ tr w, Reached backlog (fun _ : Bool => .worker ⟨2, 5⟩ 1) tr w ∧
    w.Finished true ∧ (callsOf true tr).length = 15 ∧
    (callsOf true tr).length ≤ Role.work (.worker ⟨2, 5⟩ 1) := by
  have h0 : Reached backlog (fun _ : Bool => .worker ⟨2, 5⟩ 1) [] _ := .init
  have h1 := h0.step (.worker (p := true) trivial rfl rfl (.selectPending 2 [firstEvent, secondEvent] trivial
    (fetched_of_unlocked (free_of_other rfl) (by decide) (by decide))))
  have hlocked : ∀ row ∈ backlog.1.outboxEvents,
      Lock.eventRow row.id ∈ [firstEvent, secondEvent].map fun row => Lock.eventRow row.id :=
    fun row hrow => List.mem_map_of_mem hrow
  have h2 := h1.step (.worker (p := false) trivial rfl rfl (.selectPending 2 [] trivial
    (OrderLimit.selected_nil fun row hrow he => he.2 true nofun (hlocked row hrow))))
  have h3 := h2.step (.worker (p := true) trivial rfl rfl (.publishFailed _ _ false))
  have h4 := h3.step (.worker (p := true) trivial rfl rfl (.sleep _))
  have h5 := h4.step (.worker (p := true) trivial rfl rfl (.publishFailed _ _ true))
  have h6 := h5.step (.worker (p := true) trivial rfl rfl (.sleep _))
  have h7 := h6.step (.worker (p := true) trivial rfl rfl (.publishFailed _ _ false))
  have h8 := h7.step (.worker (p := true) trivial rfl rfl (.updateStatus _ _ trivial ⟨_, .head _, rfl⟩
    (free_of_other rfl _)))
  have h9 := h8.step (.worker (p := true) trivial rfl rfl (.commit trivial))
  have h10 := h9.step (.worker (p := true) trivial rfl rfl (.inc _))
  have h11 := h10.step (.worker (p := true) trivial rfl rfl (.published _ _))
  have h12 := h11.step (.worker (p := true) trivial rfl rfl (.updateStatus _ _ trivial
    ⟨_, .tail _ (.head _), rfl⟩ (free_of_other rfl _)))
  have h13 := h12.step (.worker (p := true) trivial rfl rfl (.commit trivial))
  have h14 := h13.step (.worker (p := true) trivial rfl rfl (.inc _))
  have h15 := h14.step (.worker (p := true) trivial rfl rfl .close)
  have h16 := h15.step (.worker (p := true) trivial rfl rfl (.sleep _))
  exact ⟨_, _, h16, trivial, rfl, work_bounded h16 true⟩

/-! ## Retries -/

theorem total_publishCost (e : UUID) (p : P) (tr : List (Event P)) :
    total (fun c => publishCost e c.1) (callsOf p tr) = publishCallsBy p e tr := by
  induction tr with
  | nil => rfl
  | cons l tr ih =>
    by_cases hl : ∃ o r, l = .exec p o r
    · obtain ⟨o, r, rfl⟩ := hl
      have hone : publishCost e o = if (Event.exec p o r).publishes = some e then 1 else 0 := by
        cases o with
        | publish event body => simp [publishCost, Event.publishes]
        | _ => rfl
      rw [publishCallsBy_own, ← hone]
      simp only [callsOf, if_true, total_cons]
      rw [ih, Nat.add_comm]
    · push Not at hl
      rw [callsOf_other hl, publishCallsBy_other hl, ih]

theorem batchCost_publish (e : UUID) (rows : List OutboxEventModel) :
    batchCost (publishCost e) (rows.map OutboxEventModel.toEntity) =
      maxRetries * (rows.map OutboxEventModel.id).count e := by
  have hone : ∀ event, eventCost (publishCost e) event = if event.id = e then maxRetries else 0 := by
    intro event
    by_cases he : event.id = e
    · simp [eventCost_eq, attemptsCost, backoffCost, publishCost, maxRetries, retryDelays, he]
    · simp [eventCost_eq, attemptsCost, backoffCost, publishCost, maxRetries, retryDelays, he]
  induction rows with
  | nil => rfl
  | cons row rows ih =>
    unfold batchCost at ih ⊢
    rw [List.map_cons, List.map_cons, List.sum_cons, ih, hone, List.map_cons, List.count_cons, Nat.mul_add,
      Nat.add_comm]
    show _ + (if row.id = e then maxRetries else 0) = _
    by_cases he : row.id = e <;> simp [he]

/-- The pauses between the attempts at an event; the last delay is never used. -/
theorem batchCost_sleep (events : List OutboxEvent) :
    batchCost sleepCost events = (retryDelays.take (maxRetries - 1)).sum * events.length := by
  have hone : ∀ event, eventCost sleepCost event = (retryDelays.take (maxRetries - 1)).sum := by
    intro event
    simp [eventCost_eq, attemptsCost, backoffCost, sleepCost, maxRetries, retryDelays]
  unfold batchCost
  rw [funext hone, List.map_const', List.sum_replicate_nat, Nat.mul_comm]

/-- **Retries are bounded.** In every run a worker calls `publish` for an event at most
`MAX_RETRIES` times for each time it has fetched the event, and sleeps for at most its poll
intervals and, for each event fetched, all retry delays but the last. -/
theorem retries_bounded (h : Reached t role tr w) (hr : role p = .worker W polls) :
    (∀ e, publishCallsBy p e tr ≤
      maxRetries * total (fun c => ((fetchedRows c).map OutboxEventModel.id).count e) (callsOf p tr)) ∧
    total (fun c => sleepCost c.1) (callsOf p tr) ≤ polls * W.pollInterval +
      (retryDelays.take (maxRetries - 1)).sum * total (fun c => (fetchedRows c).length)
      (callsOf p tr) := by
  refine ⟨fun e => ?_, ?_⟩
  · have hspent := h.worker_spent hr (publishCost e)
    have hpoll : pollCost (publishCost e) W = 0 := rfl
    simp only [batchCost_publish] at hspent
    rw [total_mul, total_publishCost, hpoll] at hspent
    omega
  · have hspent := h.worker_spent hr sleepCost
    have hpoll : pollCost sleepCost W = W.pollInterval := by simp [pollCost, sleepCost]
    simp only [batchCost_sleep, List.length_map] at hspent
    rw [total_mul, hpoll, Nat.mul_comm W.pollInterval] at hspent
    exact hspent

theorem retries_bounded_sample : ∃ tr w, Reached .empty sampleRole tr w ∧
    (∃ event body, Handed tr event body) ∧ publishCallsBy false (sampleUuid 1) tr ≤
      maxRetries * total (fun c => ((fetchedRows c).map OutboxEventModel.id).count (sampleUuid 1))
        (callsOf false tr) := by
  obtain ⟨tr, w, m, h, -, hsent⟩ := sample_delivered
  have hr : sampleRole false = .worker ⟨10, 5⟩ 1 := rfl
  exact ⟨tr, w, h, ⟨_, _, hsent⟩, (retries_bounded h hr).1 _⟩

/-- The attempts that are not ahead have been made. -/
def Tries (p : P) (tr : List (Event P)) (pt : WorkerPoint) : Prop :=
  ∀ e n, pt.ahead = some (e, n) → maxRetries ≤ publishCallsBy p e tr + n

theorem Tries.step {k : Except Exc (Op.Resp o) → WorkerPoint} {db db' : Db P} (hT : Tries p tr pt)
    (hn : pt.node W = .op o k) (hx : Exec db p o r db') :
    Tries p (.exec p o r :: tr) (k r) := by
  -- with the next event all attempts are ahead
  have hnext : ∀ polls events, Tries p (.exec p o r :: tr) (WorkerPoint.nextEvent polls events) := by
    intro polls events e n he
    cases events with
    | nil => cases he
    | cons event batch =>
      rw [WorkerPoint.nextEvent, WorkerPoint.ahead_nextAttempt] at he
      obtain ⟨-, rfl⟩ := Prod.mk.inj (Option.some.inj he)
      rw [List.length_range]
      omega
  -- an operation that does not publish leaves what is ahead, or ends the event
  have hkeep : ∀ pt', pt'.ahead = pt.ahead → (Event.exec p o r).publishes = none →
      Tries p (.exec p o r :: tr) pt' := by
    intro pt' hpt hl e n he
    rw [publishCallsBy_quiet hl]
    exact hT e n (hpt ▸ he)
  have hnone : ∀ pt' : WorkerPoint, pt'.ahead = none → Tries p (.exec p o r :: tr) pt' := by
    intro pt' hpt e n he
    rw [hpt] at he
    cases he
  cases pt with
  | fetch polls =>
    cases hn
    rcases r with e | rows
    · exact hnone _ rfl
    · exact hnext polls _
  | publish job attempt later =>
    cases hn
    have hcall : publishCallsBy p job.event.id
        (.exec p (.publish job.event (Json.dumps job.event.payload)) r :: tr) =
        publishCallsBy p job.event.id tr + 1 := by
      rw [publishCallsBy_own]
      simp [Event.publishes]
    have hmade : ∀ pt' : WorkerPoint, pt'.ahead = some (job.event.id, later.length) →
        Tries p (.exec p (.publish job.event (Json.dumps job.event.payload)) r :: tr) pt' := by
      intro pt' hpt e n he
      rw [hpt] at he
      obtain ⟨rfl, rfl⟩ := Prod.mk.inj (Option.some.inj he)
      have := hT job.event.id (later.length + 1) rfl
      omega
    rcases r with e | u
    · exact hmade _ (WorkerPoint.ahead_attemptError job attempt later)
    · exact hmade _ rfl
  | mark job attempt later =>
    cases hn
    rcases r with e | u
    · exact hkeep _ (WorkerPoint.ahead_attemptError job attempt later) rfl
    · exact hkeep _ rfl rfl
  | commit job attempt later =>
    cases hn
    rcases r with e | u
    · exact hkeep _ (WorkerPoint.ahead_attemptError job attempt later) rfl
    · exact hnone _ rfl
  | count job attempt later =>
    cases hn
    cases hx with
    | failed hst => cases hst
    | inc => exact hnext _ _
  | backoff job attempt later =>
    cases hn
    rcases r with e | u
    · exact hnone _ rfl
    · exact hkeep _ (WorkerPoint.ahead_nextAttempt job later) rfl
  | markFailed job =>
    cases hn
    rcases r with e | u
    · exact hnone _ rfl
    · exact hkeep _ rfl rfl
  | commitFailed job =>
    cases hn
    exact hnone _ rfl
  | countFailed job =>
    cases hn
    rcases r with e | u
    · exact hnone _ rfl
    · exact hnext _ _
  | close polls => cases hn; exact hnone _ rfl
  | pause polls =>
    cases hn
    rcases r with e | u
    · exact hnone _ rfl
    · intro e n he
      cases polls <;> cases he
  | stopped res => rcases res with e | u <;> cases hn

theorem Reached.tries (h : Reached t role tr w) (hp : w.procs p = .worker W pt) : Tries p tr pt := by
  refine Reached.of_worker (Φ := fun tr p pt _ => Tries p tr pt) ?_ ?_ id ?_ h hp
  · intro p polls e n he
    cases polls <;> cases he
  · intro tr p pt _ l hl hT e n he
    rw [publishCallsBy_other hl]
    exact hT e n he
  · intro _ _ _ _ _ _ _ _ _ hn hx hT
    exact hT.step hn hx

/-- **An event is given up only after `MAX_RETRIES` calls of `publish`**, all by one worker,
whatever else fails in the run and whatever other workers do. -/
theorem given_up_after_retries (h : Reached .empty role tr w) :
    ∀ e ∈ w.db.committed.outboxEvents, e.status = .failed →
    ∃ p, maxRetries ≤ publishCallsBy p e.id tr := by
  refine Run.invariant (I := fun tr w => ∀ e ∈ w.db.committed.outboxEvents, e.status = .failed →
    ∃ p, maxRetries ≤ publishCallsBy p e.id tr) ?_ ?_ h
  · nofun
  · intro tr w l w' hrun hI hs e he hst
    have hkeep : ∀ e ∈ w.db.committed.outboxEvents, e.status = .failed →
        ∃ p, maxRetries ≤ publishCallsBy p e.id (l :: tr) := by
      intro e he hst
      obtain ⟨p, hp⟩ := hI e he hst
      exact ⟨p, hp.trans (publishCallsBy_le ..)⟩
    cases Reached.commits hrun hs with
    | same ht => exact hkeep e (ht ▸ he) hst
    | created p a m event t r _ _ hm ht =>
      rw [ht] at he
      rcases List.mem_append.1 he with he | he
      · exact hkeep e he hst
      · rw [List.mem_singleton.1 he] at hst
        exact absurd (hm.status.symm.trans hst) (by decide)
    | settled p W pt id status r hl _ hp _ hw ht =>
      rw [ht] at he
      obtain ⟨e', he', rfl⟩ := List.mem_map.1 he
      rw [OutboxEventModel.setStatus_id]
      unfold OutboxEventModel.setStatus at hst
      split at hst
      · rename_i hid
        -- a worker that commits `failed` has made all attempts
        cases pt with
        | commit job attempt later => cases hw; cases hst
        | commitFailed job =>
          cases hw
          have htries := Reached.tries hrun hp job.event.id 0 rfl
          rw [hid]
          exact ⟨p, (by omega : maxRetries ≤ publishCallsBy p job.event.id tr).trans (publishCallsBy_le ..)⟩
        | _ => cases hw
      · exact hkeep e' he' hst

/-- SQS takes no message, and the event is given up. -/
theorem given_up_after_retries_sample : ∃ tr w, Reached .empty sampleRole tr w ∧
    ∃ e ∈ w.db.committed.outboxEvents, e.status = .failed ∧
    ∃ p, maxRetries ≤ publishCallsBy p e.id tr := by
  obtain ⟨tr, ⟨procs, _, _⟩, m, h, rfl, rfl, hproc, -⟩ :=
    sample_run (R := fun _ _ => True) (t := sampleTime 0) trivial
  have hlimit : ([sampleRow (sampleTime 0)].filter fun row => row.status = .pending).length ≤ 10 := by decide
  have h1 := h.forget.step (.worker (p := false) trivial hproc rfl
    (.selectPending 10 [sampleRow (sampleTime 0)] trivial
      (fetched_of_unlocked (free_of_other rfl) (List.pairwise_singleton _ _) hlimit)))
  have h2 := h1.step (.worker (p := false) trivial rfl rfl (.publishFailed _ _ false))
  have h3 := h2.step (.worker (p := false) trivial rfl rfl (.sleep _))
  have h4 := h3.step (.worker (p := false) trivial rfl rfl (.publishFailed _ _ false))
  have h5 := h4.step (.worker (p := false) trivial rfl rfl (.sleep _))
  have h6 := h5.step (.worker (p := false) trivial rfl rfl (.publishFailed _ _ false))
  have h7 := h6.step (.worker (p := false) trivial rfl rfl (.updateStatus _ _ trivial ⟨_, .head _, rfl⟩
    (free_of_other rfl _)))
  have h8 := h7.step (.worker (p := false) trivial rfl rfl (.commit trivial))
  exact ⟨_, _, h8, _, .head _, rfl, given_up_after_retries h8 _ (.head _) rfl⟩

end Runs

end OrdersApi
