import OrdersApi.Lib.Total
import OrdersApi.Proof.Commits
import OrdersApi.Spec.Drain

/-!
# The worker on one event

When nothing but `publish` fails, the worker has one execution for an event, and the
stream of outcomes determines it (`total_processEvent`).
-/

namespace OrdersApi

open TxStore Effect OutboxWorker

variable {P : Type} [DecidableEq P] {stream : ℕ → Outcome} {p : P} {s s' : Log P} {event : OutboxEvent}

/-! ## Operations -/

/-- No session but that of `p` has a transaction, and that one has written nothing. -/
structure Ready (p : P) (db : Db P) : Prop where
  alone : ∀ q, q ≠ p → db.session q = .idle
  usable : (db.session p).Usable
  writes : (db.session p).writes = []

omit [DecidableEq P] in
theorem Ready.free {db : Db P} (h : Ready p db) (k : Lock) : db.Free p k := by
  intro q hq
  rw [h.alone q hq]
  exact List.not_mem_nil

omit [DecidableEq P] in
theorem Ready.view {db : Db P} (h : Ready p db) : db.view schema p = db.committed :=
  view_of_nil (.inr h.writes)

/-- The log after an operation. -/
def Log.after (s : Log P) (o : Op) (r : Except Exc (Op.Resp o)) (db : Db P) : Log P :=
  ⟨db, ⟨o, r⟩ :: s.calls⟩

section Operations

variable {o : Op} {r₀ : Except Exc (Op.Resp o)} {db₀ : Db P} {α : Type}
  {Q : Except Exc α → Log P → Prop}

/-- An operation with one outcome that the stream allows. -/
theorem total_quiet {k : Except Exc (Op.Resp o) → Prog α}
    (hdet : ∀ r db', Exec s.db p o r db' ∧ Answers stream (publishes s.calls) o r ↔ r = r₀ ∧ db' = db₀) :
    Total (Quiet stream p) (.op o k : Prog α) s Q ↔
    Total (Quiet stream p) (k r₀) (s.after o r₀ db₀) Q := by
  refine total_det (S := effects) fun r s' => ⟨fun ⟨hx, ha, hc⟩ => ?_, ?_⟩
  · obtain ⟨rfl, hdb⟩ := (hdet r s'.db).1 ⟨hx, ha⟩
    obtain ⟨db, calls⟩ := s'
    cases hdb; cases hc
    exact ⟨rfl, rfl⟩
  · rintro ⟨rfl, rfl⟩
    obtain ⟨hx, ha⟩ := (hdet r db₀).2 ⟨rfl, rfl⟩
    exact ⟨hx, ha, rfl⟩

theorem total_publish {body : String} {k : Except Exc Unit → Prog α} :
    Total (Quiet stream p) (.op (.publish event body) k : Prog α) s Q ↔
      Total (Quiet stream p) (k ((stream (publishes s.calls)).mapError .publishError))
        (s.after (.publish event body) ((stream (publishes s.calls)).mapError .publishError) s.db) Q := by
  refine total_quiet fun r db' => ⟨fun ⟨hx, ha⟩ => ⟨ha, ?_⟩, ?_⟩
  · cases hx with
    | failed hst => cases hst
    | _ => rfl
  · rintro ⟨rfl, rfl⟩
    refine ⟨?_, rfl⟩
    rcases stream (publishes s.calls) with handed | u
    · exact .publishFailed event body handed
    · exact .published event body

theorem total_update {e : UUID} {status : OutboxStatus} {k : Except Exc Unit → Prog α}
    (hready : Ready p s.db)
    (hrow : ∃ row ∈ s.db.committed.outboxEvents, row.id = e) :
    Total (Quiet stream p) (.op (.updateStatus e status) k : Prog α) s Q ↔
      Total (Quiet stream p) (k (.ok ())) (s.after (.updateStatus e status) (.ok ())
        (s.db.extend p [.setStatus e status] [.eventRow e])) Q := by
  rw [← hready.view] at hrow
  refine total_quiet fun r db' => ⟨fun ⟨hx, v, ha⟩ => ?_, ?_⟩
  · cases hx with
    | failed => cases ha
    | updateStatus => exact ⟨rfl, rfl⟩
    | updateNoRow _ _ _ hno =>
      obtain ⟨row, hmem, hid⟩ := hrow
      exact absurd hid (hno row hmem)
  · rintro ⟨rfl, rfl⟩
    exact ⟨.updateStatus e status hready.usable hrow (hready.free _), (), rfl⟩

theorem total_commit {k : Except Exc Unit → Prog α} (hu : (s.db.session p).Usable) :
    Total (Quiet stream p) (.op .commit k : Prog α) s Q ↔
      Total (Quiet stream p) (k (.ok ())) (s.after .commit (.ok ()) (s.db.commit schema p)) Q := by
  refine total_quiet fun r db' => ⟨fun ⟨hx, v, ha⟩ => ?_, ?_⟩
  · cases hx with
    | failed => cases ha
    | commit => exact ⟨rfl, rfl⟩
    | commitFailed => cases ha
    | commitLost => cases ha
  · rintro ⟨rfl, rfl⟩
    exact ⟨.commit hu, (), rfl⟩

theorem total_close {k : Except Exc Unit → Prog α} :
    Total (Quiet stream p) (.op .close k : Prog α) s Q ↔
      Total (Quiet stream p) (k (.ok ())) (s.after .close (.ok ()) (s.db.rollback p)) Q := by
  refine total_quiet fun r db' => ⟨fun ⟨hx, v, ha⟩ => ?_, ?_⟩
  · cases hx with
    | failed => cases ha
    | close => exact ⟨rfl, rfl⟩
  · rintro ⟨rfl, rfl⟩
    exact ⟨.close, (), rfl⟩

theorem total_sleep {seconds : ℕ} {k : Except Exc Unit → Prog α} :
    Total (Quiet stream p) (.op (.sleep seconds) k : Prog α) s Q ↔
      Total (Quiet stream p) (k (.ok ())) (s.after (.sleep seconds) (.ok ()) s.db) Q := by
  refine total_quiet fun r db' => ⟨fun ⟨hx, v, ha⟩ => ?_, ?_⟩
  · cases hx with
    | failed => cases ha
    | sleep => exact ⟨rfl, rfl⟩
  · rintro ⟨rfl, rfl⟩
    exact ⟨.sleep seconds, (), rfl⟩

theorem total_inc {counter : Counter} {k : Except Exc Unit → Prog α} :
    Total (Quiet stream p) (.op (.inc counter) k : Prog α) s Q ↔
      Total (Quiet stream p) (k (.ok ())) (s.after (.inc counter) (.ok ()) s.db) Q := by
  refine total_quiet fun r db' => ⟨fun ⟨hx, v, ha⟩ => ?_, ?_⟩
  · cases hx with
    | failed => cases ha
    | inc => exact ⟨rfl, rfl⟩
  · rintro ⟨rfl, rfl⟩
    exact ⟨.inc counter, (), rfl⟩

end Operations

/-! ## One event -/

/-- The outcomes of at most `m` attempts, from the `n`-th outcome of the stream on. -/
def attempts (stream : ℕ → Outcome) : (m n : ℕ) → List Outcome
  | 0, _ => []
  | m + 1, n => if stream n = .ok () then [.ok ()] else stream n :: attempts stream m (n + 1)

/-- The attempts take the outcomes in the order of the stream. -/
theorem attempts_eq (stream : ℕ → Outcome) (m n : ℕ) :
    attempts stream m n = (List.range' n (attempts stream m n).length).map stream := by
  induction m generalizing n with
  | zero => rfl
  | succ m ih =>
    unfold attempts
    split
    · next hout => simp [hout]
    · rw [List.length_cons, List.range'_succ, List.map_cons, ← ih]

theorem tried_attempts (stream : ℕ → Outcome) (n : ℕ) : Tried (attempts stream maxRetries n) := by
  have htried : ∀ m n, (∃ failures, attempts stream m n = failures ++ [.ok ()] ∧ failures.length < m ∧
      .ok () ∉ failures) ∨ ((attempts stream m n).length = m ∧ .ok () ∉ attempts stream m n) := by
    intro m
    induction m with
    | zero => exact fun n => .inr ⟨rfl, List.not_mem_nil⟩
    | succ m ih =>
      intro n
      unfold attempts
      split
      · exact .inl ⟨[], rfl, m.succ_pos, List.not_mem_nil⟩
      · next hfail =>
        have hfail : .ok () ≠ stream n := fun h => hfail h.symm
        rcases ih (n + 1) with ⟨failures, heq, hlen, hno⟩ | ⟨hlen, hno⟩
        · exact .inl ⟨stream n :: failures, by rw [heq]; rfl, Nat.succ_lt_succ hlen, by simp [hfail, hno]⟩
        · exact .inr ⟨by rw [List.length_cons, hlen], by simp [hfail, hno]⟩
  exact htried maxRetries n

/-- The log when the event has the status `status` and the operations `calls` were made. -/
def Log.settle (s : Log P) (p : P) (e : UUID) (status : OutboxStatus)
    (calls : List (effects.Call Exc)) : Log P where
  db := { committed := s.db.committed.apply (.setStatus e status), session := Function.update s.db.session p .idle }
  calls := calls.reverse ++ s.calls

theorem Ready.commit_extend {db : Db P} (h : Ready p db) (x : Write) (ks : List Lock) :
    (db.extend p [x] ks).commit schema p = ⟨db.committed.apply x, Function.update db.session p .idle⟩ := by
  unfold Store.commit
  congr 1
  · unfold Store.view
    rw [Store.extend_self, Session.writes_active, h.writes]
    rfl
  · unfold Store.extend Store.set
    exact Function.update_idem ..

/-- The log when further operations were made that left the database as it was. -/
def Log.extend (s : Log P) (calls : List (effects.Call Exc)) : Log P := ⟨s.db, calls.reverse ++ s.calls⟩

omit [DecidableEq P] in
@[simp] theorem extend_db (s : Log P) (calls : List (effects.Call Exc)) :
    (s.extend calls).db = s.db := rfl

omit [DecidableEq P] in
@[simp] theorem extend_nil (s : Log P) : s.extend [] = s := rfl

omit [DecidableEq P] in
theorem extend_extend (s : Log P) (calls calls' : List (effects.Call Exc)) :
    (s.extend calls).extend calls' = s.extend (calls ++ calls') := by
  simp [Log.extend]

theorem extend_settle (s : Log P) (e : UUID) (status : OutboxStatus)
    (calls calls' : List (effects.Call Exc)) :
    (s.extend calls).settle p e status calls' = s.settle p e status (calls ++ calls') := by
  simp [Log.extend, Log.settle]

omit [DecidableEq P] in
theorem publishes_extend (s : Log P) (calls : List (effects.Call Exc)) :
    publishes (s.extend calls).calls = publishes s.calls + publishes calls := by
  simp [Log.extend, publishes, Nat.add_comm]

section Event

variable {Q : Except Exc Bool → Log P → Prop}

/-- What follows a `publish` that returned. -/
theorem total_processed (hready : Ready p s.db)
    (hrow : ∃ row ∈ s.db.committed.outboxEvents, row.id = event.id) :
    Total (Quiet stream p) (do
      OutboxRepository.markProcessed event.id
      await .commit
      await (.inc .messagesProcessedTotal)
      return true) s Q ↔
    Q (.ok true) (s.settle p event.id .processed (settleCalls event .processed)) := by
  unfold OutboxRepository.markProcessed
  simp only [Prog.await_eq, Prog.op_bind]
  rw [total_update hready hrow]
  simp only [Prog.ofExcept_ok, Prog.ret_bind]
  rw [total_commit (by simp [Log.after])]
  simp only [Prog.ofExcept_ok, Prog.ret_bind]
  rw [total_inc]
  simp only [Prog.ofExcept_ok, Prog.ret_bind, Prog.pure_eq, total_ret, Log.after, hready.commit_extend]
  rfl

/-- The operations of a failed attempt. -/
def failedCalls (event : OutboxEvent) (i : ℕ) (handed : Bool) : List (effects.Call Exc) :=
  ⟨.publish event (Json.dumps event.payload), .error (.publishError handed)⟩ ::
    if i < maxRetries - 1 then [⟨.sleep (retryDelays.getD i 0), .ok ()⟩] else []

theorem total_attemptOnce {i : ℕ} (hready : Ready p s.db)
    (hrow : ∃ row ∈ s.db.committed.outboxEvents, row.id = event.id) :
    Total (Quiet stream p) ((attemptOnce event).tryCatch (onAttemptError i)) s Q ↔
      match stream (publishes s.calls) with
      | .ok _ => Q (.ok true) (s.settle p event.id .processed
          (⟨.publish event (Json.dumps event.payload), .ok ()⟩ :: settleCalls event .processed))
      | .error handed => Q (.ok false) (s.extend (failedCalls event i handed)) := by
  unfold attemptOnce SQSPublisher.publish
  rw [total_tryCatch]
  simp only [Prog.await_eq, Prog.op_bind]
  rw [total_publish]
  cases hout : stream (publishes s.calls) with
  | ok u =>
    simp only [Except.mapError, Prog.ofExcept_ok, Prog.ret_bind]
    -- a success is marked, committed and counted within the attempt
    have hsettle := extend_settle (p := p) s event.id .processed
      [⟨.publish event (Json.dumps event.payload), .ok ()⟩] (settleCalls event .processed)
    rw [List.singleton_append] at hsettle
    rw [← hsettle]
    exact total_processed (s := s.extend [⟨.publish event (Json.dumps event.payload), .ok ()⟩]) hready hrow
  | error handed =>
    simp only [Except.mapError, Prog.ofExcept_error, Prog.raise_bind, total_raise]
    unfold onAttemptError failedCalls
    split
    · simp only [Prog.await_eq, Prog.op_bind]
      rw [total_sleep]
      simp [Log.after, Log.extend]
    · simp [Log.after, Log.extend]

theorem total_tryAttempts {m i : ℕ} (hready : Ready p s.db)
    (hrow : ∃ row ∈ s.db.committed.outboxEvents, row.id = event.id) :
    Total (Quiet stream p) (tryAttempts event (List.range' i m)) s Q ↔
      if .ok () ∈ attempts stream m (publishes s.calls) then
        Q (.ok true) (s.settle p event.id .processed
          (attemptCalls event i (attempts stream m (publishes s.calls)) ++ settleCalls event .processed))
      else Q (.ok false) (s.extend (attemptCalls event i (attempts stream m (publishes s.calls)))) := by
  induction m generalizing i s with
  | zero => simp [tryAttempts, attempts, attemptCalls]
  | succ m ih =>
    rw [List.range'_succ, tryAttempts, total_bind, total_attemptOnce hready hrow]
    cases hout : stream (publishes s.calls) with
    | ok u =>
      have hattempts : attempts stream (m + 1) (publishes s.calls) = [.ok ()] := by
        rw [attempts, if_pos hout]
      simp [hattempts, attemptCalls, Except.mapError]
    | error handed =>
      -- the attempts that are left go on with the next outcome of the stream
      have hone : publishes (failedCalls event i handed) = 1 := by
        unfold failedCalls
        split <;> rfl
      have hattempts : attempts stream (m + 1) (publishes s.calls) =
          .error handed :: attempts stream m (publishes s.calls + 1) := by
        rw [attempts, if_neg (by rw [hout]; nofun), hout]
      have hcalls : ∀ later, attemptCalls event i (.error handed :: later) =
          failedCalls event i handed ++ attemptCalls event (i + 1) later := by
        intro later
        simp [attemptCalls, failedCalls, Except.mapError]
      simp only [Bool.false_eq_true, if_false]
      rw [ih (s := s.extend (failedCalls event i handed)) hready hrow, publishes_extend, hone, hattempts]
      simp only [List.mem_cons, reduceCtorEq, false_or, hcalls, extend_settle, extend_extend, List.append_assoc]

theorem total_giveUp {Q : Except Exc Unit → Log P → Prop} (hready : Ready p s.db)
    (hrow : ∃ row ∈ s.db.committed.outboxEvents, row.id = event.id) :
    Total (Quiet stream p) (giveUp event) s Q ↔
      Q (.ok ()) (s.settle p event.id .failed (settleCalls event .failed)) := by
  unfold giveUp OutboxRepository.markFailed
  rw [total_bind, total_tryCatch]
  simp only [Prog.await_eq, Prog.op_bind]
  rw [total_update hready hrow]
  simp only [Prog.ofExcept_ok, Prog.ret_bind]
  rw [total_commit (by simp [Log.after])]
  simp only [Prog.ofExcept_ok, total_ret]
  rw [total_inc]
  simp only [Prog.ofExcept_ok, total_ret, Log.after, hready.commit_extend]
  rfl

/-- **What the worker does for one event.** -/
theorem total_processEvent {Q : Except Exc Unit → Log P → Prop} {outcomes : List Outcome}
    (hready : Ready p s.db) (hrow : ∃ row ∈ s.db.committed.outboxEvents, row.id = event.id)
    (hout : outcomes = attempts stream maxRetries (publishes s.calls)) :
    Total (Quiet stream p) (processEvent event) s Q ↔
      Q (.ok ()) (s.settle p event.id (verdict outcomes)
        (attemptCalls event 0 outcomes ++ settleCalls event (verdict outcomes))) := by
  unfold processEvent
  rw [total_bind, List.range_eq_range', total_tryAttempts hready hrow, ← hout]
  unfold verdict
  split
  · simp
  · simp only [Bool.false_eq_true, if_false]
    rw [total_giveUp (s := s.extend _) hready hrow, extend_settle]

end Event

end OrdersApi
