import OrdersApi.Proof.Deadlock
import OrdersApi.Proof.Effort
import OrdersApi.Spec.Holding

/-!
# Locks are short

A party that holds locks lets go of all of them within a number of its own operations that
depends on nothing but `MAX_RETRIES`, not even on the size of the batch it has locked, and
never calls the requester service meanwhile (`locks_released`). The potential of a state
(`World.hold`) is what the party may spend until its locks are gone; without locks it is 0.
-/

namespace OrdersApi

open TxStore Trace Effect

variable {P : Type} [DecidableEq P] {t : ValidTables} {role : P → Role} {tr tr' : List (Event P)}
  {w w' : World P}
  {p : P} {l : Event P} {db db' : Db P} {o : Op} {r : Except Exc (Op.Resp o)} {cost : Op → ℕ} {n : ℕ}

/-! ## Requests -/

section Call

variable {a : CallArgs} {pt : CallPoint} {k : Except Exc (Op.Resp o) → CallPoint}

/-- Outside of these points a request holds no lock. -/
def CallPoint.Unlocked (pt : CallPoint) (s : Session Write Lock) : Prop := ¬ pt.inside → s.locks = []

theorem CallPoint.inside_of_locks {s : Session Write Lock} (h : pt.Unlocked s) (hs : s.locks ≠ []) :
    pt.inside := by
  by_contra hpt
  exact hs (h hpt)

theorem CallPoint.hold_le (pt : CallPoint) : pt.hold ≤ 3 := by
  unfold hold
  split <;> omega

theorem CallPoint.inside_op (h : pt.inside) (hn : pt.node a = .op o k) :
    o = .now ∨ (∃ m, o = .insertOutboxEvent m) ∨ o = .commit := by
  cases pt with
  | eventClock created event => cases hn; exact .inl rfl
  | insertEvent created event m => cases hn; exact .inr (.inl ⟨m, rfl⟩)
  | commit created event => cases hn; exact .inr (.inr rfl)
  | _ => exact absurd h id

/-- A statement that is refused leaves no lock. -/
theorem Exec.refused_locks {e : Exc} (hx : Exec db p o (.error e) db') (ho : o.isStatement) :
    (db'.session p).locks = [] := by
  generalize hr : (.error e : Except Exc (Op.Resp o)) = r at hx
  cases hx with
  | failed _ hf => exact hf.locks_nil
  | insertOrderConflict => rw [Store.abort_self]; rfl
  | insertOutboxEventConflict => rw [Store.abort_self]; rfl
  | selectOrder => cases hr
  | insertOrder => cases hr
  | insertOutboxEvent => cases hr
  | selectPending => cases hr
  | updateStatus => cases hr
  | updateNoRow => cases hr
  | _ => cases ho

theorem CallPoint.Unlocked.step (h : pt.Unlocked (db.session p)) (hn : pt.node a = .op o k)
    (hx : Exec db p o r db') : (k r).Unlocked (db'.session p) := by
  cases pt with
  | insertOrder m event =>
    cases hn
    rcases r with e | u
    · exact fun _ => hx.refused_locks rfl
    · exact fun hout => absurd trivial hout
  | eventClock created event =>
    cases hn
    cases hx with
    | failed hst => cases hst
    | now => exact fun hout => absurd trivial hout
  | insertEvent created event m =>
    cases hn
    rcases r with e | u
    · exact fun _ => hx.refused_locks rfl
    · exact fun hout => absurd trivial hout
  | commit created event => cases hn; exact fun _ => exec_commit_locks hx
  | done res => rcases res with e | v <;> cases hn
  -- no other operation takes a lock
  | _ => cases hn; exact fun _ => hx.locks_nil (h id) fun _ => id

theorem Reached.callUnlocked (h : Reached t role tr w) (hp : w.procs p = .call a pt) :
    pt.Unlocked (w.db.session p) := by
  refine Reached.of_call (Φ := fun _ pt s => pt.Unlocked s) ?_ ?_ ?_ h hp
  · exact fun _ _ => rfl
  · exact fun _ _ => rfl
  · intro _ _ _ _ _ _ _ _ _ _ _ hn hx hI
    exact hI.step hn hx

/-- **A request's operation brings it nearer to the end of its transaction.** -/
theorem CallPoint.hold_step (hpt : pt.inside) (hn : pt.node a = .op o k) (hx : Exec db p o r db') :
    1 + (if (db'.session p).locks = [] then 0 else (k r).hold) ≤ pt.hold := by
  cases pt with
  | eventClock created event =>
    cases hn
    cases hx with
    | failed hst => cases hst
    | now =>
      simp only [hold]
      split <;> omega
  | insertEvent created event m =>
    cases hn
    rcases r with e | u
    · rw [if_pos (hx.refused_locks rfl)]
      simp [hold]
    · simp only [hold]
      split <;> omega
  | commit created event =>
    cases hn
    rw [if_pos (exec_commit_locks hx)]
    simp [hold]
  | _ => exact absurd hpt id

end Call

/-! ## Workers -/

section Worker

variable {W : OutboxWorker} {pt : WorkerPoint} {k : Except Exc (Op.Resp o) → WorkerPoint}
  {event : OutboxEvent}

theorem attemptsHold_suffix {attempts attempts' : List ℕ} (h : attempts <:+ attempts') :
    attemptsHold cost event attempts ≤ attemptsHold cost event attempts' := by
  induction attempts' with
  | nil => rw [List.suffix_nil.1 h]
  | cons attempt later ih =>
    rcases List.suffix_cons_iff.1 h with rfl | h
    · exact le_rfl
    · have hlater := ih h
      simp only [attemptsHold]
      omega

namespace WorkerPoint

variable (job : Job) (attempt polls : ℕ) (later : List ℕ) (events : List OutboxEvent)

@[simp] theorem hold_nextAttempt :
    (nextAttempt job later).hold cost = attemptsHold cost job.event later := by
  cases later <;> rfl

theorem hold_attemptError :
    (attemptError job attempt later).hold cost ≤ backoffCost cost attempt + attemptsHold cost job.event later := by
  unfold attemptError
  split
  · exact le_rfl
  · rw [hold_nextAttempt]
    omega

variable {job attempt later}

theorem onSchedule_nextAttempt (h : later <:+ List.range maxRetries) :
    (nextAttempt job later).OnSchedule := by
  cases later with
  | nil => trivial
  | cons attempt later => exact h

theorem onSchedule_attemptError (h : attempt :: later <:+ List.range maxRetries) :
    (attemptError job attempt later).OnSchedule := by
  unfold attemptError
  split
  · rename_i hlt
    exact ⟨hlt, h⟩
  · exact onSchedule_nextAttempt ((List.suffix_cons attempt later).trans h)

theorem onSchedule_nextEvent : (nextEvent polls events).OnSchedule := by
  cases events with
  | nil => trivial
  | cons event batch => exact onSchedule_nextAttempt (List.suffix_refl _)

theorem onSchedule_poll : (poll polls).OnSchedule := by cases polls <;> trivial

theorem OnSchedule.step (h : pt.OnSchedule) (hn : pt.node W = .op o k) : (k r).OnSchedule := by
  cases pt with
  | fetch polls =>
    cases hn
    rcases r with e | rows
    · trivial
    · exact onSchedule_nextEvent _ _
  | publish job attempt later =>
    cases hn
    rcases r with e | u
    · exact onSchedule_attemptError h
    · exact h
  | mark job attempt later =>
    cases hn
    rcases r with e | u
    · exact onSchedule_attemptError h
    · exact h
  | commit job attempt later =>
    cases hn
    rcases r with e | u
    · exact onSchedule_attemptError h
    · exact h
  | count job attempt later =>
    cases hn
    rcases r with e | u
    · exact onSchedule_attemptError h
    · exact onSchedule_nextEvent _ _
  | backoff job attempt later =>
    cases hn
    rcases r with e | u
    · trivial
    · exact onSchedule_nextAttempt ((List.suffix_cons attempt later).trans h.2)
  | markFailed job => cases hn; rcases r with e | u <;> trivial
  | commitFailed job => cases hn; trivial
  | countFailed job =>
    cases hn
    rcases r with e | u
    · trivial
    · exact onSchedule_nextEvent _ _
  | close polls => cases hn; trivial
  | pause polls =>
    cases hn
    rcases r with e | u
    · trivial
    · exact onSchedule_poll _
  | stopped res => rcases res with e | u <;> cases hn

/-- What is left of an event on schedule is part of all its attempts. -/
theorem OnSchedule.hold_le (h : pt.OnSchedule) {n : ℕ}
    (hn : ∀ event, attemptsHold cost event (List.range maxRetries) ≤ n) : pt.hold cost ≤ n := by
  have hattempts : ∀ {event attempts}, attempts <:+ List.range maxRetries →
      attemptsHold cost event attempts ≤ n :=
    fun hs => (attemptsHold_suffix hs).trans (hn _)
  cases pt with
  | publish job attempt later => exact hattempts h
  | mark job attempt later =>
    have hall : attemptsHold cost job.event (attempt :: later) ≤ n := hattempts h
    simp only [attemptsHold, hold] at hall ⊢
    omega
  | commit job attempt later =>
    have hall : attemptsHold cost job.event (attempt :: later) ≤ n := hattempts h
    simp only [attemptsHold, hold] at hall ⊢
    omega
  | backoff job attempt later =>
    have hall : attemptsHold cost job.event (attempt :: later) ≤ n := hattempts h.2
    simp only [attemptsHold, hold] at hall ⊢
    omega
  | markFailed job => exact hattempts List.nil_suffix
  | commitFailed job =>
    have hall : attemptsHold cost job.event [] ≤ n := hattempts List.nil_suffix
    simp only [attemptsHold, hold] at hall ⊢
    omega
  | _ => exact Nat.zero_le _

/-- **A worker's operation costs what it gives up** of the transaction. -/
theorem hold_step (h : pt.OnSchedule) (hpt : pt.current ≠ none) (hn : pt.node W = .op o k)
    (hx : Exec db p o r db') :
    cost o + (if (db'.session p).locks = [] then 0 else (k r).hold cost) ≤ pt.hold cost := by
  have hle : ∀ x, (if (db'.session p).locks = [] then 0 else x) ≤ x := by
    intro x
    split
    · exact Nat.zero_le x
    · exact le_rfl
  cases pt with
  | publish job attempt later =>
    cases hn
    refine (Nat.add_le_add_left (hle _) _).trans ?_
    have hpt : (publish job attempt later).hold cost = attemptsHold cost job.event (attempt :: later) := rfl
    rw [hpt, attemptsHold]
    refine Nat.add_le_add_left ?_ _
    rcases r with e | u
    · exact (hold_attemptError job attempt later).trans (le_max_right _ _)
    · exact le_max_left _ _
  | mark job attempt later =>
    cases hn
    rcases r with e | u
    · rw [if_pos (hx.refused_locks rfl)]
      simp only [hold]
      omega
    · exact Nat.add_le_add_left (hle _) _
  | commit job attempt later =>
    cases hn
    rw [if_pos (exec_commit_locks hx)]
    exact le_rfl
  | backoff job attempt later =>
    cases hn
    refine (Nat.add_le_add_left (hle _) _).trans ?_
    cases hx with
    | failed hst => cases hst
    | sleep =>
      rw [hold_nextAttempt]
      simp only [hold, backoffCost, if_pos h.1]
      exact le_rfl
  | markFailed job =>
    cases hn
    rcases r with e | u
    · rw [if_pos (hx.refused_locks rfl)]
      simp only [hold, attemptsHold]
      omega
    · exact Nat.add_le_add_left (hle _) _
  | commitFailed job =>
    cases hn
    rw [if_pos (exec_commit_locks hx)]
    exact le_rfl
  | _ => exact absurd rfl hpt

end WorkerPoint

theorem Reached.onSchedule (h : Reached t role tr w) (hp : w.procs p = .worker W pt) :
    pt.OnSchedule := by
  refine Reached.of_worker (Φ := fun _ _ pt _ => pt.OnSchedule) ?_ (fun _ => id) id ?_ h hp
  · exact fun _ polls => WorkerPoint.onSchedule_poll polls
  · intro _ _ _ _ _ _ _ _ _ hn _ hI
    exact hI.step hn

end Worker

/-! ## Every reached state -/

/-- What a step costs party `p`. -/
def Event.spends (cost : Op → ℕ) (p : P) : Event P → ℕ
  | .exec q o _ => if q = p then cost o else 0
  | _ => 0

theorem Event.spends_other (hl : ∀ o r, l ≠ .exec p o r) : l.spends cost p = 0 := by
  cases l with
  | exec q o r =>
    have hq : q ≠ p := fun e => hl o r (by rw [e])
    simp [Event.spends, hq]
  | die => rfl
  | abort => rfl

theorem sum_spends (cost : Op → ℕ) (p : P) (tr : List (Event P)) :
    (tr.map (Event.spends cost p)).sum = total (fun c => cost c.1) (callsOf p tr) := by
  induction tr with
  | nil => rfl
  | cons l tr ih =>
    rw [List.map_cons, List.sum_cons, ih]
    cases l with
    | exec q o r => by_cases hq : q = p <;> simp [Event.spends, callsOf, hq]
    | die => simp [Event.spends, callsOf]
    | abort => simp [Event.spends, callsOf]

/-- What party `p` may spend until its locks are gone, where an operation of a request costs
at most `n`. -/
def World.hold (cost : Op → ℕ) (n : ℕ) (p : P) (w : World P) : ℕ :=
  if (w.db.session p).locks = [] then 0 else
    match w.procs p with
    | .call _ pt => n * pt.hold
    | .worker _ pt => pt.hold cost

/-- **Holding locks is paid for**: a step costs a party that holds locks what it gives up. -/
theorem Reached.hold_step (h : Reached t role tr w) (hs : Step w l w')
    (hlocks : (w.db.session p).locks ≠ [])
    (hn : ∀ a pt o k, CallPoint.inside pt → pt.node a = .op o k → cost o ≤ n) :
    l.spends cost p + w'.hold cost n p ≤ w.hold cost n p := by
  cases h.fate hs p with
  | other hl hp hsess _ =>
    rw [Event.spends_other hl]
    simp only [World.hold, hp, hsess]
    omega
  | call a pt o k r hl hp hnode hx hnext =>
    subst hl
    have hpt := CallPoint.inside_of_locks (h.callUnlocked hp) hlocks
    have hcost := hn a pt o k hpt hnode
    have hstep := Nat.mul_le_mul_left n (CallPoint.hold_step hpt hnode hx)
    rw [Nat.mul_add, Nat.mul_one, mul_ite, Nat.mul_zero] at hstep
    simp only [World.hold, hp, hnext, if_neg hlocks, Event.spends, if_true]
    omega
  | worker W pt o k r hl _ _ hp hnode hx hnext =>
    subst hl
    have hcurrent : pt.current ≠ none := by
      intro hnone
      have hL := h.locks p
      rw [hp] at hL
      exact hlocks (WorkerLocks.locks_nil hL hnone)
    simp only [World.hold, hp, hnext, if_neg hlocks, Event.spends, if_true]
    exact WorkerPoint.hold_step (h.onSchedule hp) hcurrent hnode hx
  | died hl hp hsess _ =>
    rw [Event.spends_other (fun o r he => by cases hl ▸ he)]
    simp only [World.hold, hp, hsess]
    omega
  | aborted hl tx htx hp hsess =>
    rw [Event.spends_other (fun o r he => by cases hl ▸ he)]
    simp [World.hold, hsess]

/-- A bound for each role, where an operation of a request costs at most `n`. -/
def Role.most (n b : ℕ) : Role → ℕ
  | call _ => n * 3
  | worker _ _ => b

/-- A party has at most a transaction of its role ahead. -/
theorem Reached.hold_le (h : Reached t role tr w) (p : P) (cost : Op → ℕ) (n : ℕ) {b : ℕ}
    (hb : ∀ event, attemptsHold cost event (List.range maxRetries) ≤ b) :
    w.hold cost n p ≤ (role p).most n b := by
  unfold World.hold
  split
  · exact Nat.zero_le _
  cases hr : role p with
  | call a =>
    have hwalk := h.walked p
    rw [hr] at hwalk
    cases hp : w.procs p with
    | worker W pt => rw [hp] at hwalk; exact hwalk.elim
    | call a' pt => exact Nat.mul_le_mul_left n pt.hold_le
  | worker W polls =>
    obtain ⟨pt, hp, -⟩ := h.worker_path hr
    rw [hp]
    exact (h.onSchedule hp).hold_le hb

/-- **What a party spends while it holds locks**, whatever the cost of an operation. -/
theorem Reached.hold_spent (h : Reached t role tr w)
    (h' : Run (Guarded Step (Holding p)) w tr' w') {b : ℕ}
    (hn : ∀ a pt o k, CallPoint.inside pt → pt.node a = .op o k → cost o ≤ n)
    (hb : ∀ event, attemptsHold cost event (List.range maxRetries) ≤ b) :
    total (fun c => cost c.1) (callsOf p tr') ≤ (role p).most n b := by
  have hspent := h'.spent (Event.spends cost p) (World.hold cost n p) fun tr₀ w₀ l w₁ hrun hs => by
    have hreach : Reached t role (tr₀ ++ tr) w₀ := h.append hrun.forget
    exact hreach.hold_step hs.1 hs.2 hn
  have hle := h.hold_le p cost n hb
  rw [sum_spends] at hspent
  omega

/-- **Locks are short.** While a party holds locks it awaits at most three operations as a
request and `2 * MAX_RETRIES + 1` as a worker, whatever the size of its batch and whatever
they answer; it sleeps for at most all retry delays but the last, a request not at all; and
it does not call the requester service. -/
theorem locks_released (h : Reached t role tr w) (h' : Run (Guarded Step (Holding p)) w tr' w') :
    (callsOf p tr').length ≤ (role p).hold ∧
    total (fun c => sleepCost c.1) (callsOf p tr') ≤ (role p).holdSleep ∧
    ∀ c ∈ callsOf p tr', ∀ baseUrl path, c.1 ≠ .get baseUrl path := by
  refine ⟨?_, ?_, ?_⟩
  · have hworker : ∀ event, attemptsHold (fun _ => 1) event (List.range maxRetries) ≤ 2 * maxRetries + 1 := by
      intro event
      simp [attemptsHold, backoffCost, maxRetries, retryDelays, List.range_succ]
    have hspent := h.hold_spent h' (fun _ _ _ _ _ _ => le_rfl) hworker
    have hlength : (callsOf p tr').length = total (fun _ => 1) (callsOf p tr') := by simp [total]
    rw [hlength]
    refine hspent.trans (le_of_eq ?_)
    cases role p <;> rfl
  · have hcall : ∀ a pt o k, CallPoint.inside pt → pt.node a = .op o k → sleepCost o ≤ 0 := by
      intro a pt o k hpt hn
      obtain rfl | ⟨m, rfl⟩ | rfl := CallPoint.inside_op hpt hn <;> exact le_rfl
    have hworker : ∀ event, attemptsHold sleepCost event (List.range maxRetries) ≤
        (retryDelays.take (maxRetries - 1)).sum := by
      intro event
      simp [attemptsHold, backoffCost, sleepCost, maxRetries, retryDelays, List.range_succ]
    refine (h.hold_spent h' hcall hworker).trans (le_of_eq ?_)
    cases role p <;> rfl
  · have hcall : ∀ a pt o k, CallPoint.inside pt → pt.node a = .op o k → getCost o ≤ 0 := by
      intro a pt o k hpt hn
      obtain rfl | ⟨m, rfl⟩ | rfl := CallPoint.inside_op hpt hn <;> exact le_rfl
    have hworker : ∀ event, attemptsHold getCost event (List.range maxRetries) ≤ 0 := by
      intro event
      simp [attemptsHold, backoffCost, getCost, maxRetries, retryDelays, List.range_succ]
    have hspent := h.hold_spent h' hcall hworker
    have hzero : total (fun c => getCost c.1) (callsOf p tr') = 0 := by
      have hrole : (role p).most 0 0 = 0 := by cases role p <;> rfl
      omega
    -- a call of the requester service would cost something
    intro c hc baseUrl path hget
    have hcost := List.sum_eq_zero_iff_forall_eq_nat.1 hzero _ (List.mem_map_of_mem hc)
    rw [hget] at hcost
    cases hcost

/-- The third publish succeeds: the worker holds the lock of its event as long as it can. -/
theorem locks_released_sample : ∃ tr w tr' w', Reached .empty sampleRole tr w ∧
    Run (Guarded Step (Holding false)) w tr' w' ∧ (callsOf false tr').length = (sampleRole false).hold ∧
    total (fun c => sleepCost c.1) (callsOf false tr') = (sampleRole false).holdSleep ∧
    (callsOf false tr').length ≤ (sampleRole false).hold ∧
    ∀ c ∈ callsOf false tr', ∀ baseUrl path, c.1 ≠ .get baseUrl path := by
  obtain ⟨tr, ⟨procs, _, _⟩, m, h, rfl, rfl, hproc, -⟩ :=
    sample_run (R := fun _ _ => True) (t := sampleTime 0) trivial
  have hlimit : ([sampleRow (sampleTime 0)].filter fun row => row.status = .pending).length ≤ 10 := by decide
  have h1 := h.forget.step (.worker (p := false) trivial hproc rfl
    (.selectPending 10 [sampleRow (sampleTime 0)] trivial
      (fetched_of_unlocked (free_of_other rfl) (List.pairwise_singleton _ _) hlimit)))
  have r0 := h1.under (Holding false)
  have r1 := r0.step ⟨.worker (p := false) trivial rfl rfl (.publishFailed _ _ false), List.cons_ne_nil _ _⟩
  have r2 := r1.step ⟨.worker (p := false) trivial rfl rfl (.sleep _), List.cons_ne_nil _ _⟩
  have r3 := r2.step ⟨.worker (p := false) trivial rfl rfl (.publishFailed _ _ false), List.cons_ne_nil _ _⟩
  have r4 := r3.step ⟨.worker (p := false) trivial rfl rfl (.sleep _), List.cons_ne_nil _ _⟩
  have r5 := r4.step ⟨.worker (p := false) trivial rfl rfl (.published _ _), List.cons_ne_nil _ _⟩
  have r6 := r5.step ⟨.worker (p := false) trivial rfl rfl (.updateStatus _ _ trivial ⟨_, .head _, rfl⟩
    (free_of_other rfl _)), List.cons_ne_nil _ _⟩
  have r7 := r6.step ⟨.worker (p := false) trivial rfl rfl (.commit trivial), List.cons_ne_nil _ _⟩
  obtain ⟨hlength, -, hget⟩ := locks_released h1 r7
  exact ⟨_, _, _, _, h1, r7, rfl, rfl, hlength, hget⟩

end OrdersApi
