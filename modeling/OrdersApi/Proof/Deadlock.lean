import OrdersApi.Proof.Agreement

/-!
# Deadlock freedom

A transaction that waits holds no lock and has written nothing. A request has no lock
before its order insert goes on, and its event insert never waits, because nobody else
has drawn the event's UUID (`CallLocks`). A worker's first transaction of a batch
holds the locks of the whole batch, but then the event under way is among them, and
every later transaction locks the event under way or nothing (`WorkerLocks`). So a
circle of waiting transactions cannot close.
-/

namespace OrdersApi

open TxStore Trace

variable {P : Type} {tr : List (Event P)} {p q : P} {l : Event P} {s : Session Write Lock}

/-! ## Locks -/

section Exec

variable [DecidableEq P] {db db' : Db P} {o : Op} {r : Except Exc (Op.Resp o)}

/-- The locks that an operation can take. -/
def Takes : (o : Op) → Except Exc (Op.Resp o) → Lock → Prop
  | .insertOrder model, _, k => k ∈ model.keys
  | .insertOutboxEvent model, _, k => k ∈ model.keys
  | .selectPending _, .ok rows, k => ∃ row ∈ rows, k = .eventRow row.id
  | .updateStatus eventId _, _, k => k = .eventRow eventId
  | _, _, _ => False

/-- A statement that fails leaves no lock: it has aborted the transaction, or there was none. -/
theorem Failed.locks_nil (h : Failed db p db') : (db'.session p).locks = [] := by
  cases h with
  | aborted => rw [Store.abort_self]; rfl
  | noConnection hn =>
    cases hs : db.session p with
    | active tx => exact absurd hs (hn tx)
    | _ => rfl

/-- After an operation a session holds locks that it had or that the operation took. -/
theorem Exec.locks (h : Exec db p o r db') :
    ∀ k ∈ (db'.session p).locks, k ∈ (db.session p).locks ∨ Takes o r k := by
  intro k hk
  cases h with
  | failed _ hf => rw [hf.locks_nil] at hk; exact absurd hk List.not_mem_nil
  | selectOrder => exact .inl (by simpa using hk)
  | insertOrder => simpa [Takes] using hk
  | insertOutboxEvent => simpa [Takes] using hk
  | selectPending =>
    simp only [Store.extend_self, Session.locks_active, List.mem_append, List.mem_map] at hk
    exact hk.imp_right fun ⟨row, hrow, he⟩ => ⟨row, hrow, he.symm⟩
  | updateStatus => simpa [Takes] using hk
  | updateNoRow => exact .inl (by simpa using hk)
  | get => exact .inl hk
  | uuid4 => exact .inl hk
  | now => exact .inl hk
  | published => exact .inl hk
  | publishFailed => exact .inl hk
  | sleep => exact .inl hk
  | inc => exact .inl hk
  | _ => simp at hk

/-- A session without locks that takes none has none. -/
theorem Exec.locks_nil (h : Exec db p o r db') (hs : (db.session p).locks = [])
    (ht : ∀ k, ¬ Takes o r k) :
    (db'.session p).locks = [] := by
  refine List.eq_nil_iff_forall_not_mem.2 fun k hk => ?_
  rcases h.locks k hk with hk | hk
  · rw [hs] at hk; exact absurd hk List.not_mem_nil
  · exact ht k hk

/-- An operation that goes through was not waiting, if the row that it updates is there. -/
theorem Exec.not_waits {v : Op.Resp o} (h : Exec db p o r db') (hr : r = .ok v)
    (hrow : ∀ eventId status, o = .updateStatus eventId status →
      ∃ row ∈ (db.view schema p).outboxEvents, row.id = eventId) : ¬ db.Waits p q o.needs := by
  rintro ⟨-, hq, k, hk, hlock⟩
  cases h with
  | insertOrder _ _ hfree => exact hfree k hk q hq hlock
  | insertOutboxEvent _ _ hfree => exact hfree k hk q hq hlock
  | updateStatus eventId _ _ _ hfree =>
    obtain rfl : k = .eventRow eventId := by simpa [Op.needs] using hk
    exact hfree q hq hlock
  | updateNoRow eventId status _ hno =>
    obtain ⟨row, hmem, hid⟩ := hrow eventId status rfl
    exact hno row hmem hid
  | failed => cases hr
  | insertOrderConflict => cases hr
  | insertOutboxEventConflict => cases hr
  | _ => exact absurd hk List.not_mem_nil

/-- **Only waiting holds an operation up**: on a usable session, when the locks it needs
are free, it can go on without a fault. -/
theorem exec_of_free (hu : (db.session p).Usable) (hfree : ∀ k ∈ o.needs, db.Free p k) :
    ∃ r db', Exec db p o r db' ∧ ¬ (Event.exec p o r).Fault := by
  cases o with
  | get baseUrl path =>
    refine ⟨_, _, .get baseUrl path (.ok ⟨200, ""⟩), ?_⟩
    unfold httpGet
    split
    · exact id
    · rintro ⟨he, -⟩; cases he
  | uuid4 => exact ⟨_, _, .uuid4 (sampleUuid 0), id⟩
  | now => exact ⟨_, _, .now (sampleTime 0), id⟩
  | selectOrder key => exact ⟨_, _, .selectOrder key hu, id⟩
  | insertOrder model =>
    -- a key that is used makes the insert fail, which is no fault
    by_cases hused : ∃ k ∈ model.keys, k ∈ (db.view schema p).keys
    · obtain ⟨k, hk, hk'⟩ := hused
      refine ⟨_, _, .insertOrderConflict model hu k hk hk', ?_⟩
      rintro ⟨he, -⟩; cases he
    · push Not at hused
      exact ⟨_, _, .insertOrder model hu hfree hused, id⟩
  | insertOutboxEvent model =>
    by_cases hused : ∃ k ∈ model.keys, k ∈ (db.view schema p).keys
    · obtain ⟨k, hk, hk'⟩ := hused
      refine ⟨_, _, .insertOutboxEventConflict model hu k hk hk', ?_⟩
      rintro ⟨he, -⟩; cases he
    · push Not at hused
      exact ⟨_, _, .insertOutboxEvent model hu hfree hused, id⟩
  | selectPending batchSize =>
    obtain ⟨rows, hrows⟩ := OrderLimit.exists_selected (db.view schema p).outboxEvents (Eligible db p)
      (fun row => row.createdAt.key) batchSize
    exact ⟨_, _, .selectPending batchSize rows hu hrows, id⟩
  | updateStatus eventId status =>
    by_cases hrow : ∃ row ∈ (db.view schema p).outboxEvents, row.id = eventId
    · exact ⟨_, _, .updateStatus eventId status hu hrow (hfree _ List.mem_cons_self), id⟩
    · push Not at hrow
      exact ⟨_, _, .updateNoRow eventId status hu hrow, id⟩
  | commit => exact ⟨_, _, .commit hu, id⟩
  | rollback => exact ⟨_, _, .rollback, id⟩
  | close => exact ⟨_, _, .close, id⟩
  | publish event body => exact ⟨_, _, .published event body, id⟩
  | sleep seconds => exact ⟨_, _, .sleep seconds, id⟩
  | inc counter => exact ⟨_, _, .inc counter, id⟩

end Exec

/-! ## The locks of a request -/

/-- The points of a request up to its order insert. -/
def CallPoint.early : CallPoint → Prop
  | .validate | .find | .orderId | .now _ | .eventId _ _ | .orderClock _ _ | .insertOrder _ _ => True
  | _ => False

/-- The locks that a request may hold: unique keys, with UUIDs that it drew. -/
def Lock.OfCall (tr : List (Event P)) (p : P) : Lock → Prop
  | .orderId u | .eventId u => Drawn tr p u
  | .externalOrderId _ => True
  | .eventRow _ => False

/-- What a request has locked: nothing before its order insert goes on, and then unique
keys only. -/
structure CallLocks (tr : List (Event P)) (p : P) (pt : CallPoint) (s : Session Write Lock) : Prop where
  keys : ∀ k ∈ s.locks, k.OfCall tr p
  early : pt.early → s.locks = []

theorem Lock.OfCall.cons {k : Lock} (h : k.OfCall tr p) (l : Event P) : k.OfCall (l :: tr) p := by
  cases k with
  | orderId u => exact Drawn.cons h l
  | eventId u => exact Drawn.cons h l
  | externalOrderId key => trivial
  | eventRow u => exact h

theorem CallLocks.cons {pt : CallPoint} (h : CallLocks tr p pt s) (l : Event P) :
    CallLocks (l :: tr) p pt s :=
  ⟨fun k hk => (h.keys k hk).cons l, h.early⟩

theorem CallPoint.not_early_insertError (e : Exc) : ¬ (CallPoint.insertError e).early := by
  cases e <;> exact id

section CallStep

variable [DecidableEq P] {db db' : Db P} {o : Op} {r : Except Exc (Op.Resp o)} {a : CallArgs}
  {pt : CallPoint} {k : Except Exc (Op.Resp o) → CallPoint}

/-- An early point is reached from an early point, by an operation that takes no lock. -/
theorem CallPoint.early_step (hn : pt.node a = .op o k) (he : (k r).early) :
    pt.early ∧ ∀ x, ¬ Takes o r x := by
  cases pt with
  | validate => cases hn; exact ⟨trivial, fun _ => id⟩
  | find => cases hn; exact ⟨trivial, fun _ => id⟩
  | orderId => cases hn; exact ⟨trivial, fun _ => id⟩
  | now u => cases hn; exact ⟨trivial, fun _ => id⟩
  | eventId u t => cases hn; exact ⟨trivial, fun _ => id⟩
  | orderClock order event => cases hn; exact ⟨trivial, fun _ => id⟩
  | rollback => cases hn; rcases r with e | u <;> exact absurd he id
  | refind => cases hn; rcases r with e | _ | m <;> exact absurd he id
  | close res => cases hn; rcases r with e | u <;> exact absurd he id
  | done res => rcases res with e | v <;> cases hn
  | _ =>
    cases hn
    rcases r with e | u <;> first | exact absurd he (not_early_insertError e) | exact absurd he id

omit [DecidableEq P] in
/-- The keys that a request's operation takes have UUIDs that the request drew. -/
theorem CallInv.takes {tab : Tables} (hI : CallInv (fun _ _ => True) tr tab p a pt s)
    (hn : pt.node a = .op o k) {x : Lock} (hx : Takes o r x) : x.OfCall tr p := by
  cases pt with
  | insertOrder m event =>
    cases hn
    simp only [Takes, OrderModel.keys, List.mem_cons, List.not_mem_nil, or_false] at hx
    rcases hx with rfl | rfl
    · exact hI.1.orderDrawn
    · trivial
  | insertEvent created event e =>
    cases hn
    obtain ⟨m, t, hm, -, rfl, -⟩ := hI
    simp only [Takes, OutboxEventModel.keys, List.mem_singleton] at hx
    subst hx
    exact hm.eventDrawn
  | done res => rcases res with e | v <;> cases hn
  | _ => cases hn; exact absurd hx id

theorem CallLocks.step (hL : CallLocks tr p pt (db.session p))
    (hI : CallInv (fun _ _ => True) tr db.committed p a pt (db.session p)) (hn : pt.node a = .op o k)
    (hx : Exec db p o r db') : CallLocks (.exec p o r :: tr) p (k r) (db'.session p) := by
  refine ⟨fun x hlock => ?_, fun he => ?_⟩
  · rcases hx.locks x hlock with h | h
    · exact (hL.keys x h).cons _
    · exact (hI.takes hn h).cons _
  · obtain ⟨hpt, htakes⟩ := CallPoint.early_step hn he
    exact hx.locks_nil (hL.early hpt) htakes

end CallStep

/-! ## The locks of a worker -/

namespace WorkerPoint

/-- The event under way, until its transaction has ended. -/
def current : WorkerPoint → Option OutboxEvent
  | publish job _ _ | mark job _ _ | commit job _ _ | backoff job _ _ => some job.event
  | markFailed job | commitFailed job => some job.event
  | _ => none

variable (job : Job) (attempt : ℕ) (later : List ℕ)

@[simp] theorem current_nextAttempt : (nextAttempt job later).current = some job.event := by
  cases later <;> rfl

@[simp] theorem current_attemptError : (attemptError job attempt later).current = some job.event := by
  unfold attemptError; split
  · rfl
  · exact current_nextAttempt job later

end WorkerPoint

/-- What a worker has locked: rows only, and with them the row of the event under way. -/
structure WorkerLocks (pt : WorkerPoint) (s : Session Write Lock) : Prop where
  rows : ∀ k ∈ s.locks, ∃ u, k = .eventRow u
  current : s.locks = [] ∨ ∃ event, pt.current = some event ∧ .eventRow event.id ∈ s.locks

theorem WorkerLocks.nil {pt : WorkerPoint} (h : s.locks = []) : WorkerLocks pt s :=
  ⟨fun k hk => by rw [h] at hk; exact absurd hk List.not_mem_nil, .inl h⟩

/-- At a point without an event under way a worker holds no lock. -/
theorem WorkerLocks.locks_nil {pt : WorkerPoint} (h : WorkerLocks pt s) (hpt : pt.current = none) :
    s.locks = [] := by
  rcases h.current with h | ⟨event, he, -⟩
  · exact h
  · rw [hpt] at he; cases he

/-- The session is as before, and so is the event under way. -/
theorem WorkerLocks.keep {pt pt' : WorkerPoint} (h : WorkerLocks pt s)
    (hpt : pt'.current = pt.current) :
    WorkerLocks pt' s :=
  ⟨h.rows, hpt ▸ h.current⟩

section WorkerStep

variable [DecidableEq P] {db db' : Db P} {o : Op} {r : Except Exc (Op.Resp o)} {W : OutboxWorker}
  {pt pt' : WorkerPoint} {k : Except Exc (Op.Resp o) → WorkerPoint} {event : OutboxEvent}

/-- Marking an event locks its row; when the statement fails no lock is left. -/
theorem WorkerLocks.update {status : OutboxStatus} {r : Except Exc Unit}
    (h : WorkerLocks pt (db.session p))
    (hpt : pt.current = some event) (hx : Exec db p (.updateStatus event.id status) r db') :
    (r = .ok () ∧ ∀ pt', pt'.current = some event → WorkerLocks pt' (db'.session p)) ∨
      (r = .error .databaseError ∧ (db'.session p).locks = []) := by
  cases hx with
  | failed _ hf => exact .inr ⟨rfl, hf.locks_nil⟩
  | updateStatus =>
    refine .inl ⟨rfl, fun pt' hpt' => ⟨fun k hk => ?_, .inr ⟨event, hpt', by simp⟩⟩⟩
    simp only [Store.extend_self, Session.locks_active, List.mem_append, List.mem_singleton] at hk
    exact hk.elim (h.rows k) fun he => ⟨_, he⟩
  | updateNoRow =>
    refine .inl ⟨rfl, fun pt' hpt' => ?_⟩
    have hlocks : ((db.extend p [] []).session p).locks = (db.session p).locks := by simp
    have hkeep := h.keep (hpt'.trans hpt.symm)
    exact ⟨hlocks ▸ hkeep.rows, hlocks ▸ hkeep.current⟩

theorem exec_commit_locks {r : Except Exc Unit} (hx : Exec db p .commit r db') :
    (db'.session p).locks = [] := by
  cases hx with
  | failed hst => cases hst
  | commit => rw [Store.commit_self]; rfl
  | commitFailed => rw [Store.abort_self]; rfl
  | commitLost => rw [Store.commitLost_self]; rfl

/-- **A worker's own step keeps what is known of its locks.** -/
theorem WorkerLocks.step (h : WorkerLocks pt (db.session p)) (hn : pt.node W = .op o k)
    (hx : Exec db p o r db') : WorkerLocks (k r) (db'.session p) := by
  cases pt with
  | fetch polls =>
    cases hn
    have hnil := h.locks_nil rfl
    cases hx with
    | failed _ hf => exact .nil hf.locks_nil
    | selectPending _ rows =>
      -- the fetch has locked the rows of the batch, the first one among them
      refine ⟨fun x hlock => ?_, ?_⟩
      · simp only [Store.extend_self, Session.locks_active, hnil, List.nil_append, List.mem_map] at hlock
        obtain ⟨row, -, rfl⟩ := hlock
        exact ⟨row.id, rfl⟩
      · cases rows with
        | nil => exact .inl (by simp [hnil])
        | cons row rows =>
          have hcur := WorkerPoint.current_nextAttempt ⟨row.toEntity, rows.map OutboxEventModel.toEntity, polls⟩
            (List.range maxRetries)
          exact .inr ⟨row.toEntity, hcur, by simp [OutboxEventModel.toEntity]⟩
  | publish job attempt later =>
    cases hn
    cases hx with
    | failed hst => cases hst
    | published => exact h.keep rfl
    | publishFailed => exact h.keep (WorkerPoint.current_attemptError job attempt later)
  | mark job attempt later =>
    cases hn
    rcases h.update rfl hx with ⟨rfl, h'⟩ | ⟨rfl, hnil⟩
    · exact h' _ rfl
    · exact .nil hnil
  | commit job attempt later => cases hn; exact .nil (exec_commit_locks hx)
  | count job attempt later =>
    cases hn
    exact .nil (hx.locks_nil (h.locks_nil rfl) fun _ => id)
  | backoff job attempt later =>
    cases hn
    cases hx with
    | failed hst => cases hst
    | sleep => exact h.keep (WorkerPoint.current_nextAttempt job later)
  | markFailed job =>
    cases hn
    rcases h.update rfl hx with ⟨rfl, h'⟩ | ⟨rfl, hnil⟩
    · exact h' _ rfl
    · exact .nil hnil
  | commitFailed job => cases hn; exact .nil (exec_commit_locks hx)
  | countFailed job =>
    cases hn
    exact .nil (hx.locks_nil (h.locks_nil rfl) fun _ => id)
  | close polls =>
    cases hn
    exact .nil (hx.locks_nil (h.locks_nil rfl) fun _ => id)
  | pause polls =>
    cases hn
    exact .nil (hx.locks_nil (h.locks_nil rfl) fun _ => id)
  | stopped res => rcases res with e | u <;> cases hn

end WorkerStep

/-! ## Every reached state -/

section Reach

variable [DecidableEq P] {t : ValidTables} {role : P → Role} {w : World P}

/-- What a party has locked. -/
def Proc.Locks (tr : List (Event P)) (p : P) (x : Proc) (s : Session Write Lock) : Prop :=
  match x with
  | .call _ pt => CallLocks tr p pt s
  | .worker _ pt => WorkerLocks pt s

/-- **The locks of every party**, in every run. -/
theorem Reached.locks (h : Reached t role tr w) (p : P) : (w.procs p).Locks tr p (w.db.session p) := by
  have hg : Run (Guarded Step fun _ _ => True) (World.init t role) tr w := h.unconditional
  refine Reached.local (Φ := fun tr _ p x s => x.Locks tr p s) ?_ ?_ ?_ ?_ ?_ hg p
  · intro p
    cases role p with
    | call a => exact ⟨fun k hk => absurd hk List.not_mem_nil, fun _ => rfl⟩
    | worker W polls => exact .nil rfl
  · intro tr _ _ p x s l _ _ hL
    cases x with
    | call a pt => exact CallLocks.cons hL l
    | worker W pt => exact hL
  · intro tr _ p x tx hL
    cases x with
    | call a pt => exact ⟨fun k hk => absurd hk List.not_mem_nil, fun _ => rfl⟩
    | worker W pt => exact .nil rfl
  · intro tr w p a pt o k r db' hr _ hp hn hx hL
    exact CallLocks.step hL (hr.callInv hp) hn hx
  · intro tr w p W pt o k r db' _ _ _ hn hx hL
    exact WorkerLocks.step hL hn hx

/-- A transaction that waits has no lock and has written nothing. -/
theorem Reached.waiting (h : Reached t role tr w) (hfresh : FreshUuids t tr) (hw : w.WaitsFor p q) :
    (w.db.session p).locks = [] ∧ (w.db.session p).writes = [] := by
  obtain ⟨o, ho, hu, hq, k, hk, hlock⟩ := hw
  have hp := h.locks p
  have hq' := h.locks q
  unfold World.Awaits at ho
  cases hproc : w.procs p with
  | call a pt =>
    rw [hproc] at hp ho
    have hI := h.callInv hproc
    obtain ⟨next, hn⟩ := ho
    cases pt with
    | insertOrder m event => exact ⟨hp.early trivial, hI.2.1.nil⟩
    | insertEvent created event e =>
      cases hn
      obtain ⟨m, t, hm, -, rfl, -⟩ := hI
      -- nobody else has drawn the UUID of the event
      obtain rfl : k = .eventId event.id := by simpa [Op.needs, OutboxEventModel.keys, OutboxEvent.row] using hk
      cases hprocq : w.procs q with
      | call b pt' =>
        rw [hprocq] at hq'
        exact absurd (drawn_unique hfresh.1 (hq'.keys _ hlock) hm.eventDrawn) hq
      | worker W pt' =>
        rw [hprocq] at hq'
        obtain ⟨u, hu'⟩ := hq'.rows _ hlock
        cases hu'
    | done res => rcases res with e | v <;> cases hn
    | _ => cases hn; exact absurd hk List.not_mem_nil
  | worker W pt =>
    rw [hproc] at hp ho
    have hI := h.workerInv hproc
    obtain ⟨next, hn⟩ := ho
    -- the row of the event under way is locked by another session, so this one has no lock
    have hnil : ∀ event, pt.current = some event → k = .eventRow event.id →
        (w.db.session p).locks = [] := by
      rintro event he rfl
      rcases hp.current with hnil | ⟨event', he', hmem⟩
      · exact hnil
      · obtain rfl := Option.some.inj (he.symm.trans he')
        exact absurd (h.consistent.excl q p _ hlock hmem) hq
    cases pt with
    | mark job attempt later =>
      cases hn
      exact ⟨hnil job.event rfl (by simpa [Op.needs] using hk), hI.session.nil⟩
    | markFailed job =>
      cases hn
      exact ⟨hnil job.event rfl (by simpa [Op.needs] using hk), hI.session.nil⟩
    | stopped res => rcases res with e | u <;> cases hn
    | _ => cases hn; exact absurd hk List.not_mem_nil

/-- **Deadlock freedom.** A transaction that waits holds no lock and no uncommitted row,
so nobody waits for it, and the waits-for relation has no cycle. -/
theorem waits_for_acyclic (h : Reached t role tr w) (hfresh : FreshUuids t tr) :
    (∀ p q, w.WaitsFor p q → (w.db.session p).locks = [] ∧ (w.db.session p).writes = [] ∧
      ∀ r, ¬ w.WaitsFor r p) ∧
    ∀ p, ¬ Relation.TransGen w.WaitsFor p p := by
  have hsome : ∀ p q, w.WaitsFor p q → (w.db.session q).locks ≠ [] :=
    fun p q ⟨o, _, hw⟩ => hw.locks_ne_nil
  have hnone : ∀ p q, w.WaitsFor p q → (w.db.session p).locks = [] :=
    fun p q hw => (h.waiting hfresh hw).1
  refine ⟨fun p q hw => ?_, Store.not_waiting_in_circle hnone hsome⟩
  exact ⟨hnone p q hw, (h.waiting hfresh hw).2, fun r hr => hsome r p hr (hnone p q hw)⟩

theorem waits_for_acyclic_race : ∃ tr w, Reached .empty (fun _ : Bool => .call sampleCall) tr w ∧
    w.WaitsFor false true ∧ (w.db.session false).locks = [] ∧
    ∀ p, ¬ Relation.TransGen w.WaitsFor p p := by
  obtain ⟨⟨tr, w, h, hdraws, -, hw⟩, -⟩ := sample_race
  have hfresh : FreshUuids .empty tr := ⟨by rw [hdraws]; decide, fun _ _ => List.not_mem_nil⟩
  obtain ⟨hwaiting, hacyclic⟩ := waits_for_acyclic h hfresh
  exact ⟨tr, w, h, hw, (hwaiting false true hw).1, hacyclic⟩

/-- A party whose operation goes through was not waiting. -/
theorem Reached.not_waiting (h : Reached t role tr w) {w' : World P} {o : Op} {v : Op.Resp o}
    (hs : Step w (.exec p o (.ok v)) w') : ¬ w.WaitsFor p q := by
  rintro ⟨o', ho', hw⟩
  unfold World.Awaits at ho'
  cases h.fate hs p with
  | call a pt o₁ k r hl hproc hn hx =>
    obtain ⟨-, rfl, hr⟩ := Event.exec.inj hl
    rw [hproc] at ho'
    obtain ⟨k', hn'⟩ := ho'
    obtain ⟨rfl, -⟩ := Effect.Node.op.inj (hn.symm.trans hn')
    refine hx.not_waits (eq_of_heq hr).symm ?_ hw
    rintro eventId status rfl
    cases pt with
    | done res => rcases res with e | v <;> cases hn
    | _ => cases hn
  | worker W pt o₁ k r hl _ _ hproc hn hx =>
    obtain ⟨-, rfl, hr⟩ := Event.exec.inj hl
    rw [hproc] at ho'
    obtain ⟨k', hn'⟩ := ho'
    obtain ⟨rfl, -⟩ := Effect.Node.op.inj (hn.symm.trans hn')
    refine hx.not_waits (eq_of_heq hr).symm ?_ hw
    rintro eventId status rfl
    have hcopies := (h.workerInv hproc).copies
    cases pt with
    | mark job attempt later => cases hn; exact (hcopies job.event List.mem_cons_self).visible
    | markFailed job => cases hn; exact (hcopies job.event List.mem_cons_self).visible
    | stopped res => rcases res with e | u <;> cases hn
    | _ => cases hn
  | other hl => exact absurd rfl (hl _ _)
  | died hl => cases hl
  | aborted hl => cases hl

/-- **Progress.** A live party that waits for nobody, and whose transaction is not
aborted, can go on without a fault. -/
theorem step_of_not_waiting (ha : w.alive p) {o : Op} (ho : w.Awaits p o) (hu : (w.db.session p).Usable)
    (hfree : ∀ q, ¬ w.WaitsFor p q) :
    ∃ r w', Step w (.exec p o r) w' ∧ ¬ (Event.exec p o r).Fault := by
  have hneeds := (Store.not_waits_iff hu).1 fun q hq => hfree q ⟨o, ho, hq⟩
  obtain ⟨r, db', hx, hr⟩ := exec_of_free hu hneeds
  unfold World.Awaits at ho
  cases hproc : w.procs p with
  | call a pt =>
    rw [hproc] at ho
    obtain ⟨k, hn⟩ := ho
    exact ⟨r, _, .call ha hproc hn hx, hr⟩
  | worker W pt =>
    rw [hproc] at ho
    obtain ⟨k, hn⟩ := ho
    exact ⟨r, _, .worker ha hproc hn hx, hr⟩

end Reach

end OrdersApi
