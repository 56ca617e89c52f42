import OrdersApi.Proof.Commits
import OrdersApi.Proof.Atomicity

/-!
# Workers hold different events

`Exclusive`: the workers that can still write hold pairwise different events, and all
of them are committed as `pending`. It is an invariant of the runs in which no worker
fetches an event that another has still to finish (`FetchOk`). Row locks do not give
this by themselves: a batch commits its transaction after each event, and the locks on
the rest of the batch end there.
-/

namespace OrdersApi

open TxStore Trace

variable {P : Type} {tr : List (Event P)} {l : Event P} {p q : P} {tab : Tables} {e x : UUID}
  {s status : OutboxStatus}

/-! ## The committed status of an event -/

namespace Tables

theorem exists_of_statusOf (h : tab.statusOf e = some s) :
    ∃ row ∈ tab.outboxEvents, row.id = e ∧ row.status = s := by
  obtain ⟨row, hrow, hs⟩ := Option.map_eq_some_iff.1 h
  exact ⟨row, List.mem_of_find?_eq_some hrow, by simpa using List.find?_some hrow, hs⟩

theorem statusOf_row (h : tab.keys.Nodup) {row : OutboxEventModel} (hrow : row ∈ tab.outboxEvents) :
    tab.statusOf row.id = some row.status := by
  unfold statusOf
  cases hfind : tab.outboxEvents.find? fun model => model.id = row.id with
  | none => exact absurd (List.find?_eq_none.1 hfind row hrow) (by simp)
  | some row' =>
    have hid : row'.id = row.id := by simpa using List.find?_some hfind
    rw [event_of_id h (List.mem_of_find?_eq_some hfind) hrow hid]; rfl

theorem statusOf_append {orders : List OrderModel} {row : OutboxEventModel}
    (h : tab.statusOf e = some s) :
    (⟨orders, tab.outboxEvents ++ [row]⟩ : Tables).statusOf e = some s := by
  obtain ⟨row', hrow', hs⟩ := Option.map_eq_some_iff.1 h
  unfold statusOf
  rw [List.find?_append, hrow']
  exact congrArg some hs

theorem statusOf_setStatus : (tab.apply (.setStatus x status)).statusOf e =
    (tab.statusOf e).map fun s => if e = x then status else s := by
  unfold statusOf apply
  rw [List.find?_map, Option.map_map, Option.map_map]
  have hpred : ((fun model : OutboxEventModel => decide (model.id = e)) ∘ OutboxEventModel.setStatus x status) =
      fun model => decide (model.id = e) := funext fun model => by simp
  rw [hpred]
  refine Option.map_congr fun row hrow => ?_
  have hid : row.id = e := by simpa using List.find?_some hrow
  show (row.setStatus x status).status = if e = x then status else row.status
  unfold OutboxEventModel.setStatus
  rw [hid]; split <;> rfl

end Tables

/-! ## The writes of a worker -/

namespace WorkerPoint

theorem held_of_writes {pt : WorkerPoint} (h : pt.writes = [.setStatus e status]) :
    ∃ event batch, pt.held = event :: batch ∧ event.id = e := by
  cases pt with
  | commit job attempt later => cases h; exact ⟨job.event, job.batch, rfl, rfl⟩
  | commitFailed job => cases h; exact ⟨job.event, job.batch, rfl, rfl⟩
  | _ => cases h

end WorkerPoint

/-- **Only a worker that holds an event changes its status.** -/
theorem Commits.statusOf {R : DateTime → DateTime → Prop} {w : World P} (h : Commits R tr w l tab)
    (hs : w.db.committed.statusOf e = some s) : tab.statusOf e = some s ∨
      ∃ p pt r, l = .exec p .commit r ∧ w.Works p pt ∧ ∃ event ∈ pt.held, event.id = e := by
  cases h with
  | same ht => exact .inl (ht ▸ hs)
  | created p a m event t r _ _ _ ht => exact .inl (ht ▸ Tables.statusOf_append hs)
  | settled p W pt x status r hl ha hp hu hw ht =>
    by_cases hex : e = x
    · obtain ⟨event, batch, hheld, hid⟩ := WorkerPoint.held_of_writes hw
      exact .inr ⟨p, pt, r, hl, ⟨ha, ⟨W, hp⟩, hu⟩, event, hheld ▸ List.mem_cons_self, hid.trans hex.symm⟩
    · left
      rw [ht, Tables.statusOf_setStatus, hs]
      simp [hex]

/-! ## The events of a worker, from one step to the next -/

/-- How the events in the memory of `p` change by its own step. -/
inductive HeldStep [DecidableEq P] (db db' : Db P) (p : P) (o : Op)
    (before after : List OutboxEvent) : Prop
  | kept (usable : (db.session p).Usable) (tables : db'.committed = db.committed) (sub : after.Sublist before)
  | settled (usable : (db.session p).Usable) (event : OutboxEvent) (status : OutboxStatus)
      (tables : db'.committed = db.committed.apply (.setStatus event.id status))
      (held : before = event :: after)
  | fetched (batchSize : ℕ) (rows : List OutboxEventModel) (op : o = .selectPending batchSize)
      (tables : db'.committed = db.committed) (held : after = rows.map OutboxEventModel.toEntity)
      (fetched : Fetched db.committed.outboxEvents (Eligible db p) batchSize rows)
  | dropped (held : after = [])

section Step

variable [DecidableEq P] {db db' : Db P} {o : Op} {r : Except Exc (Op.Resp o)} {W : OutboxWorker}
  {pt : WorkerPoint} {k : Except Exc (Op.Resp o) → WorkerPoint}

/-- Where a failed statement leaves the session usable, it was usable before. -/
theorem Failed.usable (h : Failed db p db') (hu : (db'.session p).Usable) : (db.session p).Usable := by
  cases h with
  | aborted => rw [Store.abort_self] at hu; exact hu.elim
  | noConnection => exact hu

/-- Only the end of a transaction makes a session usable again. -/
theorem Exec.usable_before (hx : Exec db p o r db') (hu' : (db'.session p).Usable) (hclose : o ≠ .close)
    (hrollback : o ≠ .rollback) : (db.session p).Usable := by
  cases hx with
  | failed _ hf => exact hf.usable hu'
  | selectOrder _ hu => exact hu
  | insertOrder _ hu => exact hu
  | insertOutboxEvent _ hu => exact hu
  | selectPending _ _ hu => exact hu
  | updateStatus _ _ hu => exact hu
  | updateNoRow _ _ hu => exact hu
  | commit hu => exact hu
  | commitLost hu => exact hu
  | insertOrderConflict _ hu => exact hu
  | insertOutboxEventConflict _ hu => exact hu
  | commitFailed => rw [Store.abort_self] at hu'; exact hu'.elim
  | rollback => exact absurd rfl hrollback
  | rollbackFailed => exact absurd rfl hrollback
  | close => exact absurd rfl hclose
  | _ => exact hu'

/-- The events of a worker after its own step are among those that it had, or it has just
fetched them. -/
theorem held_cases (hn : pt.node W = .op o k) (hx : Exec db p o r db') :
    (k r).held.Sublist pt.held ∨ ∃ n rows, Event.exec p o r = .exec p (.selectPending n) (.ok rows) ∧
      pt.writes = [] ∧ (k r).held = rows.map OutboxEventModel.toEntity ∧
      Fetched (db.view schema p).outboxEvents (Eligible db p) n rows := by
  cases pt with
  | fetch polls =>
    cases hn
    cases hx with
    | failed => exact .inl (List.nil_sublist _)
    | selectPending _ rows _ hfetch => exact .inr ⟨_, rows, rfl, rfl, WorkerPoint.held_nextEvent .., hfetch⟩
  | publish job attempt later =>
    cases hn
    rcases r with err | u
    · left
      show (WorkerPoint.attemptError job attempt later).held.Sublist _
      rw [WorkerPoint.held_attemptError]; exact .refl _
    · exact .inl (.refl _)
  | mark job attempt later =>
    cases hn
    -- whether it is marked or tried again, the event stays the first one
    rcases r with err | u
    · left
      show (WorkerPoint.attemptError job attempt later).held.Sublist _
      rw [WorkerPoint.held_attemptError]; exact .refl _
    · exact .inl (.refl _)
  | commit job attempt later =>
    cases hn
    rcases r with err | u
    · left
      show (WorkerPoint.attemptError job attempt later).held.Sublist _
      rw [WorkerPoint.held_attemptError]; exact .refl _
    · exact .inl (List.sublist_cons_self _ _)
  | count job attempt later =>
    cases hn
    cases hx with
    | failed hst => cases hst
    | inc => left; rw [WorkerPoint.held_nextEvent]; exact .refl _
  | backoff job attempt later =>
    cases hn
    cases hx with
    | failed hst => cases hst
    | sleep => left; rw [WorkerPoint.held_nextAttempt]; exact .refl _
  | markFailed job =>
    cases hn
    -- an event that cannot be marked is given up in memory only
    rcases r with err | u
    · exact .inl (List.sublist_cons_self _ _)
    · exact .inl (.refl _)
  | commitFailed job => cases hn; exact .inl (List.sublist_cons_self _ _)
  | countFailed job =>
    cases hn
    cases hx with
    | failed hst => cases hst
    | inc => left; rw [WorkerPoint.held_nextEvent]; exact .refl _
  | close polls => cases hn; exact .inl (.refl _)
  | pause polls =>
    cases hn
    cases hx with
    | failed hst => cases hst
    | sleep => left; rw [WorkerPoint.held_poll]; exact .refl _
  | stopped res => rcases res with err | u <;> cases hn

/-- A commit after which the session is usable has applied the writes. -/
theorem HeldStep.of_commit (event : OutboxEvent) (batch : List OutboxEvent) {r : Except Exc Unit}
    (hx : Exec db p .commit r db') (hu : (db'.session p).Usable)
    (hs : (db.session p).Holds [.setStatus event.id status]) :
    r = .ok () ∧ HeldStep db db' p .commit (event :: batch) batch := by
  cases hx with
  | failed hst => cases hst
  | commit hu' => exact ⟨rfl, .settled hu' event status (view_of_holds hs hu') rfl⟩
  | commitFailed => rw [Store.abort_self] at hu; exact hu.elim
  | commitLost => rw [Store.commitLost_self] at hu; exact hu.elim

/-- **A worker's own step**: it keeps its events, commits the status of the first one and
goes on with the others, or fetches. -/
theorem heldStep (hs : (db.session p).Holds pt.writes) (hn : pt.node W = .op o k)
    (hx : Exec db p o r db')
    (hu : (db'.session p).Usable) : HeldStep db db' p o pt.held (k r).held := by
  rcases held_cases hn hx with hsub | ⟨n, rows, hl, hwrites, hheld, hf⟩
  · by_cases hcommit : o = .commit
    · subst hcommit
      cases pt with
      | commit job attempt later =>
        cases hn
        have hs : (db.session p).Holds [.setStatus job.event.id .processed] := hs
        obtain ⟨rfl, hstep⟩ := HeldStep.of_commit job.event job.batch hx hu hs
        show HeldStep db db' p .commit (job.event :: job.batch) job.batch
        exact hstep
      | commitFailed job =>
        cases hn
        have hs : (db.session p).Holds [.setStatus job.event.id .failed] := hs
        obtain ⟨rfl, hstep⟩ := HeldStep.of_commit job.event job.batch hx hu hs
        show HeldStep db db' p .commit (job.event :: job.batch) job.batch
        exact hstep
      | stopped res => rcases res with err | u <;> cases hn
      | _ => cases hn
    -- only the end of the batch makes an aborted session usable, and nothing is held then
    · by_cases hend : o = .close ∨ o = .rollback
      · cases pt with
        | close polls => cases hn; exact .dropped rfl
        | stopped res => rcases res with err | u <;> cases hn
        | _ => cases hn; exact absurd hend (by simp)
      · push Not at hend
        exact .kept (hx.usable_before hu hend.1 hend.2) (hx.committed.resolve_right fun h => hcommit h.1) hsub
  · cases hl
    rw [view_of_nil (hwrites ▸ hs)] at hf
    exact .fetched n rows rfl (hx.committed.resolve_right fun h => nomatch h.1) hheld hf

end Step

/-! ## A backlog of two events -/

def backlogOrder (key : String) (orderId : UUID) (t : DateTime) : OrderModel :=
  ⟨orderId, key, sampleCall.requesterId, some sampleCall.description, "pending", t⟩

def backlogEvent (key : String) (orderId eventId : UUID) (t : DateTime) : OutboxEventModel :=
  (OrderService.newEvent { sampleCall with externalOrderId := key } orderId t eventId).row t

def firstEvent : OutboxEventModel :=
  backlogEvent "ORD-2024-001" (sampleUuid 0) (sampleUuid 1) (sampleTime 0)

def secondEvent : OutboxEventModel :=
  backlogEvent "ORD-2024-002" (sampleUuid 2) (sampleUuid 3) (sampleTime 1)

/-- Two committed orders, with their events still to be published. -/
def backlog : ValidTables where
  val :=
    { orders := [backlogOrder "ORD-2024-001" (sampleUuid 0) (sampleTime 0),
        backlogOrder "ORD-2024-002" (sampleUuid 2) (sampleTime 1)]
      outboxEvents := [firstEvent, secondEvent] }
  property := by decide

/-- The tables when the first event is processed. -/
def halfBacklog : Tables := backlog.1.apply (.setStatus firstEvent.id .processed)

/-- A single party never meets a second one. -/
theorem fetchOk_of_subsingleton [DecidableEq P] [Subsingleton P] {w : World P} : FetchOk w l :=
  fun _ _ _ _ _ _ hne => absurd (Subsingleton.elim _ _) hne

/-- Only a fetch can be in the way of another worker. -/
theorem fetchOk_of_ne [DecidableEq P] {w : World P} {o : Op} {r : Except Exc (Op.Resp o)}
    (ho : ∀ n, o ≠ .selectPending n) : FetchOk w (.exec p o r) := by
  intro q n r' he
  exact absurd (Event.exec.inj he).2.1 (ho n)

/-- And not one that finds the others without events, -/
theorem fetchOk_of_none [DecidableEq P] {w : World P} {o : Op} {r : Except Exc (Op.Resp o)}
    (h : ∀ q W pt, q ≠ p → w.procs q = .worker W pt → pt.held = []) : FetchOk w (.exec p o r) := by
  rintro q n r' he q' pt hne ⟨-, ⟨W, hp⟩, -⟩ event hevent
  obtain rfl := (Event.exec.inj he).1
  rw [h q' W pt hne hp] at hevent
  cases hevent

/-- nor one that finds all rows locked. -/
theorem fetchOk_of_locked [DecidableEq P] {w : World P} {o : Op} {r : Except Exc (Op.Resp o)}
    (h : ∀ row ∈ w.db.committed.outboxEvents, ¬ w.db.Free p (.eventRow row.id)) :
    FetchOk w (.exec p o r) := by
  rintro q n r' he q' pt - - event - row ⟨hrow, ⟨-, hfree⟩, -⟩
  obtain rfl := (Event.exec.inj he).1
  exact absurd hfree (h row hrow)

/-- A worker that runs alone has processed the first event of its batch. -/
theorem sample_alone : ∃ tr w, Run (Guarded Step fun w l => ¬ l.Fault ∧ FetchOk w l)
      (World.init backlog fun _ : Unit => .worker ⟨2, 5⟩ 1) tr w ∧
    w.db = ⟨halfBacklog, fun _ => .idle⟩ ∧ w.alive = (fun _ => True) ∧
    w.procs () = .worker ⟨2, 5⟩ (.count ⟨firstEvent.toEntity, [secondEvent.toEntity], 0⟩ 0 [1, 2]) ∧
    publishCalls firstEvent.id tr = 1 := by
  have h0 : Run (Guarded Step fun w l => ¬ l.Fault ∧ FetchOk w l)
    (World.init backlog fun _ : Unit => .worker ⟨2, 5⟩ 1) [] _ := .init
  have h1 := h0.step ⟨.worker (p := ()) trivial rfl rfl (.selectPending 2 [firstEvent, secondEvent] trivial
    (fetched_of_unlocked (fun _ _ hq => absurd rfl hq) (by decide) (by decide))), id,
    fetchOk_of_subsingleton⟩
  have h2 := h1.step ⟨.worker (p := ()) trivial rfl rfl (.published _ _), id, fetchOk_of_subsingleton⟩
  have h3 := h2.step ⟨.worker (p := ()) trivial rfl rfl (.updateStatus _ _ trivial ⟨_, .head _, rfl⟩
    fun _ hq => absurd rfl hq), id, fetchOk_of_subsingleton⟩
  have h4 := h3.step ⟨.worker (p := ()) trivial rfl rfl (.commit trivial), id, fetchOk_of_subsingleton⟩
  exact ⟨_, _, h4, congrArg (Store.mk _) (funext fun _ => rfl), rfl, rfl, by decide⟩

/-- The worker `true` has processed the first event of its batch; the worker `false` has fetched
while both rows were locked. -/
theorem sample_pair : ∃ tr w, Run (Guarded Step fun w l => ¬ l.Fault ∧ FetchOk w l)
      (World.init backlog fun _ : Bool => .worker ⟨2, 5⟩ 1) tr w ∧
    w.db = ⟨halfBacklog, fun _ => .idle⟩ ∧ w.alive = (fun _ => True) ∧
    w.procs true = .worker ⟨2, 5⟩ (.count ⟨firstEvent.toEntity, [secondEvent.toEntity], 0⟩ 0 [1, 2]) ∧
    .exec false (.selectPending 2) (.ok []) ∈ tr ∧ publishCalls firstEvent.id tr = 1 ∧
    publishCalls secondEvent.id tr = 0 := by
  have h0 : Run (Guarded Step fun w l => ¬ l.Fault ∧ FetchOk w l)
    (World.init backlog fun _ : Bool => .worker ⟨2, 5⟩ 1) [] _ := .init
  have hnone : ∀ q W pt, q ≠ true →
    (World.init backlog fun _ : Bool => .worker ⟨2, 5⟩ 1).procs q = .worker W pt →
      pt.held = [] := by
    rintro q W pt - hq
    cases hq
    rfl
  have h1 := h0.step ⟨.worker (p := true) trivial rfl rfl (.selectPending 2 [firstEvent, secondEvent] trivial
    (fetched_of_unlocked (free_of_other rfl) (by decide) (by decide))), id, fetchOk_of_none hnone⟩
  have h2 := h1.step ⟨.worker (p := true) trivial rfl rfl (.published _ _), id, fetchOk_of_ne nofun⟩
  have hlocked : ∀ row ∈ backlog.1.outboxEvents,
      Lock.eventRow row.id ∈ [firstEvent, secondEvent].map fun row => Lock.eventRow row.id :=
    fun row hrow => List.mem_map_of_mem hrow
  have h3 := h2.step ⟨.worker (p := false) trivial rfl rfl (.selectPending 2 [] trivial
    (OrderLimit.selected_nil fun row hrow he => he.2 true nofun (hlocked row hrow))), id,
    fetchOk_of_locked fun row hrow hfree => hfree true nofun (hlocked row hrow)⟩
  have h4 := h3.step ⟨.worker (p := true) trivial rfl rfl (.updateStatus _ _ trivial ⟨_, .head _, rfl⟩
    (free_of_other rfl _)), id, fetchOk_of_ne nofun⟩
  have h5 := h4.step ⟨.worker (p := true) trivial rfl rfl (.commit trivial), id, fetchOk_of_ne nofun⟩
  have h6 := h5.step ⟨.worker (p := false) trivial rfl rfl .close, id, fetchOk_of_ne nofun⟩
  refine ⟨_, _, h6, congrArg (Store.mk _) ?_, rfl, rfl, .tail _ (.tail _ (.tail _ (.head _))), by decide, by decide⟩
  funext p
  cases p <;> rfl

/-- Between two events of its batch the worker `true` holds no lock, and the worker `false`
publishes the second event. -/
theorem sample_overlap : ∃ tr w, Reached backlog (fun _ : Bool => .worker ⟨2, 5⟩ 1) tr w ∧
    w.db = ⟨halfBacklog, fun p => if p then .idle else .active ⟨[], [.eventRow secondEvent.id]⟩⟩ ∧
    w.alive = (fun _ => True) ∧
    w.procs true = .worker ⟨2, 5⟩ (.count ⟨firstEvent.toEntity, [secondEvent.toEntity], 0⟩ 0 [1, 2]) ∧
    w.procs false = .worker ⟨2, 5⟩ (.mark ⟨secondEvent.toEntity, [], 0⟩ 0 [1, 2]) ∧
    (∀ l ∈ tr, ¬ l.Fault) ∧ publishCalls secondEvent.id tr = 1 := by
  have h0 : Reached backlog (fun _ : Bool => .worker ⟨2, 5⟩ 1) [] _ := .init
  have h1 := h0.step (.worker (p := true) trivial rfl rfl (.selectPending 2 [firstEvent, secondEvent] trivial
    (fetched_of_unlocked (free_of_other rfl) (by decide) (by decide))))
  have h2 := h1.step (.worker (p := true) trivial rfl rfl (.published _ _))
  have h3 := h2.step (.worker (p := true) trivial rfl rfl (.updateStatus _ _ trivial ⟨_, .head _, rfl⟩
    (free_of_other rfl _)))
  have h4 := h3.step (.worker (p := true) trivial rfl rfl (.commit trivial))
  have h5 := h4.step (.worker (p := false) trivial rfl rfl (.selectPending 2 [secondEvent] trivial
    (fetched_of_unlocked (free_of_other rfl) (by decide) (by decide))))
  have h6 := h5.step (.worker (p := false) trivial rfl rfl (.published _ _))
  refine ⟨_, _, h6, congrArg (Store.mk _) ?_, rfl, rfl, rfl, by simp [Event.Fault], by decide⟩
  funext p
  cases p <;> rfl

section Reach

variable [DecidableEq P] {t : ValidTables} {role : P → Role} {w w' : World P} {pt pt' : WorkerPoint}

/-- Where a worker of the new state comes from: another party's step leaves it where it
was, its own step leads it from one point to the next. -/
inductive Origin (w w' : World P) (l : Event P) (q : P) (pt' : WorkerPoint) : Prop
  | other (works : w.Works q pt') (label : ∀ o r, l ≠ .exec q o r)
  | own (W : OutboxWorker) (pt : WorkerPoint) (o : Op) (k : Except Exc (Op.Resp o) → WorkerPoint)
      (r : Except Exc (Op.Resp o)) (label : l = .exec q o r) (alive : w.alive q)
      (proc : w.procs q = .worker W pt) (node : pt.node W = .op o k) (exec : Exec w.db q o r w'.db)
      (point : k r = pt')

theorem Reached.origin (h : Reached t role tr w) (hs : Step w l w') (hw : w'.Works q pt') :
    Origin w w' l q pt' := by
  obtain ⟨ha, ⟨W, hp⟩, hu⟩ := hw
  cases h.fate hs q with
  | other hl hproc hsess halive =>
    rw [hproc] at hp
    rw [hsess] at hu
    exact .other ⟨halive.1 ha, ⟨W, hp⟩, hu⟩ hl
  | call a pt o k r _ _ _ _ hnext => rw [hnext] at hp; cases hp
  | worker W' pt o k r hl ha _ hp' hn hx hnext =>
    rw [hnext] at hp
    cases hp
    exact .own W pt o k r hl ha hp' hn hx rfl
  | died _ _ _ hdead => exact absurd ha hdead
  | aborted _ tx _ _ hsess => rw [hsess] at hu; exact hu.elim

/-- The workers that can still write hold pairwise different events, all committed as `pending`. -/
structure Exclusive (w : World P) : Prop where
  nodup : ∀ p pt, w.Works p pt → (pt.held.map OutboxEvent.id).Nodup
  pending : ∀ p pt, w.Works p pt → ∀ event ∈ pt.held, w.db.committed.statusOf event.id = some .pending
  disjoint : ∀ p q pt pt', p ≠ q → w.Works p pt → w.Works q pt' →
    ∀ event ∈ pt.held, ∀ event' ∈ pt'.held, event.id ≠ event'.id

omit [DecidableEq P] in
theorem exclusive_init (t : ValidTables) (role : P → Role) : Exclusive (World.init t role) := by
  have hnone : ∀ p pt, (World.init t role).Works p pt → pt.held = [] := by
    rintro p pt ⟨-, ⟨W, hp⟩, -⟩
    have hp : (role p).proc = .worker W pt := hp
    cases hr : role p with
    | call a => rw [hr] at hp; cases hp
    | worker W' polls => rw [hr] at hp; cases hp; exact WorkerPoint.held_poll polls
  refine ⟨fun p pt h => ?_, fun p pt h event he => ?_, fun p q pt pt' _ h _ event he => ?_⟩
  · rw [hnone p pt h]; exact List.nodup_nil
  · rw [hnone p pt h] at he; cases he
  · rw [hnone p pt h] at he; cases he

/-- A row that a worker fetches is in its reach. -/
theorem Reached.fetched_inReach (h : Reached t role tr w) {n : ℕ} {rows : List OutboxEventModel}
    (hf : Fetched w.db.committed.outboxEvents (Eligible w.db p) n rows) {row : OutboxEventModel}
    (hrow : row ∈ rows) : InReach w.db p n row :=
  ⟨hf.sub.subset hrow, hf.eligible row hrow, hf.reach (Tables.eventIds_nodup h.keys_nodup).of_map hrow⟩

/-- An event held after a step was held before it, or is in the reach of the fetch. -/
theorem Reached.held_before (h : Reached t role tr w) (hs : Step w l w') (hw : w'.Works q pt')
    {event : OutboxEvent} (he : event ∈ pt'.held) :
    (∃ pt, w.Works q pt ∧ event ∈ pt.held) ∨
      ∃ n r row, l = .exec q (.selectPending n) r ∧ InReach w.db q n row ∧ row.id = event.id := by
  cases h.origin hs hw with
  | other hw => exact .inl ⟨pt', hw, he⟩
  | own W pt o k r hl ha hp hn hx hpt =>
    subst hpt
    cases heldStep (h.workerInv hp).session hn hx hw.2.2 with
    | kept hu _ hsub => exact .inl ⟨pt, ⟨ha, ⟨W, hp⟩, hu⟩, hsub.subset he⟩
    | settled hu first status _ hheld =>
      exact .inl ⟨pt, ⟨ha, ⟨W, hp⟩, hu⟩, hheld ▸ List.mem_cons_of_mem _ he⟩
    | fetched n rows ho _ hheld hf =>
      subst ho
      rw [hheld] at he
      obtain ⟨row, hrow, rfl⟩ := List.mem_map.1 he
      exact .inr ⟨n, r, row, hl, h.fetched_inReach hf hrow, rfl⟩
    | dropped hheld => rw [hheld] at he; cases he

/-- No worker holds an event twice. -/
theorem Reached.held_nodup (h : Reached t role tr w) {W : OutboxWorker}
    (hp : w.procs p = .worker W pt) :
    (pt.held.map OutboxEvent.id).Nodup := by
  have hg : Run (Guarded Step fun _ _ => True) (World.init t role) tr w := h.unconditional
  refine Reached.local (Φ := fun _ _ _ x _ => ∀ W pt, x = .worker W pt → (pt.held.map OutboxEvent.id).Nodup)
    ?_ ?_ ?_ ?_ ?_ hg p W pt hp
  · intro p W pt he
    cases hr : role p with
    | call a => rw [hr] at he; cases he
    | worker W' polls =>
      rw [hr] at he; cases he
      rw [WorkerPoint.held_poll]; exact List.nodup_nil
  · intro _ _ _ _ _ _ _ _ _ hI; exact hI
  · intro _ _ _ _ _ hI; exact hI
  · intro _ _ _ _ _ _ _ _ _ _ _ _ _ _ _ W pt he; cases he
  · intro tr w p W pt o k r db' hreach _ hp hn hx hI W' pt' he
    cases he
    rcases held_cases hn hx with hsub | ⟨n, rows, -, hwrites, hheld, hf⟩
    · exact (hI W pt rfl).sublist (hsub.map _)
    · rw [view_of_nil (hwrites ▸ (hreach.workerInv hp).session)] at hf
      obtain ⟨l, hperm, hsub⟩ := hf.sub
      rw [hheld, List.map_map]
      exact (hperm.map _).nodup_iff.1 ((Tables.eventIds_nodup hreach.keys_nodup).sublist (hsub.map _))

/-- What a worker holds is committed as `pending`. -/
theorem Exclusive.pending_step (hI : Exclusive w) (h : Reached t role tr w) (hs : Step w l w')
    (hw : w'.Works q pt') {event : OutboxEvent} (he : event ∈ pt'.held) :
    w'.db.committed.statusOf event.id = some .pending := by
  cases h.origin hs hw with
  | other hw hlabel =>
    -- another worker may commit a status, but of an event that only it holds
    rcases (h.commits hs).statusOf (hI.pending q pt' hw event he) with
      hst | ⟨p, pt, r, hl, hwp, event', he', hid⟩
    · exact hst
    · have hpq : p ≠ q := fun e => hlabel _ r (e ▸ hl)
      exact absurd hid (hI.disjoint p q pt pt' hpq hwp hw event' he' event he)
  | own W pt o k r hl ha hp hn hx hpt =>
    subst hpt
    cases heldStep (h.workerInv hp).session hn hx hw.2.2 with
    | kept hu ht hsub => rw [ht]; exact hI.pending q pt ⟨ha, ⟨W, hp⟩, hu⟩ event (hsub.subset he)
    | settled hu first status ht hheld =>
      -- the status that it commits is that of the event it is done with
      have hwq : w.Works q pt := ⟨ha, ⟨W, hp⟩, hu⟩
      have hnd := hI.nodup q pt hwq
      rw [hheld] at hnd
      have hne : event.id ≠ first.id := fun e => (List.nodup_cons.1 hnd).1 (e ▸ List.mem_map_of_mem he)
      rw [ht, Tables.statusOf_setStatus, hI.pending q pt hwq event (hheld ▸ List.mem_cons_of_mem _ he)]
      simp [hne]
    | fetched n rows _ ht hheld hf =>
      rw [hheld] at he
      obtain ⟨row, hrow, rfl⟩ := List.mem_map.1 he
      rw [ht]
      exact (Tables.statusOf_row h.keys_nodup (hf.sub.subset hrow)).trans
        (congrArg some (hf.eligible row hrow).1)
    | dropped hheld => rw [hheld] at he; cases he

/-- Two workers hold different events: at most one of them has just fetched, and the
events of the other were then out of its reach. -/
theorem Exclusive.disjoint_step (hI : Exclusive w) (h : Reached t role tr w) (hs : Step w l w')
    (hok : FetchOk w l) {qt : WorkerPoint} (hpq : p ≠ q) (hwp : w'.Works p pt') (hwq : w'.Works q qt)
    {event event' : OutboxEvent} (he : event ∈ pt'.held) (he' : event' ∈ qt.held) :
    event.id ≠ event'.id := by
  rcases h.held_before hs hwp he with ⟨pt₀, hwp₀, he₀⟩ | ⟨n, r, row, hl, hreach, hid⟩
  · rcases h.held_before hs hwq he' with ⟨pt₁, hwq₁, he₁⟩ | ⟨n, r, row, hl, hreach, hid⟩
    · exact hI.disjoint p q pt₀ pt₁ hpq hwp₀ hwq₁ event he₀ event' he₁
    · intro heq
      exact hok q n r hl p pt₀ hpq hwp₀ event he₀ row hreach (hid.trans heq.symm)
  · rcases h.held_before hs hwq he' with ⟨pt₁, hwq₁, he₁⟩ | ⟨n', r', row', hl', -, -⟩
    · intro heq
      exact hok p n r hl q pt₁ hpq.symm hwq₁ event' he₁ row hreach (hid.trans heq)
    · exact absurd (Event.exec.inj (hl.symm.trans hl')).1 hpq

/-- **Exclusiveness survives every step** that does not fetch an event of another worker. -/
theorem Exclusive.step (hI : Exclusive w) (h : Reached t role tr w) (hs : Step w l w')
    (hok : FetchOk w l) :
    Exclusive w' where
  nodup _ _ hw := by
    obtain ⟨-, ⟨W, hp⟩, -⟩ := hw
    exact Reached.held_nodup (h.step hs) hp
  pending _ _ hw _ he := hI.pending_step h hs hw he
  disjoint _ _ _ _ hpq hwp hwq _ he _ he' := hI.disjoint_step h hs hok hpq hwp hwq he he'

theorem exclusive_of_run (h : Run (Guarded Step FetchOk) (World.init t role) tr w) : Exclusive w := by
  refine h.invariant (I := fun _ w => Exclusive w) (exclusive_init t role) ?_
  rintro tr w l w' hrun hI ⟨hs, hok⟩
  exact hI.step hrun.forget hs hok

/-- A terminal status survives every step from a state in which workers are exclusive. -/
theorem Exclusive.terminal (hI : Exclusive w) (h : Reached t role tr w) (hs : Step w l w')
    (he : w.db.committed.statusOf e = some s) (hne : s ≠ .pending) :
    w'.db.committed.statusOf e = some s := by
  rcases (h.commits hs).statusOf he with hst | ⟨p, pt, r, -, hw, event, hev, rfl⟩
  · exact hst
  · have hpend := hI.pending p pt hw event hev
    rw [he] at hpend
    exact absurd (Option.some.inj hpend) hne

/-- **Terminal statuses are final**, as long as no worker fetches an event that another
has still to finish. -/
theorem terminal_status_final {tr' : List (Event P)}
    (h : Run (Guarded Step FetchOk) (World.init t role) tr w)
    (h' : Run (Guarded Step FetchOk) w tr' w') (he : w.db.committed.statusOf e = some s)
    (hne : s ≠ .pending) : w'.db.committed.statusOf e = some s := by
  induction h' with
  | init => exact he
  | step hr hs ih =>
    have hrun := h.append hr
    exact (exclusive_of_run hrun).terminal hrun.forget hs.1 ih hne

/-- Of the two workers one goes on to the second event. -/
theorem terminal_status_final_sample : ∃ tr w tr' w',
    Run (Guarded Step FetchOk) (World.init backlog fun _ : Bool => .worker ⟨2, 5⟩ 1) tr w ∧
    .exec false (.selectPending 2) (.ok []) ∈ tr ∧
    Run (Guarded Step FetchOk) w tr' w' ∧ w'.db.committed ≠ w.db.committed ∧
    w'.db.committed.statusOf firstEvent.id = some .processed := by
  obtain ⟨tr, ⟨procs, _, _⟩, h, rfl, rfl, hproc, hfetch, -⟩ := sample_pair
  have hrun := h.mono fun w l w' hs => (⟨hs.1, hs.2.2⟩ : Guarded Step FetchOk w l w')
  have h1 := hrun.restart.step ⟨.worker (p := true) trivial hproc rfl (.inc _), fetchOk_of_ne nofun⟩
  have h2 := h1.step ⟨.worker (p := true) trivial rfl rfl (.published _ _), fetchOk_of_ne nofun⟩
  have h3 := h2.step ⟨.worker (p := true) trivial rfl rfl (.updateStatus _ _ trivial
    ⟨_, .tail _ (.head _), rfl⟩ (free_of_other rfl _)), fetchOk_of_ne nofun⟩
  have h4 := h3.step ⟨.worker (p := true) trivial rfl rfl (.commit trivial), fetchOk_of_ne nofun⟩
  refine ⟨tr, _, _, _, hrun, hfetch, h4, ?_, terminal_status_final hrun h4 rfl (by decide)⟩
  show halfBacklog.apply (.setStatus secondEvent.id .processed) ≠ halfBacklog
  decide

/-- The worker `false` processes the second event; the worker `true`, which fetched it
before, does not reach SQS and marks it as failed. -/
theorem terminal_status_changes :
    ∃ tr w tr' w', Reached backlog (fun _ : Bool => .worker ⟨2, 5⟩ 1) tr w ∧
    Run Step w tr' w' ∧ w.db.committed.statusOf secondEvent.id = some .processed ∧
    w'.db.committed.statusOf secondEvent.id = some .failed := by
  obtain ⟨tr, ⟨procs, _, _⟩, h, rfl, rfl, htrue, hfalse, -⟩ := sample_overlap
  have h1 := h.step (.worker (p := false) trivial hfalse rfl (.updateStatus _ _ trivial
    ⟨_, .tail _ (.head _), rfl⟩ (free_of_other rfl _)))
  have h2 := h1.step (.worker (p := false) trivial rfl rfl (.commit trivial))
  have h3 := h2.restart.step (.worker (p := true) trivial htrue rfl (.inc _))
  have h4 := h3.step (.worker (p := true) trivial rfl rfl (.publishFailed _ _ false))
  have h5 := h4.step (.worker (p := true) trivial rfl rfl (.sleep _))
  have h6 := h5.step (.worker (p := true) trivial rfl rfl (.publishFailed _ _ false))
  have h7 := h6.step (.worker (p := true) trivial rfl rfl (.sleep _))
  have h8 := h7.step (.worker (p := true) trivial rfl rfl (.publishFailed _ _ false))
  have h9 := h8.step (.worker (p := true) trivial rfl rfl (.updateStatus _ _ trivial
    ⟨_, .tail _ (.head _), rfl⟩ (free_of_other rfl _)))
  have h10 := h9.step (.worker (p := true) trivial rfl rfl (.commit trivial))
  exact ⟨_, _, _, _, h2, h10, rfl, rfl⟩

end Reach

end OrdersApi
