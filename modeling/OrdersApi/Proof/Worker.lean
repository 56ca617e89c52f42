import OrdersApi.Proof.Local
import OrdersApi.Spec.Observe

/-!
# What a worker has done at each of its points

`WorkerInv` ties a worker's control point to its session, to the committed tables and
to the trace: every event in its memory is a copy of a committed row, its open
transaction has written at most the status that it is about to commit, and it marks an
event only after `publish` has returned for it.
-/

namespace OrdersApi

open TxStore Trace

variable {P : Type} {tr : List (Event P)} {l : Event P} {p : P} {W : OutboxWorker} {tab tab' : Tables}
  {s : Session Write Lock} {event : OutboxEvent}

/-- `event` was read from a row of the table; only the row's status may have changed since. -/
def CopyIn (tab : Tables) (event : OutboxEvent) : Prop :=
  ∃ s, (⟨event.id, event.eventType, event.payload, s, event.createdAt⟩ : OutboxEventModel) ∈ tab.outboxEvents

theorem CopyIn.mono (h : CopyIn tab event) (hext : tab.Extends tab') : CopyIn tab' event := by
  obtain ⟨s, hs⟩ := h
  exact hext.events _ hs

theorem copyIn_toEntity {row : OutboxEventModel} (h : row ∈ tab.outboxEvents) :
    CopyIn tab row.toEntity :=
  ⟨row.status, h⟩

theorem PublishedOk.cons {e : UUID} (h : PublishedOk tr e) (l : Event P) : PublishedOk (l :: tr) e := by
  obtain ⟨p, event, body, he, hm⟩ := h
  exact ⟨p, event, body, he, List.mem_cons_of_mem _ hm⟩

/-- While no other session holds a lock, the pending rows of a sorted table are fetched
if they fit into a batch. -/
theorem fetched_of_unlocked {db : Db P} {table : List OutboxEventModel} {n : ℕ}
    (hfree : ∀ k, db.Free p k)
    (hsorted : table.Pairwise fun x y => x.createdAt.key ≤ y.createdAt.key)
    (hlen : (table.filter fun row => row.status = .pending).length ≤ n) :
    Fetched table (Eligible db p) n (table.filter fun row => row.status = .pending) := by
  refine OrderLimit.selected_filter (fun row _ => ?_) hsorted hlen
  simp [Eligible, hfree]

/-! ## Points -/

namespace WorkerPoint

variable (job : Job) (attempt polls : ℕ) (later : List ℕ) (events : List OutboxEvent)

/-- What the open transaction of a worker has written, unless it is aborted. -/
def writes : WorkerPoint → List Write
  | commit job _ _ => [.setStatus job.event.id .processed]
  | commitFailed job => [.setStatus job.event.id .failed]
  | _ => []

/-- The event for which `publish` has returned and which is not yet counted. -/
def sent : WorkerPoint → Option OutboxEvent
  | mark job _ _ | commit job _ _ => some job.event
  | _ => none

@[simp] theorem held_nextAttempt : (nextAttempt job later).held = job.event :: job.batch := by
  cases later <;> rfl

@[simp] theorem held_attemptError : (attemptError job attempt later).held = job.event :: job.batch := by
  unfold attemptError; split
  · rfl
  · exact held_nextAttempt job later

@[simp] theorem held_nextEvent : (nextEvent polls events).held = events := by cases events <;> rfl

@[simp] theorem held_poll : (poll polls).held = [] := by cases polls <;> rfl

@[simp] theorem writes_nextAttempt : (nextAttempt job later).writes = [] := by cases later <;> rfl

@[simp] theorem writes_attemptError : (attemptError job attempt later).writes = [] := by
  unfold attemptError; split
  · rfl
  · exact writes_nextAttempt job later

@[simp] theorem writes_nextEvent : (nextEvent polls events).writes = [] := by cases events <;> rfl

@[simp] theorem writes_poll : (poll polls).writes = [] := by cases polls <;> rfl

@[simp] theorem sent_nextAttempt : (nextAttempt job later).sent = none := by cases later <;> rfl

@[simp] theorem sent_attemptError : (attemptError job attempt later).sent = none := by
  unfold attemptError; split
  · rfl
  · exact sent_nextAttempt job later

@[simp] theorem sent_nextEvent : (nextEvent polls events).sent = none := by cases events <;> rfl

@[simp] theorem sent_poll : (poll polls).sent = none := by cases polls <;> rfl

end WorkerPoint

/-! ## The invariant -/

/-- What holds at a worker's control point, with its session `s`. -/
structure WorkerInv (tr : List (Event P)) (tab : Tables) (pt : WorkerPoint) (s : Session Write Lock) :
    Prop where
  copies : ∀ event ∈ pt.held, CopyIn tab event
  session : s.Holds pt.writes
  sent : ∀ event, pt.sent = some event → PublishedOk tr event.id

variable {pt : WorkerPoint}

theorem WorkerInv.other (h : WorkerInv tr tab pt s) (hext : tab.Extends tab') :
    WorkerInv (l :: tr) tab' pt s :=
  ⟨fun event he => (h.copies event he).mono hext, h.session, fun event he => (h.sent event he).cons l⟩

theorem WorkerInv.aborted (h : WorkerInv tr tab pt s) : WorkerInv tr tab pt .aborted :=
  { h with session := .inl rfl }

/-- At a point with nothing written and nothing sent only the copies matter. -/
theorem WorkerInv.quiet (hheld : ∀ event ∈ pt.held, CopyIn tab event) (hs : s.Holds [])
    (hw : pt.writes = []) (hsent : pt.sent = none) : WorkerInv tr tab pt s :=
  ⟨hheld, hw ▸ hs, fun _ he => by rw [hsent] at he; cases he⟩

section Step

variable [DecidableEq P] {db db' : Db P} {o : Op} {r : Except Exc (Op.Resp o)}
  {k : Except Exc (Op.Resp o) → WorkerPoint}

omit [DecidableEq P] in
/-- The row of an event in memory is there to be updated. -/
theorem CopyIn.visible (h : CopyIn db.committed event) :
    ∃ row ∈ (db.view schema p).outboxEvents, row.id = event.id := by
  obtain ⟨s, hs⟩ := h.mono (Tables.extends_foldl _ _)
  exact ⟨_, hs, rfl⟩

/-- Marking an event writes its status; when the statement fails nothing is written. -/
theorem exec_updateStatus {r : Except Exc Unit} {status : OutboxStatus}
    (hx : Exec db p (.updateStatus event.id status) r db') (hs : (db.session p).Holds [])
    (hcopy : CopyIn db.committed event) : db'.committed = db.committed ∧
      ((r = .ok () ∧ (db'.session p).Holds [.setStatus event.id status]) ∨
        (r = .error .databaseError ∧ (db'.session p).Holds [])) := by
  cases hx with
  | failed _ hf => exact ⟨hf.committed, .inr ⟨rfl, hf.holds hs⟩⟩
  | updateStatus _ _ hu => exact ⟨rfl, .inl ⟨rfl, holds_extend hs hu _ _⟩⟩
  | updateNoRow _ _ _ hno =>
    -- committed rows stay, so the row of the copy is visible
    obtain ⟨row, hrow, hid⟩ := hcopy.visible (p := p)
    exact absurd hid (hno row hrow)

/-- After a commit, applied or not, the transaction has written nothing more. -/
theorem exec_commit {r : Except Exc Unit} (hx : Exec db p .commit r db') :
    db.committed.Extends db'.committed ∧ (db'.session p).Holds [] := by
  cases hx with
  | failed hst => cases hst
  | commit hu => exact ⟨Tables.extends_foldl _ _, by rw [Store.commit_self]; exact .inr rfl⟩
  | commitFailed => exact ⟨.refl _, by rw [Store.abort_self]; exact .inl rfl⟩
  | commitLost hu => exact ⟨Tables.extends_foldl _ _, by rw [Store.commitLost_self]; exact .inl rfl⟩

/-- **A worker's own step keeps its invariant.** -/
theorem WorkerInv.step (hI : WorkerInv tr db.committed pt (db.session p)) (hn : pt.node W = .op o k)
    (hx : Exec db p o r db') :
    WorkerInv (.exec p o r :: tr) db'.committed (k r) (db'.session p) := by
  have hcopies := hI.copies
  have hs := hI.session
  cases pt with
  | fetch polls =>
    cases hn
    cases hx with
    | failed _ hf => exact .quiet (by simp [WorkerPoint.held]) (hf.holds hs) rfl rfl
    | selectPending _ rows hu hfetch =>
      refine .quiet ?_ (holds_read hs hu _) (by simp) (by simp)
      intro event he
      rw [WorkerPoint.held_nextEvent] at he
      obtain ⟨row, hrow, rfl⟩ := List.mem_map.1 he
      have hmem := hfetch.sub.subset hrow
      -- the session has written nothing, so it sees the committed rows
      rw [view_of_nil hs] at hmem
      exact copyIn_toEntity hmem
  | publish job attempt later =>
    cases hn
    cases hx with
    | failed hst => cases hst
    | published =>
      refine ⟨hcopies, hs, ?_⟩
      rintro event ⟨⟩
      exact ⟨p, job.event, _, rfl, List.mem_cons_self⟩
    | publishFailed =>
      exact .quiet (by rw [WorkerPoint.held_attemptError]; exact hcopies) hs (by simp) (by simp)
  | mark job attempt later =>
    cases hn
    obtain ⟨hc, ⟨rfl, hs'⟩ | ⟨rfl, hs'⟩⟩ := exec_updateStatus hx hs (hcopies _ List.mem_cons_self)
    · rw [hc]
      exact ⟨hcopies, hs', fun event he => (hI.sent event he).cons _⟩
    · rw [hc]
      exact .quiet (by rw [WorkerPoint.held_attemptError]; exact hcopies) hs' (by simp) (by simp)
  | commit job attempt later =>
    cases hn
    obtain ⟨hext, hs'⟩ := exec_commit hx
    have hcopies' := fun event he => (hcopies event he).mono hext
    -- after a commit that failed the event is published again, whether or not it was applied
    rcases r with e | u
    · exact .quiet (by rw [WorkerPoint.held_attemptError]; exact hcopies') hs' (by simp) (by simp)
    · exact .quiet (fun event he => hcopies' event (List.mem_cons_of_mem _ he)) hs' rfl rfl
  | count job attempt later =>
    cases hn
    cases hx with
    | failed hst => cases hst
    | inc => exact .quiet (by rw [WorkerPoint.held_nextEvent]; exact hcopies) hs (by simp) (by simp)
  | backoff job attempt later =>
    cases hn
    cases hx with
    | failed hst => cases hst
    | sleep => exact .quiet (by rw [WorkerPoint.held_nextAttempt]; exact hcopies) hs (by simp) (by simp)
  | markFailed job =>
    cases hn
    obtain ⟨hc, ⟨rfl, hs'⟩ | ⟨rfl, hs'⟩⟩ := exec_updateStatus hx hs (hcopies _ List.mem_cons_self)
    · rw [hc]
      exact ⟨hcopies, hs', fun _ he => nomatch he⟩
    · rw [hc]
      exact .quiet (fun event he => hcopies event (List.mem_cons_of_mem _ he)) hs' rfl rfl
  | commitFailed job =>
    cases hn
    obtain ⟨hext, hs'⟩ := exec_commit hx
    exact .quiet (fun event he => (hcopies event (List.mem_cons_of_mem _ he)).mono hext) hs' rfl rfl
  | countFailed job =>
    cases hn
    cases hx with
    | failed hst => cases hst
    | inc => exact .quiet (by rw [WorkerPoint.held_nextEvent]; exact hcopies) hs (by simp) (by simp)
  | close polls =>
    cases hn
    cases hx with
    | failed hst => cases hst
    | close => exact .quiet (by simp [WorkerPoint.held]) (by rw [Store.rollback_self]; exact .inr rfl) rfl rfl
  | pause polls =>
    cases hn
    cases hx with
    | failed hst => cases hst
    | sleep => exact .quiet (by simp) hs (by simp) (by simp)
  | stopped res => rcases res with e | u <;> cases hn

end Step

section Reach

variable [DecidableEq P] {t : ValidTables} {role : P → Role} {w : World P}

/-- **The invariant of workers**, in every run. -/
theorem Reached.workerInv (h : Reached t role tr w) (hp : w.procs p = .worker W pt) :
    WorkerInv tr w.db.committed pt (w.db.session p) := by
  have hg : Run (Guarded Step fun _ _ => True) (World.init t role) tr w := h.unconditional
  refine Reached.local (Φ := fun tr tab _ x s => ∀ W pt, x = .worker W pt → WorkerInv tr tab pt s)
    ?_ ?_ ?_ ?_ ?_ hg p W pt hp
  · intro p W pt he
    cases hr : role p with
    | call a => rw [hr] at he; cases he
    | worker W' polls =>
      rw [hr] at he; cases he
      exact .quiet (by simp) (.inr rfl) (by simp) (by simp)
  · intro tr tab tab' p x s l _ hext hI W pt he
    exact (hI W pt he).other hext
  · intro tr tab p x tx hI W pt he
    exact (hI W pt he).aborted
  · intro tr w p a pt o k r db' _ _ _ _ _ _ W' pt' he
    cases he
  · intro tr w p W pt o k r db' _ _ _ hn hx hI W' pt' he
    cases he
    exact (hI W pt rfl).step hn hx

end Reach

end OrdersApi
