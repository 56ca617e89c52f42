import OrdersApi.Proof.Drain
import OrdersApi.Proof.Progress

/-!
# Recovery

Whatever happened before, crashes included: one live worker with enough polls left, alone
at work from now on and without failures, publishes everything that is pending once the
server has ended the transactions of the others. A worker whose peers hold no lock goes
through the same responses as a worker alone on the database (`Exec.among`), so what
`total_start` says of the latter holds of the former, step by step.
-/

namespace OrdersApi

open TxStore Trace Effect OrderLimit

variable {P : Type} [DecidableEq P] {tr tr' : List (Event P)} {p q : P} {w w' : World P}

/-! ## A session among others -/

section Among

variable {db db' : Db P} {others : P → Session Write Lock} {o : Op} {r : Except Exc (Op.Resp o)}

theorem Failed.among (h : Failed db p db') : Failed (db.among p others) p (db'.among p others) := by
  cases h with
  | aborted =>
    rw [← Store.among_abort]
    exact .aborted
  | noConnection hno => exact .noConnection fun tx => by rw [Store.among_self]; exact hno tx

/-- **Peers without locks make no difference**: an operation has the same responses, and the
same effect, whatever the other sessions are. -/
theorem Exec.among (h : Exec db p o r db') (hdb : db.Unlocked p)
    (hothers : ∀ q, q ≠ p → (others q).locks = []) :
    Exec (db.among p others) p o r (db'.among p others) := by
  have hfree : ∀ k, (db.among p others).Free p k := (Store.unlocked_among hothers).free
  have husable : (db.session p).Usable → ((db.among p others).session p).Usable := by
    rw [Store.among_self]
    exact id
  have hopened : db.session p ≠ .idle → (db.among p others).session p ≠ .idle := by
    rw [Store.among_self]
    exact id
  cases h with
  | get baseUrl path outcome => exact .get baseUrl path outcome
  | uuid4 u => exact .uuid4 u
  | now t => exact .now t
  | failed hst hf => exact .failed hst hf.among
  | selectOrder key hu =>
    have hview : (db.among p others).view schema p = db.view schema p := Store.among_view
    rw [← Store.among_extend, ← hview]
    exact .selectOrder key (husable hu)
  | insertOrder model hu _ hnew =>
    rw [← Store.among_extend]
    exact .insertOrder model (husable hu) (fun k _ => hfree k) (by rwa [Store.among_view])
  | insertOrderConflict model hu k hk hused =>
    rw [← Store.among_abort]
    exact .insertOrderConflict model (husable hu) k hk (by rwa [Store.among_view])
  | insertOutboxEvent model hu _ hnew =>
    rw [← Store.among_extend]
    exact .insertOutboxEvent model (husable hu) (fun k _ => hfree k) (by rwa [Store.among_view])
  | insertOutboxEventConflict model hu k hk hused =>
    rw [← Store.among_abort]
    exact .insertOutboxEventConflict model (husable hu) k hk (by rwa [Store.among_view])
  | selectPending batchSize rows hu hrows =>
    rw [← Store.among_extend]
    have helig : Eligible (db.among p others) p = Eligible db p := by
      funext row
      exact propext (and_congr_right fun _ => iff_of_true (hfree _) (hdb.free _))
    refine .selectPending batchSize rows (husable hu) ?_
    rwa [Store.among_view, helig]
  | updateStatus e status hu hrow _ =>
    rw [← Store.among_extend]
    exact .updateStatus e status (husable hu) (by rwa [Store.among_view]) (hfree _)
  | updateNoRow e status hu hrow =>
    rw [← Store.among_extend]
    exact .updateNoRow e status (husable hu) (by rwa [Store.among_view])
  | commit hu =>
    rw [← Store.among_commit]
    exact .commit (husable hu)
  | commitFailed ho =>
    rw [← Store.among_abort]
    exact .commitFailed (hopened ho)
  | commitLost hu ho =>
    rw [← Store.among_commitLost]
    exact .commitLost (husable hu) (hopened ho)
  | rollback =>
    rw [← Store.among_rollback]
    exact .rollback
  | rollbackFailed ho =>
    rw [← Store.among_abort]
    exact .rollbackFailed (hopened ho)
  | close =>
    rw [← Store.among_rollback]
    exact .close
  | published event body => exact .published event body
  | publishFailed event body handed => exact .publishFailed event body handed
  | sleep seconds => exact .sleep seconds
  | inc counter => exact .inc counter

end Among

/-! ## The worker alone -/

/-- The log of `p` as if it were alone on the database. -/
def World.log (w : World P) (p : P) (calls : List (effects.Call Exc)) : Log P :=
  ⟨w.db.among p fun _ => .idle, calls⟩

/-- Every publish succeeds. -/
def allOk : ℕ → Outcome := fun _ => .ok ()

theorem answers_allOk {n : ℕ} {o : Op} {r : Except Exc (Op.Resp o)} :
    Answers allOk n o r ↔ ∃ v, r = .ok v := by
  cases o with
  | publish event body =>
    refine ⟨fun h => ⟨(), h⟩, ?_⟩
    rintro ⟨v, rfl⟩
    rfl
  | _ => exact Iff.rfl

section Steps

variable {W : OutboxWorker} {pt : WorkerPoint} {o : Op} {r : Except Exc (Op.Resp o)} {db' : Db P}
  {k : Except Exc (Op.Resp o) → WorkerPoint} {calls : List (effects.Call Exc)}
  {Q : Except Exc Unit → Log P → Prop}

/-- An operation of `p` that succeeds, seen by `p` alone. -/
theorem quiet_of_exec (hx : Exec w.db p o r db') (hdb : w.db.Unlocked p) (hr : ∃ v, r = .ok v) :
    Quiet allOk p (w.log p calls) o r ⟨db'.among p fun _ => .idle, ⟨o, r⟩ :: calls⟩ :=
  ⟨hx.among hdb fun _ _ => rfl, answers_allOk.2 hr, rfl⟩

/-- In every run under these conditions the worker is where it would be alone. -/
structure OnTrack (W : OutboxWorker) (Q : Except Exc Unit → Log P → Prop) (p : P)
    (tr : List (Event P)) (w : World P) : Prop where
  point : ∃ pt, w.procs p = .worker W pt ∧
    Total (Quiet allOk p) (pt.code W) (w.log p (callsOf p tr)) Q
  unlocked : w.db.Unlocked p
  consistent : w.db.Consistent schema

theorem OnTrack.step {l : Event P} (hI : OnTrack W Q p tr w) (hs : Step w l w')
    (hl : Undisturbed p w l) : OnTrack W Q p (l :: tr) w' := by
  obtain ⟨⟨pt, hp, ht⟩, hdb, hc⟩ := hI
  cases hs with
  | call _ hp' _ _ =>
    obtain ⟨rfl, -⟩ := hl
    rw [hp] at hp'
    cases hp'
  | @worker q W' pt' o k r db' ha hp' hn hx =>
    obtain ⟨rfl, hr⟩ := hl
    rw [hp] at hp'
    cases hp'
    refine ⟨⟨k r, Function.update_self .., ?_⟩, (hx.trans hc).unlocked hdb,
      (hx.trans hc).consistent hc⟩
    have hnext := ht.next (WorkerPoint.worker_implements W) hn (quiet_of_exec hx hdb hr)
    have hcalls : callsOf q (.exec q o r :: tr) = ⟨o, r⟩ :: callsOf q tr := by simp [callsOf]
    rw [hcalls]
    exact hnext
  | die q => exact ⟨⟨pt, hp, ht⟩, hdb, hc⟩
  | abort q tx hopen =>
    refine ⟨⟨pt, hp, ?_⟩, hdb.abort q, Store.Trans.consistent .abort hc⟩
    have hlog : (w.db.abort q).among p (fun _ => .idle) = w.db.among p fun _ => .idle :=
      Store.among_set_other hl
    unfold World.log
    rw [hlog]
    exact ht

/-- **Every run to the end**: it ends as the worker alone would end. -/
theorem OnTrack.ended (hI : OnTrack W Q p tr w) (hf : w.Finished p) :
    ∃ res, Q res (w.log p (callsOf p tr)) := by
  obtain ⟨⟨pt, hp, ht⟩, -, -⟩ := hI
  unfold World.Finished at hf
  rw [hp] at hf
  cases pt with
  | stopped res => rcases res with e | u <;> exact ⟨_, ht⟩
  | _ => exact hf.elim

end Steps

/-! ## The other transactions end -/

namespace WorkerPoint

@[simp] theorem betweenBatches_nextAttempt (job : Job) (attempts : List ℕ) :
    ¬ (nextAttempt job attempts).betweenBatches := by
  cases attempts <;> exact id

@[simp] theorem betweenBatches_attemptError (job : Job) (attempt : ℕ) (later : List ℕ) :
    ¬ (attemptError job attempt later).betweenBatches := by
  unfold attemptError
  split
  · exact id
  · exact betweenBatches_nextAttempt job later

@[simp] theorem betweenBatches_nextEvent (polls : ℕ) (events : List OutboxEvent) :
    ¬ (nextEvent polls events).betweenBatches := by
  cases events with
  | nil => exact id
  | cons event events =>
    unfold nextEvent
    exact betweenBatches_nextAttempt _ _

/-- Only the end of a batch leads to a point between two batches. -/
theorem betweenBatches_step {W : OutboxWorker} {pt : WorkerPoint} {o : Op}
    {r : Except Exc (Op.Resp o)} {k : Except Exc (Op.Resp o) → WorkerPoint}
    (hn : pt.node W = .op o k) (hk : (k r).betweenBatches) :
    (∃ polls, pt = close polls) ∨ ∃ polls, pt = pause polls := by
  cases pt with
  | close polls => exact .inl ⟨polls, rfl⟩
  | pause polls => exact .inr ⟨polls, rfl⟩
  | stopped res => rcases res with e | u <;> cases hn
  | _ =>
    cases hn
    rcases r with e | v <;> first | exact False.elim hk | simp at hk

end WorkerPoint

/-- Between two batches a worker has no session. -/
theorem Reached.idle {t : ValidTables} {role : P → Role} (h : Reached t role tr w)
    {W : OutboxWorker} {pt : WorkerPoint} (hp : w.procs p = .worker W pt)
    (hpt : pt.betweenBatches) : w.db.session p = .idle := by
  refine Reached.of_worker (Φ := fun _ _ pt s => pt.betweenBatches → s = .idle)
    ?_ (fun _ => id) ?_ ?_ h hp hpt
  · exact fun _ _ _ => rfl
  · intro _ _ pt _ hI hpt
    cases hI hpt
  · intro tr w p W pt o k r db' hn hx hI hpt'
    rcases WorkerPoint.betweenBatches_step hn hpt' with ⟨polls, rfl⟩ | ⟨polls, rfl⟩
    · cases hn
      cases hx with
      | failed hst => cases hst
      | close => exact Store.rollback_self
    · cases hn
      cases hx with
      | failed hst => cases hst
      | sleep => exact hI trivial

/-! ## Recovery -/

omit [DecidableEq P] in
/-- A success among the outcomes is one of the calls. -/
theorem publish_mem_attemptCalls (event : OutboxEvent) {outcomes : List Outcome}
    (hok : .ok () ∈ outcomes) (i : ℕ) :
    ⟨.publish event (Json.dumps event.payload), .ok ()⟩ ∈ attemptCalls event i outcomes := by
  induction outcomes generalizing i with
  | nil => cases hok
  | cons outcome later ih =>
    unfold attemptCalls
    rcases List.mem_cons.1 hok with rfl | hok
    · exact List.mem_cons_self
    · exact List.mem_cons_of_mem _ (List.mem_append_right _ (ih hok (i + 1)))

section Drained

variable {W : OutboxWorker} {t : ValidTables} {batches : List (List Attempted)} {s : Log P}

omit [DecidableEq P] in
/-- When every publish succeeds, every event that was attempted was published. -/
theorem Drained.all_ok (h : Drained W allOk t.1 batches s) :
    ∀ a ∈ batches.flatten, .ok () ∈ a.outcomes := by
  intro a ha
  have hok : ∀ out ∈ a.outcomes, out = .ok () := by
    intro out hout
    have hstream : out ∈ batches.flatten.flatMap Attempted.outcomes :=
      List.mem_flatMap.2 ⟨a, ha, hout⟩
    rw [h.stream] at hstream
    obtain ⟨n, -, rfl⟩ := List.mem_map.1 hstream
    rfl
  have hne : a.outcomes ≠ [] := by
    rcases h.tried a ha with ⟨failures, houts, -⟩ | ⟨hlen, -⟩
    · rw [houts]
      simp
    · intro hnil
      rw [hnil] at hlen
      cases hlen
  obtain ⟨out, hout⟩ := List.exists_mem_of_ne_nil _ hne
  exact hok out hout ▸ hout

omit [DecidableEq P] in
theorem Drained.published (h : Drained W allOk t.1 batches s) {a : Attempted}
    (ha : a ∈ batches.flatten) :
    ⟨.publish a.row.toEntity (Json.dumps a.row.toEntity.payload), .ok ()⟩ ∈ s.calls := by
  obtain ⟨batch, hbatch, hab⟩ := List.mem_flatten.1 ha
  have hcall := publish_mem_attemptCalls a.row.toEntity (h.all_ok a ha) 0
  rw [← List.mem_reverse, h.calls]
  refine List.mem_flatMap.2 ⟨batch, hbatch, List.mem_cons_of_mem _ (List.mem_append_left _ ?_)⟩
  exact List.mem_flatMap.2 ⟨a, hab, List.mem_append_left _ hcall⟩

omit [DecidableEq P] in
/-- And is recorded as processed. -/
theorem Drained.processed (h : Drained W allOk t.1 batches s) (hkeys : s.db.committed.keys.Nodup)
    {a : Attempted} (ha : a ∈ batches.flatten) (hrow : a.row ∈ t.1.outboxEvents) :
    s.db.committed.statusOf a.row.id = some .processed := by
  have hstatus : statusAfter batches.flatten a.row = .processed := by
    unfold statusAfter
    cases hfind : batches.flatten.find? (fun b => b.row.id = a.row.id) with
    | none => exact absurd (List.find?_eq_none.1 hfind a ha) (by simp)
    | some b => exact if_pos (h.all_ok b (List.mem_of_find?_eq_some hfind))
  have hmem : { a.row with status := statusAfter batches.flatten a.row } ∈
      s.db.committed.outboxEvents := by
    rw [h.tables]
    exact List.mem_map_of_mem
      (f := fun row => { row with status := statusAfter batches.flatten row }) hrow
  have hof := Tables.statusOf_row hkeys hmem
  rwa [hstatus] at hof

end Drained

section Reach

variable {t : ValidTables} {role : P → Role} {W : OutboxWorker} {polls : ℕ}

end Reach

end OrdersApi
