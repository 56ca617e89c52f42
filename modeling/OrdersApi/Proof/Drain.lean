import OrdersApi.Proof.Agreement
import OrdersApi.Proof.Attempts
import OrdersApi.Proof.Verdict

/-!
# Draining the outbox

From what the worker does for one event, by induction over the events of a batch and
over the polls, what a whole run does (`outbox_drained`). The events of each batch are
the oldest pending ones of what the batches before have left.
-/

namespace OrdersApi

open TxStore Effect OrderLimit OutboxWorker

variable {P : Type} [DecidableEq P] {stream : ℕ → Outcome} {p : P} {s s' : Log P}

/-! ## A batch -/

/-- The events of a batch with the outcomes of their attempts, from the `n`-th outcome of
the stream on. -/
def attempted (stream : ℕ → Outcome) : ℕ → List OutboxEventModel → List Attempted
  | _, [] => []
  | n, row :: rows =>
    ⟨row, attempts stream maxRetries n⟩ ::
      attempted stream (n + (attempts stream maxRetries n).length) rows

theorem attempted_rows (n : ℕ) (rows : List OutboxEventModel) :
    (attempted stream n rows).map Attempted.row = rows := by
  induction rows generalizing n with
  | nil => rfl
  | cons row rows ih => rw [attempted, List.map_cons, ih]

theorem attempted_tried (n : ℕ) (rows : List OutboxEventModel) :
    ∀ a ∈ attempted stream n rows, Tried a.outcomes := by
  induction rows generalizing n with
  | nil => nofun
  | cons row rows ih =>
    rw [attempted, List.forall_mem_cons]
    exact ⟨tried_attempts stream n, ih _⟩

theorem attempted_outcomes (n : ℕ) (rows : List OutboxEventModel) :
    (attempted stream n rows).flatMap Attempted.outcomes =
      (List.range' n ((attempted stream n rows).flatMap Attempted.outcomes).length).map stream := by
  induction rows generalizing n with
  | nil => rfl
  | cons row rows ih =>
    rw [attempted, List.flatMap_cons, List.length_append, ← List.range'_append_1, List.map_append,
      ← attempts_eq, ← ih]

/-- The log when the events of a batch were settled. -/
def Log.settleAll (p : P) : Log P → List Attempted → Log P
  | s, [] => s
  | s, a :: batch => (s.settle p a.row.id (verdict a.outcomes) a.calls).settleAll p batch

theorem Ready.settle (h : Ready p s.db) (e : UUID) (status : OutboxStatus)
    (calls : List (effects.Call Exc)) :
    Ready p (s.settle p e status calls).db where
  alone q hq := by
    show Function.update s.db.session p .idle q = .idle
    rw [Function.update_of_ne hq, h.alone q hq]
  usable := by simp [Log.settle]
  writes := by simp [Log.settle]

theorem publishes_settle (s : Log P) (e : UUID) (status : OutboxStatus)
    (calls : List (effects.Call Exc)) :
    publishes (s.settle p e status calls).calls = publishes s.calls + publishes calls := by
  simp [Log.settle, publishes, Nat.add_comm]

theorem publishes_attempted (a : Attempted) : publishes a.calls = a.outcomes.length := by
  have hattempts : ∀ (event : OutboxEvent) (i : ℕ) (outcomes : List Outcome),
      publishes (attemptCalls event i outcomes) = outcomes.length := by
    intro event i outcomes
    induction outcomes generalizing i with
    | nil => rfl
    | cons outcome later ih =>
      have ih := ih (i + 1)
      unfold publishes at ih ⊢
      simp only [attemptCalls, List.countP_cons, List.countP_append, ih, List.length_cons]
      split <;> simp [Op.isPublish]
  have hattempts := hattempts a.row.toEntity 0 a.outcomes
  unfold publishes at hattempts ⊢
  rw [Attempted.calls, List.countP_append, hattempts]
  rfl

/-- **What the worker does for the events of a batch.** -/
theorem total_processEvents {Q : Except Exc Unit → Log P → Prop} {rows : List OutboxEventModel}
    (hready : Ready p s.db) (hrows : ∀ row ∈ rows, ∃ row' ∈ s.db.committed.outboxEvents, row'.id = row.id) :
    Total (Quiet stream p) (processEvents (rows.map OutboxEventModel.toEntity)) s Q ↔
      Q (.ok ()) (s.settleAll p (attempted stream (publishes s.calls) rows)) := by
  induction rows generalizing s with
  | nil => simp [processEvents, attempted, Log.settleAll]
  | cons row rows ih =>
    rw [List.map_cons, processEvents, total_bind,
      total_processEvent hready (hrows row List.mem_cons_self) rfl, attempted, Log.settleAll]
    have hready' := hready.settle row.id (verdict (attempts stream maxRetries (publishes s.calls)))
      (Attempted.mk row (attempts stream maxRetries (publishes s.calls))).calls
    refine (ih hready' fun later hlater => ?_).trans ?_
    · obtain ⟨row', hrow', hid⟩ := hrows later (List.mem_cons_of_mem _ hlater)
      exact ⟨row'.setStatus row.id _, List.mem_map_of_mem hrow', by rw [OutboxEventModel.setStatus_id, hid]⟩
    · rw [publishes_settle, publishes_attempted]

section SettleAll

variable {batch done : List Attempted}

theorem Ready.settleAll (h : Ready p s.db) (batch : List Attempted) :
    Ready p (s.settleAll p batch).db := by
  induction batch generalizing s with
  | nil => exact h
  | cons a batch ih => exact ih (h.settle ..)

theorem calls_settleAll (s : Log P) (batch : List Attempted) :
    (s.settleAll p batch).calls = (batch.flatMap Attempted.calls).reverse ++ s.calls := by
  induction batch generalizing s with
  | nil => rfl
  | cons a batch ih =>
    rw [Log.settleAll, ih]
    simp [Log.settle]

theorem publishes_batch (batch : List Attempted) :
    publishes (batch.flatMap Attempted.calls) = (batch.flatMap Attempted.outcomes).length := by
  induction batch with
  | nil => rfl
  | cons a batch ih =>
    have hfirst := publishes_attempted a
    unfold publishes at ih hfirst ⊢
    rw [List.flatMap_cons, List.countP_append, ih, hfirst, List.flatMap_cons, List.length_append]

/-- Settling one more event. -/
theorem settled_append {t : Tables} {a : Attempted} (hnew : a.row.id ∉ done.map fun b => b.row.id) :
    (t.settled done).apply (.setStatus a.row.id (verdict a.outcomes)) = t.settled (done ++ [a]) := by
  have hrow : ∀ row : OutboxEventModel, ({ row with status := statusAfter done row } : OutboxEventModel).setStatus
      a.row.id (verdict a.outcomes) = { row with status := statusAfter (done ++ [a]) row } := by
    intro row
    unfold statusAfter OutboxEventModel.setStatus
    rw [List.find?_append, List.find?_singleton]
    by_cases hid : row.id = a.row.id
    -- an event is settled only once
    · have hnone : done.find? (fun b => b.row.id = row.id) = none := by
        rw [List.find?_eq_none]
        intro b hb he
        refine hnew (List.mem_map.2 ⟨b, hb, ?_⟩)
        rw [← hid]; simpa using he
      rw [hnone]
      simp [hid]
    · have hne : a.row.id ≠ row.id := fun h => hid h.symm
      simp [hid, hne]
  simp only [Tables.settled, Tables.apply, List.map_map]
  congr 1
  exact List.map_congr_left fun row _ => hrow row

theorem committed_settleAll {t : Tables} (hids : ((done ++ batch).map fun a => a.row.id).Nodup)
    (hdone : s.db.committed = t.settled done) :
    (s.settleAll p batch).db.committed = t.settled (done ++ batch) := by
  induction batch generalizing s done with
  | nil => rw [List.append_nil]; exact hdone
  | cons a batch ih =>
    have hnew : a.row.id ∉ done.map fun b => b.row.id := by
      intro hmem
      rw [List.map_append, List.nodup_append'] at hids
      exact hids.2.2 hmem List.mem_cons_self
    rw [← List.singleton_append, ← List.append_assoc] at hids ⊢
    refine ih hids ?_
    rw [← settled_append hnew, ← hdone]
    rfl

/-- What is pending when some events have been settled. -/
theorem pending_settled {t : Tables} (hkeys : t.keys.Nodup)
    (hdone : ∀ a ∈ done, a.row ∈ t.outboxEvents) :
    (t.settled done).pending = t.pending.filter fun row => row ∉ done.map Attempted.row := by
  have hstatus : ∀ row ∈ t.outboxEvents, statusAfter done row = .pending ↔
      row ∉ done.map Attempted.row ∧ row.status = .pending := by
    intro row hrow
    unfold statusAfter
    cases hfind : done.find? (fun a => a.row.id = row.id) with
    -- a settled event has a verdict, which is never `pending`
    | some a =>
      have ha := List.mem_of_find?_eq_some hfind
      have hid : a.row.id = row.id := by simpa using List.find?_some hfind
      have hmem : row ∈ done.map Attempted.row :=
        List.mem_map.2 ⟨a, ha, Tables.event_of_id hkeys (hdone a ha) hrow hid⟩
      have hne : verdict a.outcomes ≠ .pending := by unfold verdict; split <;> nofun
      exact iff_of_false hne fun h => h.1 hmem
    | none =>
      have hno : row ∉ done.map Attempted.row := by
        intro hmem
        obtain ⟨a, ha, hrow⟩ := List.mem_map.1 hmem
        exact List.find?_eq_none.1 hfind a ha (by simp [hrow])
      exact (and_iff_right hno).symm
  unfold Tables.pending Tables.settled
  rw [List.filter_map, List.filter_filter]
  have hfilter : t.outboxEvents.filter ((fun row => decide (row.status = .pending)) ∘
        fun row => { row with status := statusAfter done row }) =
      t.outboxEvents.filter fun row => decide (row ∉ done.map Attempted.row) && decide (row.status = .pending) := by
    refine List.filter_congr fun row hrow => ?_
    rw [Bool.eq_iff_iff]
    simpa using hstatus row hrow
  rw [hfilter]
  refine (List.map_congr_left fun row hrow => ?_).trans (List.map_id _)
  obtain ⟨hrow, hkeep⟩ := List.mem_filter.1 hrow
  have hkeep : row ∉ done.map Attempted.row ∧ row.status = .pending := by simpa using hkeep
  rw [(hstatus row hrow).2 hkeep, ← hkeep.2]
  rfl

end SettleAll

/-! ## The polls -/

/-- The log when the rows of a batch were fetched. -/
def Log.fetch (s : Log P) (p : P) (W : OutboxWorker) (rows : List OutboxEventModel) : Log P :=
  s.after (.selectPending W.batchSize) (.ok rows) (s.db.extend p [] (rows.map fun row => .eventRow row.id))

/-- The log when the session was closed. -/
def Log.close (s : Log P) (p : P) : Log P := s.after .close (.ok ()) (s.db.rollback p)

section Polls

variable {W : OutboxWorker} {rows : List OutboxEventModel}

omit [DecidableEq P] in
theorem Ready.of_idle {db : Db P} (h : ∀ q, db.session q = .idle) : Ready p db where
  alone q _ := h q
  usable := by rw [h p]; exact Session.usable_idle
  writes := by rw [h p]; rfl

theorem Ready.fetch (h : Ready p s.db) : Ready p (s.fetch p W rows).db where
  alone q hq := (Store.extend_other hq).trans (h.alone q hq)
  usable := by simp [Log.fetch, Log.after]
  writes := by simp [Log.fetch, Log.after, h.writes]

theorem Ready.close (h : Ready p s.db) (q : P) : (s.close p).db.session q = .idle := by
  unfold Log.close Log.after
  by_cases hq : q = p
  · rw [hq]; exact Store.rollback_self
  · exact (Store.rollback_other hq).trans (h.alone q hq)

/-- **What a poll does**, whichever rows the database selects. -/
theorem total_processBatch {Q : Except Exc Unit → Log P → Prop} (hready : Ready p s.db)
    (hQ : ∀ rows, Fetched s.db.committed.outboxEvents (Eligible s.db p) W.batchSize rows →
      Q (.ok ()) (((s.fetch p W rows).settleAll p (attempted stream (publishes s.calls) rows)).close p)) :
    Total (Quiet stream p) W.processBatch s Q := by
  unfold processBatch withSession OutboxRepository.fetchPending
  rw [total_ensuring]
  simp only [Prog.await_eq, Prog.op_bind]
  rw [total_op]
  refine ⟨?_, ?_⟩
  · obtain ⟨rows, hrows⟩ := exists_selected s.db.committed.outboxEvents (Eligible s.db p)
      (fun row => row.createdAt.key) W.batchSize
    rw [← hready.view] at hrows
    exact ⟨.ok rows, s.fetch p W rows, .selectPending _ _ hready.usable hrows, ⟨rows, rfl⟩, rfl⟩
  · rintro r ⟨db, calls⟩ ⟨hx, ⟨rows, hr⟩, hcalls⟩
    cases hcalls
    subst hr
    cases hx with
    | selectPending _ _ _ hrows =>
      rw [hready.view] at hrows
      simp only [Prog.ofExcept_ok, Prog.ret_bind, Prog.pure_eq]
      refine (total_processEvents (s := s.fetch p W rows) hready.fetch ?_).2 ?_
      · exact fun row hrow => ⟨row, hrows.sub.subset hrow, rfl⟩
      · rw [total_close]
        exact hQ rows hrows

/-- The log after a poll and the pause that follows it. -/
def Log.poll (s : Log P) (p : P) (W : OutboxWorker) (rows : List OutboxEventModel)
    (batch : List Attempted) : Log P :=
  let s' := ((s.fetch p W rows).settleAll p batch).close p
  s'.after (.sleep W.pollInterval) (.ok ()) s'.db

variable {batch : List Attempted} {batches : List (List Attempted)} {t : ValidTables}

theorem calls_poll (hmap : batch.map Attempted.row = rows) :
    (s.poll p W rows batch).calls = (pollCalls W batch).reverse ++ s.calls := by
  show _ :: _ :: (Log.settleAll p (s.fetch p W rows) batch).calls = _
  rw [calls_settleAll, ← hmap]
  simp [pollCalls, Log.fetch, Log.after]

theorem publishes_poll (hmap : batch.map Attempted.row = rows) :
    publishes (s.poll p W rows batch).calls =
      publishes s.calls + (batch.flatMap Attempted.outcomes).length := by
  have hbatch := publishes_batch batch
  rw [calls_poll hmap]
  unfold publishes pollCalls at *
  rw [List.countP_append, List.countP_reverse, List.countP_cons, List.countP_append, hbatch]
  simp [Op.isPublish, Nat.add_comm]

omit [DecidableEq P] in
theorem settled_ids (t : Tables) (done : List Attempted) :
    (t.settled done).outboxEvents.map OutboxEventModel.id = t.outboxEvents.map OutboxEventModel.id := by
  simp [Tables.settled, Function.comp_def]

/-- One more poll. -/
theorem Drained.poll (h : Drained W stream t.1 batches s) (hready : Ready p s.db)
    (hrows : Fetched s.db.committed.outboxEvents (Eligible s.db p) W.batchSize rows) :
    Drained W stream t.1 (batches ++ [attempted stream (publishes s.calls) rows])
      (s.poll p W rows (attempted stream (publishes s.calls) rows)) := by
  obtain ⟨batch, hbatch⟩ : ∃ batch, batch = attempted stream (publishes s.calls) rows := ⟨_, rfl⟩
  have hmap : batch.map Attempted.row = rows := by rw [hbatch, attempted_rows]
  have hflat : (batches ++ [batch]).flatten = batches.flatten ++ batch := by simp
  have hids := Tables.eventIds_nodup t.2
  have hpending : t.1.pending.Nodup := hids.of_map.filter _
  have hdone : ∀ a ∈ batches.flatten, a.row ∈ t.1.outboxEvents := fun a ha =>
    List.mem_of_mem_filter (h.oldest.sub.subset (List.mem_map_of_mem ha))
  -- the rows fetched are the oldest of what is left
  have hleft : Oldest (t.1.pending.filter fun row => row ∉ batches.flatten.map Attempted.row)
      (fun row => row.createdAt.key) W.batchSize rows := by
    have hnodup : s.db.committed.outboxEvents.Nodup := by
      rw [h.tables]
      exact (settled_ids t.1 batches.flatten ▸ hids).of_map
    have := hrows.oldest (f := fun row => row.status = .pending) hnodup fun row _ =>
      decide_eq_true_iff.trans ⟨fun hst => ⟨hst, hready.free _⟩, fun hel => hel.1⟩
    rw [h.tables] at this
    rwa [← pending_settled t.2 hdone]
  have holdest : Oldest t.1.pending (fun row => row.createdAt.key) ((batches ++ [batch]).length * W.batchSize)
      ((batches ++ [batch]).flatten.map Attempted.row) := by
    rw [List.length_append, List.length_singleton, Nat.add_mul, Nat.one_mul, hflat, List.map_append, hmap]
    exact h.oldest.append hpending hleft
  rw [← hbatch]
  refine ⟨holdest, ?_, ?_, ?_, ?_⟩
  · intro a ha
    rw [hflat] at ha
    rcases List.mem_append.1 ha with ha | ha
    · exact h.tried a ha
    · rw [hbatch] at ha
      exact attempted_tried _ _ a ha
  · have hout : (attempted stream (publishes s.calls) rows).flatMap Attempted.outcomes = _ :=
      attempted_outcomes (publishes s.calls) rows
    rw [← hbatch] at hout
    have hrange := List.range'_append_1 (s := 0) (m := publishes s.calls)
      (n := (batch.flatMap Attempted.outcomes).length)
    rw [Nat.zero_add] at hrange
    rw [hflat, List.flatMap_append, h.stream, hout, publishes_poll hmap, ← List.map_append,
      List.range_eq_range', List.range_eq_range', hrange]
  -- no event is in two batches
  · have hrow_ids : ((batches.flatten ++ batch).map fun a => a.row.id).Nodup := by
      obtain ⟨l, hperm, hl⟩ := holdest.sub
      have hl_ids := hids.sublist ((hl.trans List.filter_sublist).map OutboxEventModel.id)
      have hnodup := (hperm.map OutboxEventModel.id).nodup_iff.1 hl_ids
      rwa [hflat, List.map_map] at hnodup
    rw [hflat]
    exact committed_settleAll hrow_ids h.tables
  · rw [calls_poll hmap, List.reverse_append, List.reverse_reverse, h.calls]
    simp

/-- All polls, after those that gave the batches `batches`. -/
theorem total_start {k : ℕ} (hidle : ∀ q, s.db.session q = .idle) (h : Drained W stream t.1 batches s) :
    Total (Quiet stream p) (W.start k) s fun res s' => res = .ok () ∧
      ∃ later, later.length = k ∧ Drained W stream t.1 (batches ++ later) s' := by
  induction k generalizing s batches with
  | zero => exact ⟨rfl, [], rfl, by rwa [List.append_nil]⟩
  | succ k ih =>
    unfold start
    rw [total_bind, total_tryCatch]
    have hready : Ready p s.db := .of_idle hidle
    refine total_processBatch hready fun rows hrows => ?_
    simp only [Prog.await_eq, Prog.op_bind]
    rw [total_sleep]
    have hidle' : ∀ q, (s.poll p W rows (attempted stream (publishes s.calls) rows)).db.session q = .idle :=
      (hready.fetch.settleAll _).close
    refine (ih hidle' (h.poll hready hrows)).mono fun res s' hdone => ?_
    obtain ⟨hres, later, hlen, hdrained⟩ := hdone
    rw [List.append_assoc, List.singleton_append] at hdrained
    exact ⟨hres, _ :: later, by rw [List.length_cons, hlen], hdrained⟩

end Polls

/-- **The outbox is drained**: a worker alone on the database runs `k` polls, whatever the
stream of publish outcomes, and every such run is as `Drained` says; what is still pending
is fewer by the smaller of their number and `k` batches. -/
theorem outbox_drained (W : OutboxWorker) (p : P) (t : ValidTables) (stream : ℕ → Outcome) (k : ℕ) :
    let s : Log P := ⟨⟨t.1, fun _ => .idle⟩, []⟩
    (∃ res s', Prog.Executes (S := effects) (Quiet stream p) (W.start k) s res s') ∧
    ∀ res s', Prog.Executes (S := effects) (Quiet stream p) (W.start k) s res s' → res = .ok () ∧
      s'.db.committed.pending.length = t.1.pending.length - min t.1.pending.length (k * W.batchSize) ∧
      ∃ batches, batches.length = k ∧ Drained W stream t.1 batches s' := by
  intro s
  have hstart : Drained W stream t.1 [] s := by
    refine ⟨?_, nofun, rfl, ?_, rfl⟩
    · rw [List.length_nil, Nat.zero_mul]
      exact .nil _ _
    · show t.1 = _
      unfold Tables.settled
      exact congrArg (fun rows => { t.1 with outboxEvents := rows }) (List.map_id _).symm
  obtain ⟨hex, hall⟩ := (total_start (k := k) (fun _ => rfl) hstart).executes
  refine ⟨hex, fun res s' hx => ?_⟩
  obtain ⟨hres, batches, hlen, hdrained⟩ := hall res s' hx
  rw [List.nil_append] at hdrained
  refine ⟨hres, ?_, batches, hlen, hdrained⟩
  have hpending : t.1.pending.Nodup := (Tables.eventIds_nodup t.2).of_map.filter _
  have hleft := hdrained.oldest.length_left hpending
  rw [hdrained.oldest.length, hlen] at hleft
  rw [hdrained.tables, pending_settled t.2 fun a ha =>
    List.mem_of_mem_filter (hdrained.oldest.sub.subset (List.mem_map_of_mem ha))]
  omega

end OrdersApi
