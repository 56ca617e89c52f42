import OrdersApi.Proof.Exclusive

/-!
# An event is published at most once

In a run without faults, in which no worker fetches an event that another has still to
finish, `publish` is called at most once for each event (`Once`): a worker has not
published what it has still to publish, and a published event is committed as
`processed` unless its worker is about to do so.
-/

namespace OrdersApi

open TxStore Trace

variable {P : Type} {tr : List (Event P)} {l : Event P} {p q : P} {e : UUID} {pt : WorkerPoint}
  {event : OutboxEvent}

/-! ## Counting -/

theorem publishCalls_cons (e : UUID) (l : Event P) (tr : List (Event P)) :
    publishCalls e (l :: tr) = publishCalls e tr + if l.publishes = some e then 1 else 0 := by
  unfold publishCalls
  cases h : l.publishes with
  | none => simp [h]
  | some x => simp [h, List.count_cons]

theorem publishCalls_none (h : l.publishes = none) : publishCalls e (l :: tr) = publishCalls e tr := by
  rw [publishCalls_cons, h]; rfl

/-! ## What a worker has still to publish -/

namespace WorkerPoint

/-- The events in memory for which the worker has still to call `publish`. -/
def unsent : WorkerPoint → List OutboxEvent
  | mark job _ _ | commit job _ _ => job.batch
  | pt => pt.held

theorem unsent_sublist (pt : WorkerPoint) : pt.unsent.Sublist pt.held := by
  cases pt with
  | mark job attempt later => exact List.sublist_cons_self _ _
  | commit job attempt later => exact List.sublist_cons_self _ _
  | _ => exact .refl _

theorem sent_held (h : pt.sent = some event) : event ∈ pt.held := by
  cases pt with
  | mark job attempt later => cases h; exact List.mem_cons_self
  | commit job attempt later => cases h; exact List.mem_cons_self
  | _ => cases h

@[simp] theorem unsent_nextAttempt (job : Job) (later : List ℕ) :
    (nextAttempt job later).unsent = job.event :: job.batch := by
  cases later <;> rfl

@[simp] theorem unsent_nextEvent (polls : ℕ) (events : List OutboxEvent) :
    (nextEvent polls events).unsent = events := by
  cases events <;> rfl

@[simp] theorem unsent_poll (polls : ℕ) : (poll polls).unsent = [] := by cases polls <;> rfl

end WorkerPoint

section Step

variable [DecidableEq P] {db db' : Db P} {o : Op} {r : Except Exc (Op.Resp o)} {W : OutboxWorker}
  {k : Except Exc (Op.Resp o) → WorkerPoint}

/-- A worker's own step, without a fault and without publishing: it has not more to
publish than before, and goes on with what it has sent until that is `processed`; or it
fetches. -/
inductive SentStep (db db' : Db P) (o : Op) (before after : WorkerPoint) : Prop
  | quiet (unsent : after.unsent.Sublist before.unsent)
      (sent : ∀ event, before.sent = some event → after.sent = some event ∨
        db'.committed = db.committed.apply (.setStatus event.id .processed))
  | fetch (held : before.held = []) (sent : before.sent = none)

/-- A fault-free update has succeeded. -/
theorem updateStatus_ok {status : OutboxStatus} {r : Except Exc Unit}
    (hx : Exec db p (.updateStatus e status) r db')
    (hok : ¬ (Event.exec p (.updateStatus e status) r).Fault) :
    r = .ok () ∧ (db'.session p).Usable := by
  cases hx with
  | failed => exact absurd ⟨rfl, .inl rfl⟩ hok
  | updateStatus => exact ⟨rfl, by simp⟩
  | updateNoRow => exact ⟨rfl, by simp⟩

/-- A fault-free commit has succeeded. -/
theorem commit_ok {r : Except Exc Unit} (hx : Exec db p .commit r db')
    (hok : ¬ (Event.exec p .commit r).Fault) :
    r = .ok () ∧ (db'.session p).Usable ∧ db'.committed = db.view schema p := by
  cases hx with
  | failed hst => cases hst
  | commit => exact ⟨rfl, by simp, rfl⟩
  | commitFailed => exact absurd ⟨rfl, .inr rfl⟩ hok
  | commitLost => exact absurd ⟨rfl, .inr rfl⟩ hok

/-- A worker's session stays usable without faults. -/
theorem usable_step (hn : pt.node W = .op o k) (hx : Exec db p o r db')
    (hok : ¬ (Event.exec p o r).Fault)
    (hu : (db.session p).Usable) : (db'.session p).Usable := by
  cases pt with
  | fetch polls =>
    cases hn
    cases hx with
    | failed => exact absurd ⟨rfl, .inl rfl⟩ hok
    | selectPending => simp
  | mark job attempt later => cases hn; exact (updateStatus_ok hx hok).2
  | markFailed job => cases hn; exact (updateStatus_ok hx hok).2
  | commit job attempt later => cases hn; exact (commit_ok hx hok).2.1
  | commitFailed job => cases hn; exact (commit_ok hx hok).2.1
  | close polls =>
    cases hn
    cases hx with
    | failed hst => cases hst
    | close => simp
  | stopped res => rcases res with err | u <;> cases hn
  | _ =>
    cases hn
    cases hx with
    | failed hst => cases hst
    | _ => exact hu

theorem sentStep (hs : (db.session p).Holds pt.writes) (hn : pt.node W = .op o k)
    (hx : Exec db p o r db')
    (hok : ¬ (Event.exec p o r).Fault) (hu : (db.session p).Usable)
    (hl : (Event.exec p o r).publishes = none) : SentStep db db' o pt (k r) := by
  cases pt with
  | fetch polls => cases hn; exact .fetch rfl rfl
  | publish job attempt later => cases hn; cases hl
  | mark job attempt later =>
    cases hn
    obtain ⟨rfl, -⟩ := updateStatus_ok hx hok
    exact .quiet (.refl _) fun _ he => .inl he
  | commit job attempt later =>
    cases hn
    obtain ⟨rfl, -, hc⟩ := commit_ok hx hok
    refine .quiet (.refl _) ?_
    -- the commit settles the event that was sent
    rintro event ⟨⟩
    exact .inr (hc.trans (view_of_holds hs hu))
  | count job attempt later =>
    cases hn
    cases hx with
    | failed hst => cases hst
    | inc =>
      refine .quiet ?_ (fun _ he => nomatch he)
      rw [WorkerPoint.unsent_nextEvent]; exact .refl _
  | backoff job attempt later =>
    cases hn
    cases hx with
    | failed hst => cases hst
    | sleep =>
      refine .quiet ?_ (fun _ he => nomatch he)
      rw [WorkerPoint.unsent_nextAttempt]; exact .refl _
  | markFailed job =>
    cases hn
    obtain ⟨rfl, -⟩ := updateStatus_ok hx hok
    exact .quiet (.refl _) fun _ he => nomatch he
  | commitFailed job =>
    cases hn
    exact .quiet (List.sublist_cons_self _ _) fun _ he => nomatch he
  | countFailed job =>
    cases hn
    cases hx with
    | failed hst => cases hst
    | inc =>
      refine .quiet ?_ (fun _ he => nomatch he)
      rw [WorkerPoint.unsent_nextEvent]; exact .refl _
  | close polls => cases hn; exact .quiet (.refl _) fun _ he => nomatch he
  | pause polls =>
    cases hn
    refine .quiet ?_ fun _ he => nomatch he
    rcases r with err | u
    · exact .refl _
    · show (WorkerPoint.poll polls).unsent.Sublist _
      rw [WorkerPoint.unsent_poll]; exact .refl _
  | stopped res => rcases res with err | u <;> cases hn

end Step

section Reach

variable [DecidableEq P] {t : ValidTables} {role : P → Role} {w w' : World P} {pt' : WorkerPoint}

/-- No worker is dead or has an aborted transaction. -/
def AllWork (w : World P) : Prop := ∀ p W pt, w.procs p = .worker W pt → w.Works p pt

/-- Without faults all workers go on working. -/
theorem AllWork.step (hA : AllWork w) (h : Reached t role tr w) (hs : Step w l w') (hf : ¬ l.Fault) :
    AllWork w' := by
  intro q W pt' hq
  cases h.fate hs q with
  | other _ hproc hsess halive =>
    obtain ⟨ha, -, hu⟩ := hA q W pt' (hproc ▸ hq)
    exact ⟨halive.2 ha, ⟨W, hq⟩, hsess ▸ hu⟩
  | call a pt o k r _ _ _ _ hnext => rw [hnext] at hq; cases hq
  | worker W' pt o k r hl _ ha' hp hn hx _ =>
    subst hl
    exact ⟨ha', ⟨W, hq⟩, usable_step hn hx hf (hA q W' pt hp).2.2⟩
  | died hl => subst hl; exact absurd trivial hf
  | aborted hl => subst hl; exact absurd trivial hf

/-- Where a worker is after a step. -/
theorem Reached.worker_next (h : Reached t role tr w) (hs : Step w l w') {W : OutboxWorker}
    (hq : w.procs q = .worker W pt) : w'.procs q = .worker W pt ∨
      ∃ o k r, l = .exec q o r ∧ pt.node W = .op o k ∧ Exec w.db q o r w'.db ∧
        w'.procs q = .worker W (k r) := by
  cases h.fate hs q with
  | other _ hproc => exact .inl (hproc.trans hq)
  | call a pt' o k r _ hp => rw [hp] at hq; cases hq
  | worker W' pt' o k r hl _ _ hp hn hx hnext =>
    rw [hp] at hq
    cases hq
    exact .inr ⟨o, k, r, hl, hn, hx, hnext⟩
  | died _ hproc => exact .inl (hproc.trans hq)
  | aborted _ _ _ hproc => exact .inl (hproc.trans hq)

/-- A step that publishes is a worker's call of `publish`, which returns. -/
theorem Step.publisher {x : UUID} (hs : Step w l w') (hf : ¬ l.Fault) (hl : l.publishes = some x) :
    ∃ p W job attempt later, w.procs p = .worker W (.publish job attempt later) ∧ job.event.id = x ∧
      w' = { w with procs := Function.update w.procs p (.worker W (.mark job attempt later)) } := by
  cases hs with
  | @call p a pt o k r db' _ hp hn hx =>
    cases pt with
    | done res => rcases res with err | v <;> cases hn
    | _ => cases hn; cases hl
  | @worker p W pt o k r db' _ hp hn hx =>
    cases pt with
    | publish job attempt later =>
      cases hn
      cases hx with
      | failed hst => cases hst
      | published => exact ⟨p, W, job, attempt, later, hp, Option.some.inj hl, rfl⟩
      | publishFailed => exact absurd trivial hf
    | stopped res => rcases res with err | u <;> cases hn
    | _ => cases hn; cases hl
  | die p => cases hl
  | abort p => cases hl

/-- What a run without faults has published. -/
structure Once (tr : List (Event P)) (w : World P) : Prop where
  works : AllWork w
  once : ∀ e, publishCalls e tr ≤ 1
  row : ∀ e, 0 < publishCalls e tr → ∃ s, w.db.committed.statusOf e = some s
  sent : ∀ e, 0 < publishCalls e tr → w.db.committed.statusOf e = some .pending →
    ∃ p pt event, w.Works p pt ∧ pt.sent = some event ∧ event.id = e
  unsent : ∀ p pt, w.Works p pt → ∀ event ∈ pt.unsent, publishCalls event.id tr = 0

omit [DecidableEq P] in
theorem once_init (t : ValidTables) (role : P → Role) : Once [] (World.init t role) where
  works _ W _ hp := ⟨trivial, ⟨W, hp⟩, trivial⟩
  once _ := Nat.zero_le _
  row _ h := absurd h (lt_irrefl _)
  sent _ h := absurd h (lt_irrefl _)
  unsent _ _ _ _ _ := rfl

/-- A step that publishes: the event had not been published. -/
theorem Once.step_publish (hI : Once tr w) (hex : Exclusive w) (h : Reached t role tr w)
    (hs : Step w l w')
    (hf : ¬ l.Fault) {x : UUID} (hl : l.publishes = some x) : Once (l :: tr) w' := by
  have hworks' := hI.works.step h hs hf
  obtain ⟨p, W, job, attempt, later, hp, rfl, rfl⟩ := hs.publisher hf hl
  have hwp := hI.works p W _ hp
  have hwp' : World.Works _ p (.mark job attempt later) :=
    hworks' p W _ (Function.update_self ..)
  -- the event is in the memory of this worker only, and this worker has still to publish it
  have hzero : publishCalls job.event.id tr = 0 := hI.unsent p _ hwp job.event List.mem_cons_self
  have hcount : ∀ e, publishCalls e (l :: tr) = publishCalls e tr + if e = job.event.id then 1 else 0 := by
    intro e
    rw [publishCalls_cons, hl]
    simp [eq_comm]
  refine ⟨hworks', fun e => ?_, fun e he => ?_, fun e he hpend => ?_, fun q pt hw event hev => ?_⟩
  · rw [hcount]
    split
    · subst e; omega
    · exact hI.once e
  · by_cases heq : e = job.event.id
    · subst heq; exact ⟨_, hex.pending p _ hwp job.event List.mem_cons_self⟩
    · rw [hcount, if_neg heq] at he; exact hI.row e he
  · by_cases heq : e = job.event.id
    · exact ⟨p, _, job.event, hwp', rfl, heq.symm⟩
    · rw [hcount, if_neg heq] at he
      obtain ⟨q, pt, event, ⟨ha, ⟨W', hq⟩, hu⟩, hsent, hid⟩ := hI.sent e he hpend
      have hne : q ≠ p := by
        rintro rfl
        rw [hp] at hq
        cases hq; cases hsent
      exact ⟨q, pt, event, ⟨ha, ⟨W', (Function.update_of_ne hne _ _).trans hq⟩, hu⟩, hsent, hid⟩
  · rw [hcount]
    by_cases hqp : q = p
    · subst hqp
      obtain ⟨-, ⟨W', hq⟩, -⟩ := hw
      simp only [Function.update_self, Proc.worker.injEq] at hq
      obtain ⟨rfl, rfl⟩ := hq
      have hne : event.id ≠ job.event.id := fun e =>
        (List.nodup_cons.1 (hex.nodup q _ hwp)).1 (e ▸ List.mem_map_of_mem hev)
      rw [if_neg hne, hI.unsent q _ hwp event (List.mem_cons_of_mem _ hev)]
    · obtain ⟨ha, ⟨W', hq⟩, hu⟩ := hw
      have hwq : w.Works q pt := ⟨ha, ⟨W', (Function.update_of_ne hqp _ _).symm.trans hq⟩, hu⟩
      have hne : event.id ≠ job.event.id :=
        hex.disjoint q p pt _ hqp hwq hwp event (pt.unsent_sublist.subset hev) job.event List.mem_cons_self
      rw [if_neg hne, hI.unsent q pt hwq event hev]

theorem Tables.Extends.statusOf {tab tab' : Tables} (h : tab.Extends tab')
    (he : ∃ s, tab.statusOf e = some s) : ∃ s, tab'.statusOf e = some s := by
  obtain ⟨s, hs⟩ := he
  obtain ⟨row, hrow, rfl, -⟩ := Tables.exists_of_statusOf hs
  obtain ⟨s', hs'⟩ := h.events row hrow
  cases hfind : tab'.outboxEvents.find? fun model => model.id = row.id with
  | none => exact absurd (List.find?_eq_none.1 hfind _ hs') (by simp)
  | some row' => exact ⟨row'.status, by unfold Tables.statusOf; rw [hfind]; rfl⟩

/-- A published event that is still `pending` after a step that does not publish has a
worker that is about to commit it as `processed`. -/
theorem Once.sent_quiet (hI : Once tr w) (hex : Exclusive w) (h : Reached t role tr w)
    (hs : Step w l w')
    (hf : ¬ l.Fault) (hl : l.publishes = none) (he : 0 < publishCalls e tr)
    (hpend : w'.db.committed.statusOf e = some .pending) :
    ∃ p pt event, w'.Works p pt ∧ pt.sent = some event ∧ event.id = e := by
  have hworks' := hI.works.step h hs hf
  -- the event was pending before the step, as its status is not terminal after it
  obtain ⟨s, hst⟩ := hI.row e he
  have hold : w.db.committed.statusOf e = some .pending := by
    by_cases hp : s = .pending
    · rw [hst, hp]
    · rw [hex.terminal h hs hst hp] at hpend
      exact absurd (Option.some.inj hpend) hp
  obtain ⟨q, pt, event, hw, hsent, hid⟩ := hI.sent e he hold
  obtain ⟨-, ⟨W, hq⟩, hu⟩ := hw
  rcases h.worker_next hs hq with hq' | ⟨o, k, r, rfl, hn, hx, hq'⟩
  · exact ⟨q, pt, event, hworks' q W pt hq', hsent, hid⟩
  · cases sentStep (h.workerInv hq).session hn hx hf hu hl with
    | quiet _ hnext =>
      rcases hnext event hsent with hsent' | ht
      · exact ⟨q, k r, event, hworks' q W _ hq', hsent', hid⟩
      · rw [ht, Tables.statusOf_setStatus, hold, hid] at hpend
        simp at hpend
    | fetch _ hnone => rw [hnone] at hsent; cases hsent

/-- What a worker has still to publish after a step that does not publish has not been
published: a fetched event is `pending`, so its publisher would still hold it. -/
theorem Once.unsent_quiet (hI : Once tr w) (h : Reached t role tr w) (hs : Step w l w')
    (hok : FetchOk w l) (hf : ¬ l.Fault) (hl : l.publishes = none) (hw : w'.Works q pt')
    (hev : event ∈ pt'.unsent) : publishCalls event.id tr = 0 := by
  cases h.origin hs hw with
  | other hw => exact hI.unsent q pt' hw event hev
  | own W pt o k r hlab ha hp hn hx hpt =>
    subst hpt hlab
    have hwq := hI.works q W pt hp
    cases sentStep (h.workerInv hp).session hn hx hf hwq.2.2 hl with
    | quiet hsub => exact hI.unsent q pt hwq event (hsub.subset hev)
    | fetch hheld hnone =>
      rcases h.held_before hs hw ((k r).unsent_sublist.subset hev) with
        ⟨pt₀, ⟨-, ⟨W₀, hp₀⟩, -⟩, he₀⟩ | ⟨n, r', row, hlab, hreach, hid⟩
      · rw [hp] at hp₀
        cases hp₀
        rw [hheld] at he₀; cases he₀
      · by_contra hpos
        have hst : w.db.committed.statusOf event.id = some .pending := by
          rw [← hid, Tables.statusOf_row h.keys_nodup hreach.1, hreach.2.1.1]
        obtain ⟨q', pt₁, event₁, hw₁, hsent₁, hid₁⟩ := hI.sent event.id (Nat.pos_of_ne_zero hpos) hst
        have hne : q' ≠ q := by
          rintro rfl
          obtain ⟨-, ⟨W₁, hp₁⟩, -⟩ := hw₁
          rw [hp] at hp₁
          cases hp₁
          rw [hnone] at hsent₁; cases hsent₁
        exact hok q n r' hlab q' pt₁ hne hw₁ event₁ (WorkerPoint.sent_held hsent₁) row hreach
          (hid.trans hid₁.symm)

/-- A step that does not publish. -/
theorem Once.step_quiet (hI : Once tr w) (hex : Exclusive w) (h : Reached t role tr w)
    (hs : Step w l w')
    (hok : FetchOk w l) (hf : ¬ l.Fault) (hl : l.publishes = none) : Once (l :: tr) w' := by
  have hcount : ∀ e, publishCalls e (l :: tr) = publishCalls e tr := fun e => publishCalls_none hl
  refine ⟨hI.works.step h hs hf, fun e => ?_, fun e he => ?_, fun e he hpend => ?_,
    fun q pt' hw event hev => ?_⟩
  · rw [hcount]; exact hI.once e
  · rw [hcount] at he
    exact (hs.extends h.consistent).statusOf (hI.row e he)
  · rw [hcount] at he
    exact hI.sent_quiet hex h hs hf hl he hpend
  · rw [hcount]
    exact hI.unsent_quiet h hs hok hf hl hw hev

theorem once_of_run (h : Run (Guarded Step fun w l => ¬ l.Fault ∧ FetchOk w l) (World.init t role) tr w) :
    Exclusive w ∧ Once tr w := by
  refine h.invariant (I := fun tr w => Exclusive w ∧ Once tr w) ⟨exclusive_init t role, once_init t role⟩ ?_
  rintro tr w l w' hrun ⟨hex, hI⟩ ⟨hs, hf, hok⟩
  have hreach : Reached t role tr w := hrun.forget
  refine ⟨hex.step hreach hs hok, ?_⟩
  cases hl : l.publishes with
  | some x => exact hI.step_publish hex hreach hs hf hl
  | none => exact hI.step_quiet hex hreach hs hok hf hl

/-- **Exclusivity.** Without faults, and as long as no worker fetches an event that another
has still to finish, `publish` is called at most once for each event. -/
theorem publish_at_most_once
    (h : Run (Guarded Step fun w l => ¬ l.Fault ∧ FetchOk w l) (World.init t role) tr w) (e : UUID) :
    publishCalls e tr ≤ 1 :=
  (once_of_run h).2.once e

/-- Of two workers one fetches while the other has locked both rows, and goes on to publish both. -/
theorem publish_at_most_once_sample : ∃ tr w,
    Run (Guarded Step fun w l => ¬ l.Fault ∧ FetchOk w l)
      (World.init backlog fun _ : Bool => .worker ⟨2, 5⟩ 1) tr w ∧
    .exec false (.selectPending 2) (.ok []) ∈ tr ∧ publishCalls secondEvent.id tr = 1 ∧
    publishCalls firstEvent.id tr ≤ 1 := by
  obtain ⟨tr, ⟨procs, _, _⟩, h, rfl, rfl, hproc, hfetch, -, hcalls⟩ := sample_pair
  have h1 := h.step ⟨.worker (p := true) trivial hproc rfl (.inc _), id, fetchOk_of_ne nofun⟩
  have h2 := h1.step ⟨.worker (p := true) trivial rfl rfl (.published _ _), id, fetchOk_of_ne nofun⟩
  refine ⟨_, _, h2, .tail _ (.tail _ hfetch), ?_, publish_at_most_once h2 firstEvent.id⟩
  rw [publishCalls_cons, publishCalls_none rfl, hcalls]
  rfl

/-- The worker `true` goes on with the batch that it fetched, and publishes the second
event once more. -/
theorem publish_twice : ∃ tr w, Reached backlog (fun _ : Bool => .worker ⟨2, 5⟩ 1) tr w ∧
    (∀ l ∈ tr, ¬ l.Fault) ∧ publishCalls secondEvent.id tr = 2 := by
  obtain ⟨tr, ⟨procs, _, _⟩, h, rfl, rfl, htrue, -, hf, hcalls⟩ := sample_overlap
  have h1 := h.step (.worker (p := true) trivial htrue rfl (.inc _))
  have h2 := h1.step (.worker (p := true) trivial rfl rfl (.published _ _))
  refine ⟨_, _, h2, ?_, ?_⟩
  · simpa [Event.Fault] using hf
  · rw [publishCalls_cons, publishCalls_none rfl, hcalls]
    rfl

end Reach

end OrdersApi
