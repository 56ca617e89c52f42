import OrdersApi.Proof.Exclusive
import OrdersApi.Spec.Batches

/-!
# The counters of a single worker

While it is the only worker, a worker holds only `pending` events, so each commit of a
status changes one event from `pending`, and a terminal status is never changed. The
counters follow the commits by one step, except where giving an event up fails: the
increment stands behind the `except` clause that swallows the failure.
-/

namespace OrdersApi

open TxStore Trace

variable {P : Type} {tr : List (Event P)} {l : Event P} {p q : P} {tab start : Tables} {e x : UUID}
  {s status : OutboxStatus}

/-! ## Status changes -/

theorem went_finite : (Went start tab status).Finite := by
  refine (List.finite_toSet (tab.outboxEvents.map OutboxEventModel.id)).subset ?_
  rintro e ⟨he, -⟩
  obtain ⟨row, hrow, rfl, -⟩ := Tables.exists_of_statusOf he
  exact List.mem_map_of_mem hrow

/-- A new event is `pending`, which is no change of status. -/
theorem went_append {orders : List OrderModel} {row : OutboxEventModel} (hrow : row.status = .pending)
    (hstatus : status ≠ .pending) :
    Went start ⟨orders, tab.outboxEvents ++ [row]⟩ status = Went start tab status := by
  ext e
  refine and_congr_left fun _ => ?_
  cases h : tab.statusOf e with
  | some s => rw [Tables.statusOf_append h]
  | none =>
    have hnone : tab.outboxEvents.find? (fun model => model.id = e) = none := by simpa [Tables.statusOf] using h
    unfold Tables.statusOf
    rw [List.find?_append, hnone, Option.none_or]
    simp only [List.find?_cons, List.find?_nil]
    split
    · simpa [hrow] using hstatus.symm
    · simp

/-- An event that is marked leaves `pending`. -/
theorem went_settled (h : tab.statusOf x = some .pending)
    (hstart : start.statusOf x = none ∨ start.statusOf x = some .pending) :
    Went start (tab.apply (.setStatus x status)) status = insert x (Went start tab status) := by
  ext e
  simp only [Went, Set.mem_insert_iff, Set.mem_ofPred_eq, Tables.statusOf_setStatus]
  by_cases hex : e = x
  · subst hex; simp [h, hstart]
  · simp [hex]

/-- The other terminal status gains and loses nothing. -/
theorem went_other (h : tab.statusOf x = some .pending) (hs : s ≠ .pending) (hne : s ≠ status) :
    Went start (tab.apply (.setStatus x status)) s = Went start tab s := by
  ext e
  refine and_congr_left fun _ => ?_
  rw [Tables.statusOf_setStatus]
  by_cases hex : e = x
  · subst hex; simp [h, hs.symm, hne.symm]
  · simp [hex]

theorem counted_cons (counter : Counter) (l : Event P) (tr : List (Event P)) :
    counted counter (l :: tr) = counted counter tr + if l.counts = some counter then 1 else 0 := by
  unfold counted
  cases h : l.counts with
  | none => simp [h]
  | some c => simp [h, List.count_cons]

/-! ## The counters -/

namespace WorkerPoint

/-- The status that the worker has committed and not yet counted. -/
def uncounted : WorkerPoint → Option OutboxStatus
  | count _ _ _ => some .processed
  | countFailed _ => some .failed
  | _ => none

variable (job : Job) (attempt polls : ℕ) (later : List ℕ) (events : List OutboxEvent)

@[simp] theorem uncounted_nextAttempt :
    (nextAttempt job later).uncounted = none := by cases later <;> rfl

@[simp] theorem uncounted_attemptError : (attemptError job attempt later).uncounted = none := by
  unfold attemptError; split
  · rfl
  · exact uncounted_nextAttempt job later

@[simp] theorem uncounted_nextEvent :
    (nextEvent polls events).uncounted = none := by cases events <;> rfl

@[simp] theorem uncounted_poll : (poll polls).uncounted = none := by cases polls <;> rfl

variable {pt : WorkerPoint} {W : OutboxWorker} {o : Op} {r : Except Exc (Op.Resp o)}
  {k : Except Exc (Op.Resp o) → WorkerPoint}

/-- Between commits and increments nothing is uncounted, unless giving up raises. -/
theorem uncounted_quiet (hn : pt.node W = .op o k) (hc : o ≠ .commit)
    (hinc : ∀ counter, o ≠ .inc counter)
    (hok : ∀ job e, pt = markFailed job → r ≠ .error e) :
    pt.uncounted = none ∧ (k r).uncounted = none := by
  cases pt with
  | fetch polls =>
    cases hn
    rcases r with e | rows
    · exact ⟨rfl, rfl⟩
    · exact ⟨rfl, uncounted_nextEvent ..⟩
  | publish job attempt later =>
    cases hn
    rcases r with e | u
    · exact ⟨rfl, uncounted_attemptError ..⟩
    · exact ⟨rfl, rfl⟩
  | mark job attempt later =>
    cases hn
    rcases r with e | u
    · exact ⟨rfl, uncounted_attemptError ..⟩
    · exact ⟨rfl, rfl⟩
  | commit job attempt later => cases hn; exact absurd rfl hc
  | count job attempt later => cases hn; exact absurd rfl (hinc _)
  | backoff job attempt later =>
    cases hn
    rcases r with e | u
    · exact ⟨rfl, rfl⟩
    · exact ⟨rfl, uncounted_nextAttempt ..⟩
  | markFailed job =>
    cases hn
    rcases r with e | u
    · exact absurd rfl (hok job e rfl)
    · exact ⟨rfl, rfl⟩
  | commitFailed job => cases hn; exact absurd rfl hc
  | countFailed job => cases hn; exact absurd rfl (hinc _)
  | close polls => cases hn; exact ⟨rfl, rfl⟩
  | pause polls =>
    cases hn
    rcases r with e | u
    · exact ⟨rfl, rfl⟩
    · exact ⟨rfl, uncounted_poll ..⟩
  | stopped res => rcases res with e | u <;> cases hn

end WorkerPoint

variable {pt pt' : WorkerPoint}

/-- At each point of the worker the counter of a terminal status is the number of events
that went to it, but for the one that is not yet counted. -/
def Tallied (start : Tables) (tr : List (Event P)) (tab : Tables) (pt : WorkerPoint) : Prop :=
  ∀ s, s ≠ .pending →
    counted s.counter tr + (if pt.uncounted = some s then 1 else 0) = (Went start tab s).ncard

/-- A step that neither counts nor commits keeps the tally. -/
theorem Tallied.keep (h : Tallied start tr tab pt) (hl : l.counts = none)
    (hpt : pt'.uncounted = pt.uncounted) : Tallied start (l :: tr) tab pt' := by
  intro s hs
  rw [counted_cons, hl, hpt]
  simpa using h s hs

/-- Counting settles what was not counted. -/
theorem Tallied.count (h : Tallied start tr tab pt) (hpt : pt.uncounted = some status)
    (hstatus : status ≠ .pending) (hl : l.counts = some status.counter) (hpt' : pt'.uncounted = none) :
    Tallied start (l :: tr) tab pt' := by
  intro s hs
  have hinj : status.counter = s.counter ↔ status = s := by
    cases status <;> cases s <;> simp_all [OutboxStatus.counter]
  have := h s hs
  rw [counted_cons, hl, hpt']
  rw [hpt] at this
  simp only [Option.some.injEq, hinj, reduceCtorEq, if_false, add_zero] at this ⊢
  exact this

/-- Committing a status makes one event more to be counted. -/
theorem Tallied.settle (h : Tallied start tr tab pt) (hl : l.counts = none)
    (hpt : pt.uncounted = none) (hx : tab.statusOf x = some .pending)
    (hstart : start.statusOf x = none ∨ start.statusOf x = some .pending) (hstatus : status ≠ .pending)
    (hpt' : pt'.uncounted = some status) :
    Tallied start (l :: tr) (tab.apply (.setStatus x status)) pt' := by
  intro s hs
  have := h s hs
  rw [counted_cons, hl, hpt']
  rw [hpt] at this
  by_cases hss : s = status
  · subst hss
    have hnew : x ∉ Went start tab s := by
      rintro ⟨hx', -⟩
      rw [hx] at hx'
      exact hs (Option.some.inj hx').symm
    rw [went_settled hx hstart, Set.ncard_insert_of_notMem hnew went_finite]
    simp only [reduceCtorEq, if_false, if_true] at this ⊢
    omega
  · rw [went_other hx hs hss]
    simp only [reduceCtorEq, if_false, Option.some.injEq, Ne.symm hss] at this ⊢
    exact this

theorem exec_of_counts {counter : Counter} (h : l.counts = some counter) :
    ∃ q v, l = .exec q (.inc counter) (.ok v) := by
  unfold Event.counts at h
  split at h
  · cases h; exact ⟨_, _, rfl⟩
  · cases h

section Reach

variable [DecidableEq P] {t : ValidTables} {role : P → Role} {w w' : World P} {W : OutboxWorker}

/-! ## A single worker -/

theorem Reached.worker_role (h : Reached t role tr w) (hq : w.procs q = .worker W pt) :
    ∃ polls, role q = .worker W polls := by
  have hran := h.ran q
  rw [hq] at hran
  cases hr : role q with
  | call a => rw [hr] at hran; exact hran.elim
  | worker W' polls => rw [hr] at hran; exact ⟨polls, by rw [hran.1]⟩

/-- Only a worker fetches events and increments counters. -/
theorem worker_of_exec {o : Op} {r : Except Exc (Op.Resp o)} (hs : Step w (.exec q o r) w')
    (ho : (∃ n, o = .selectPending n) ∨ ∃ counter, o = .inc counter) :
    ∃ W pt, w.procs q = .worker W pt := by
  cases hs with
  | @call _ a pt _ k _ db' _ hp hn hx =>
    cases pt with
    | done res => rcases res with e | v <;> cases hn
    | _ => cases hn; rcases ho with ⟨n, ho⟩ | ⟨counter, ho⟩ <;> cases ho
  | @worker _ W pt _ k _ db' _ hp hn hx => exact ⟨W, pt, hp⟩

/-- With a single worker no fetch meets another worker's events. -/
theorem Reached.alone (h : Reached t role tr w) (hsole : SoleWorker role p) :
    Run (Guarded Step FetchOk) (World.init t role) tr w := by
  induction h with
  | init => exact .init
  | step hr hs ih =>
    refine ih.step ⟨hs, ?_⟩
    rintro a n r rfl b pt hne ⟨-, ⟨W, hb⟩, -⟩
    obtain ⟨W', pt', ha⟩ := worker_of_exec hs (.inl ⟨n, rfl⟩)
    obtain ⟨n₁, hn₁⟩ := Reached.worker_role hr ha
    obtain ⟨n₂, hn₂⟩ := Reached.worker_role hr hb
    exact absurd ((hsole b W n₂ hn₂).trans (hsole a W' n₁ hn₁).symm) hne

theorem Reached.exclusive (h : Reached t role tr w) (hsole : SoleWorker role p) : Exclusive w :=
  exclusive_of_run (h.alone hsole)

/-- With a single worker a terminal status of the start stays. -/
theorem Reached.terminal (h : Reached t role tr w) (hsole : SoleWorker role p)
    (he : t.1.statusOf e = some s) (hs : s ≠ .pending) : w.db.committed.statusOf e = some s := by
  induction h with
  | init => exact he
  | step hr hstep ih => exact (Reached.exclusive hr hsole).terminal hr hstep ih hs

/-- An event that is `pending` was so at the start, or was not there. -/
theorem Reached.pending_start (h : Reached t role tr w) (hsole : SoleWorker role p)
    (he : w.db.committed.statusOf e = some .pending) :
    t.1.statusOf e = none ∨ t.1.statusOf e = some .pending := by
  cases hst : t.1.statusOf e with
  | none => exact .inl rfl
  | some s =>
    by_cases hs : s = .pending
    · exact .inr (by rw [hs])
    · rw [h.terminal hsole hst hs] at he
      exact absurd (Option.some.inj he) hs

/-! ## Every run -/

omit [DecidableEq P] in
theorem tallied_init (hp : (World.init t role).procs p = .worker W pt) :
    Tallied t.1 ([] : List (Event P)) t.1 pt := by
  have hp : (role p).proc = .worker W pt := hp
  have hpt : pt.uncounted = none := by
    cases hr : role p with
    | call a => rw [hr] at hp; cases hp
    | worker W' polls => rw [hr] at hp; cases hp; exact WorkerPoint.uncounted_poll polls
  intro s hs
  have hnone : Went t.1 t.1 s = ∅ := by
    refine Set.eq_empty_iff_forall_notMem.2 ?_
    rintro e ⟨he, hstart | hstart⟩
    · rw [he] at hstart; cases hstart
    · rw [he] at hstart; exact hs (Option.some.inj hstart)
  rw [hnone, hpt]
  simp [counted]

/-- A step that is not the worker's keeps the tally. -/
theorem Tallied.other (hI : Tallied t.1 tr w.db.committed pt) (h : Reached t role tr w)
    (hs : Step w l w')
    (hsole : SoleWorker role p) (hl : ∀ o r, l ≠ .exec p o r) :
    Tallied t.1 (l :: tr) w'.db.committed pt := by
  have hcounts : l.counts = none := by
    by_contra hc
    obtain ⟨counter, hc⟩ := Option.ne_none_iff_exists'.1 hc
    obtain ⟨q, v, rfl⟩ := exec_of_counts hc
    -- only a worker increments a counter
    obtain ⟨W', pt', hq⟩ := worker_of_exec hs (.inr ⟨counter, rfl⟩)
    obtain ⟨polls, hr⟩ := h.worker_role hq
    obtain rfl := hsole q W' polls hr
    exact hl _ _ rfl
  have hkeep := hI.keep hcounts rfl
  cases h.commits hs with
  | same ht => rw [ht]; exact hkeep
  | created q a m event t' r hlab _ hm ht =>
    rw [ht]
    intro s hs
    rw [went_append hm.status hs]
    exact hkeep s hs
  | settled q W' pt' e status r hlab _ hq _ _ ht =>
    obtain ⟨polls, hr⟩ := h.worker_role hq
    exact absurd (hsole q W' polls hr ▸ hlab) (hl _ _)

section Own

variable {o : Op} {r : Except Exc (Op.Resp o)} {k : Except Exc (Op.Resp o) → WorkerPoint} {db' : Db P}
  {job : Job}

/-- The commit of a status. -/
theorem Tallied.commit {r : Except Exc Unit} (hI : Tallied t.1 tr w.db.committed pt)
    (h : Reached t role tr w)
    (hsole : SoleWorker role p) (hworks : w.Works p pt) (hheld : job.event ∈ pt.held)
    (hwrites : pt.writes = [.setStatus job.event.id status]) (hstatus : status ≠ .pending)
    (hpt : pt.uncounted = none) (hpt' : pt'.uncounted = some status) :
    Tallied t.1 (.exec p .commit r :: tr) (w.db.view schema p) pt' := by
  obtain ⟨ha, ⟨W, hp⟩, hu⟩ := hworks
  have hview : w.db.view schema p = w.db.committed.apply (.setStatus job.event.id status) := by
    rw [view_of_holds (h.workerInv hp).session hu, hwrites]; rfl
  have hpend := (h.exclusive hsole).pending p pt ⟨ha, ⟨W, hp⟩, hu⟩ job.event hheld
  rw [hview]
  exact hI.settle rfl hpt hpend (h.pending_start hsole hpend) hstatus hpt'

/-- A commit that returns has made the writes visible. -/
theorem Exec.of_commit {u : Unit} (hx : Exec db p .commit (.ok u) db') :
    (db.session p).Usable ∧ db'.committed = db.view schema p := by
  cases hx with
  | commit hu => exact ⟨hu, rfl⟩

/-- **The worker's own step keeps the tally**, if a commit that raises is not applied and
giving up does not raise. -/
theorem Tallied.step (hI : Tallied t.1 tr w.db.committed pt) (h : Reached t role tr w)
    (hsole : SoleWorker role p) (ha : w.alive p) (hp : w.procs p = .worker W pt)
    (hn : pt.node W = .op o k)
    (hx : Exec w.db p o r db')
    (hsure : ∀ e, Event.exec p o r = .exec p .commit (.error e) → db'.committed = w.db.committed)
    (hok : GiveUpOk w (.exec p o r)) : Tallied t.1 (.exec p o r :: tr) db'.committed (k r) := by
  by_cases hc : o = .commit
  · subst hc
    cases pt with
    | commit job attempt later =>
      cases hn
      rcases r with e | u
      · rw [hsure e rfl]
        exact hI.keep rfl (WorkerPoint.uncounted_attemptError ..)
      · obtain ⟨hu, hview⟩ := hx.of_commit
        rw [hview]
        exact hI.commit h hsole ⟨ha, ⟨W, hp⟩, hu⟩ List.mem_cons_self rfl nofun rfl rfl
    | commitFailed job =>
      cases hn
      rcases r with e | u
      · exact absurd rfl (hok p W job _ e (.inr hp))
      · obtain ⟨hu, hview⟩ := hx.of_commit
        rw [hview]
        exact hI.commit h hsole ⟨ha, ⟨W, hp⟩, hu⟩ List.mem_cons_self rfl nofun rfl rfl
    | stopped res => rcases res with e | u <;> cases hn
    | _ => cases hn
  · have hsame : db'.committed = w.db.committed := hx.committed.resolve_right fun h => hc h.1
    rw [hsame]
    -- between the commit and the count an event is tallied by the point
    by_cases hinc : ∃ counter, o = .inc counter
    · obtain ⟨counter, rfl⟩ := hinc
      have hr : r = .ok () := by
        cases hx with
        | failed hst => cases hst
        | inc => rfl
      subst hr
      cases pt with
      | count job attempt later => cases hn; exact hI.count rfl nofun rfl (WorkerPoint.uncounted_nextEvent ..)
      | countFailed job => cases hn; exact hI.count rfl nofun rfl (WorkerPoint.uncounted_nextEvent ..)
      | stopped res => rcases res with e | u <;> cases hn
      | _ => cases hn
    · push Not at hinc
      have hcounts : (Event.exec p o r).counts = none := by
        by_contra hne
        obtain ⟨counter, hcounts⟩ := Option.ne_none_iff_exists'.1 hne
        obtain ⟨q, v, he⟩ := exec_of_counts hcounts
        exact hinc counter (Event.exec.inj he).2.1
      obtain ⟨hpt, hpt'⟩ := WorkerPoint.uncounted_quiet (r := r) hn hc hinc fun job e hpt hr =>
        hok p W job o e (.inl (hpt ▸ hp)) (by rw [hr])
      exact hI.keep hcounts (hpt'.trans hpt.symm)

end Own

theorem tallied_of_run (hsole : SoleWorker role p)
    (h : Run (Guarded SureStep GiveUpOk) (World.init t role) tr w)
    (hp : w.procs p = .worker W pt) : Tallied t.1 tr w.db.committed pt := by
  refine Run.invariant (I := fun tr w => ∀ W pt, w.procs p = .worker W pt → Tallied t.1 tr w.db.committed pt)
    ?_ ?_ h W pt hp
  · exact fun W pt hp => tallied_init hp
  · rintro tr w l w' hrun hI ⟨⟨hs, hsure⟩, hok⟩ W pt hp
    have hreach : Reached t role tr w := hrun.forget.mono fun _ _ _ hs => hs.1
    cases hreach.fate hs p with
    | other hl hproc _ _ => exact (hI W pt (hproc ▸ hp)).other hreach hs hsole hl
    | call a pt' o k r _ _ _ _ hnext => rw [hnext] at hp; cases hp
    | worker W' pt' o k r hl ha _ hp' hn hx hnext =>
      rw [hnext] at hp
      cases hp
      subst hl
      exact (hI _ _ hp').step hreach hsole ha hp' hn hx (fun e he => hsure p e he) hok
    | died hl hproc _ _ =>
      exact (hI W pt (hproc ▸ hp)).other hreach hs hsole fun o r he => by cases hl ▸ he
    | aborted hl tx _ hproc _ =>
      exact (hI W pt (hproc ▸ hp)).other hreach hs hsole fun o r he => by cases hl ▸ he

/-- **Counters count status changes.** While giving up does not raise, after every batch of
a single worker each counter is the number of events whose committed status went from
`pending` to the one it stands for. -/
theorem counters_count_changes (hsole : SoleWorker role p)
    (h : Run (Guarded SureStep GiveUpOk) (World.init t role) tr w) (hp : w.procs p = .worker W pt)
    (hpt : pt.betweenBatches) :
    counted .messagesProcessedTotal tr = (Went t.1 w.db.committed .processed).ncard ∧
      counted .messagesFailedTotal tr = (Went t.1 w.db.committed .failed).ncard := by
  have hI := tallied_of_run hsole h hp
  have hnone : pt.uncounted = none := by
    cases pt with
    | count job attempt later => exact hpt.elim
    | countFailed job => exact hpt.elim
    | _ => rfl
  have hprocessed := hI .processed nofun
  have hfailed := hI .failed nofun
  rw [hnone] at hprocessed hfailed
  exact ⟨by simpa [OutboxStatus.counter] using hprocessed, by simpa [OutboxStatus.counter] using hfailed⟩

/-- A step that raises nothing meets the conditions. -/
theorem sure_of_ok {s : World P} (h : Run (Guarded SureStep GiveUpOk) s tr w) {o : Op} {v : Op.Resp o}
    (hs : Step w (.exec p o (.ok v)) w') :
    Run (Guarded SureStep GiveUpOk) s (.exec p o (.ok v) :: tr) w' :=
  h.step ⟨⟨hs, by rintro p e ⟨⟩⟩, by rintro p W job o e - ⟨⟩⟩

/-- A `publish` that raises does too. -/
theorem sure_of_publish {s : World P} (h : Run (Guarded SureStep GiveUpOk) s tr w) {event : OutboxEvent}
    {body : String} {err : Exc} (hs : Step w (.exec p (.publish event body) (.error err)) w')
    (hp : ∃ W job attempt later, w.procs p = .worker W (.publish job attempt later)) :
    Run (Guarded SureStep GiveUpOk) s (.exec p (.publish event body) (.error err) :: tr) w' := by
  obtain ⟨W, job, attempt, later, hp⟩ := hp
  refine h.step ⟨⟨hs, by rintro p e ⟨⟩⟩, ?_⟩
  rintro p W job o e (hp' | hp') ⟨⟩ <;> rw [hp] at hp' <;> cases hp'

/-- A worker processes the first event and gives the second one up. -/
theorem counters_count_changes_sample : ∃ tr w,
    Run (Guarded SureStep GiveUpOk) (World.init backlog fun _ : Unit => .worker ⟨2, 5⟩ 1) tr w ∧
    (Went backlog.1 w.db.committed .processed).ncard = 1 ∧
    (Went backlog.1 w.db.committed .failed).ncard = 1 := by
  have hfree : ∀ (db : Db Unit) k, db.Free () k := fun _ _ _ hq => absurd rfl hq
  have h0 : Run (Guarded SureStep GiveUpOk) (World.init backlog fun _ : Unit => .worker ⟨2, 5⟩ 1) [] _ := .init
  have h1 := sure_of_ok h0 (.worker (p := ()) trivial rfl rfl (.selectPending 2 [firstEvent, secondEvent] trivial
    (fetched_of_unlocked (hfree _) (by decide) (by decide))))
  have h2 := sure_of_ok h1 (.worker (p := ()) trivial rfl rfl (.published _ _))
  have h3 := sure_of_ok h2 (.worker (p := ()) trivial rfl rfl (.updateStatus _ _ trivial ⟨_, .head _, rfl⟩
    (hfree _ _)))
  have h4 := sure_of_ok h3 (.worker (p := ()) trivial rfl rfl (.commit trivial))
  have h5 := sure_of_ok h4 (.worker (p := ()) trivial rfl rfl (.inc _))
  have h6 := sure_of_publish h5 (.worker (p := ()) trivial rfl rfl (.publishFailed _ _ false)) ⟨_, _, _, _, rfl⟩
  have h7 := sure_of_ok h6 (.worker (p := ()) trivial rfl rfl (.sleep _))
  have h8 := sure_of_publish h7 (.worker (p := ()) trivial rfl rfl (.publishFailed _ _ false)) ⟨_, _, _, _, rfl⟩
  have h9 := sure_of_ok h8 (.worker (p := ()) trivial rfl rfl (.sleep _))
  have h10 := sure_of_publish h9 (.worker (p := ()) trivial rfl rfl (.publishFailed _ _ false)) ⟨_, _, _, _, rfl⟩
  have h11 := sure_of_ok h10 (.worker (p := ()) trivial rfl rfl (.updateStatus _ _ trivial
    ⟨_, .tail _ (.head _), rfl⟩ (hfree _ _)))
  have h12 := sure_of_ok h11 (.worker (p := ()) trivial rfl rfl (.commit trivial))
  have h13 := sure_of_ok h12 (.worker (p := ()) trivial rfl rfl (.inc _))
  have h14 := sure_of_ok h13 (.worker (p := ()) trivial rfl rfl .close)
  obtain ⟨hprocessed, hfailed⟩ := counters_count_changes (p := ()) (fun _ _ _ _ => rfl) h14 rfl trivial
  exact ⟨_, _, h14, hprocessed.symm.trans rfl, hfailed.symm.trans rfl⟩

/-- Neither the message of an event nor its status goes through: it is counted as failed,
and it is still `pending`. -/
theorem counters_count_pending : ∃ (t : ValidTables) (tr : List (Event Unit)) (w : World Unit),
    Run SureStep (World.init t fun _ => .worker ⟨2, 5⟩ 1) tr w ∧
    w.procs () = .worker ⟨2, 5⟩ (.pause 0) ∧
    w.db.committed = t.1 ∧ counted .messagesFailedTotal tr = 1 ∧
    (Went t.1 w.db.committed .failed).ncard = 0 := by
  have hfree : ∀ (db : Db Unit) k, db.Free () k := fun _ _ _ hq => absurd rfl hq
  have h0 : Run SureStep (World.init ⟨halfBacklog, by decide⟩ fun _ : Unit => .worker ⟨2, 5⟩ 1) [] _ := .init
  have h1 := h0.step ⟨.worker (p := ()) trivial rfl rfl (.selectPending 2 [secondEvent] trivial
    (fetched_of_unlocked (hfree _) (by decide) (by decide))), by rintro p e ⟨⟩⟩
  have h2 := h1.step ⟨.worker (p := ()) trivial rfl rfl (.publishFailed _ _ false), by rintro p e ⟨⟩⟩
  have h3 := h2.step ⟨.worker (p := ()) trivial rfl rfl (.sleep _), by rintro p e ⟨⟩⟩
  have h4 := h3.step ⟨.worker (p := ()) trivial rfl rfl (.publishFailed _ _ false), by rintro p e ⟨⟩⟩
  have h5 := h4.step ⟨.worker (p := ()) trivial rfl rfl (.sleep _), by rintro p e ⟨⟩⟩
  have h6 := h5.step ⟨.worker (p := ()) trivial rfl rfl (.publishFailed _ _ false), by rintro p e ⟨⟩⟩
  have h7 := h6.step ⟨.worker (p := ()) trivial rfl rfl (.failed rfl .aborted), by rintro p e ⟨⟩⟩
  have h8 := h7.step ⟨.worker (p := ()) trivial rfl rfl (.inc _), by rintro p e ⟨⟩⟩
  have h9 := h8.step ⟨.worker (p := ()) trivial rfl rfl .close, by rintro p e ⟨⟩⟩
  have hnone : Went halfBacklog halfBacklog .failed = ∅ := by
    refine Set.eq_empty_iff_forall_notMem.2 ?_
    rintro e ⟨he, -⟩
    obtain ⟨row, hrow, -, hst⟩ := Tables.exists_of_statusOf he
    revert hst
    exact (by decide : ∀ row ∈ halfBacklog.outboxEvents, row.status ≠ .failed) row hrow
  exact ⟨_, _, _, h9, rfl, rfl, rfl, (congrArg Set.ncard hnone).trans (Set.ncard_empty _)⟩

end Reach

end OrdersApi
