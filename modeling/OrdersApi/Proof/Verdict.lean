import OrdersApi.Proof.Counters
import OrdersApi.Proof.Once

/-!
# What `failed` says

While every `mark_processed` gets its connection, a worker whose session is usable has
published nothing of what it has still to send: a failure after `publish` returned has
aborted the transaction, and nothing can be marked any more before the batch ends. So
an event that is marked `failed` was never published, unless an earlier batch did it.
-/

namespace OrdersApi

open TxStore Trace

variable {P : Type} {tr : List (Event P)} {l : Event P} {p q : P} {e : UUID} {event : OutboxEvent}

/-! ## Publishing -/

/-- The event for which `publish` returns in a step. -/
def Event.sends : Event P → Option UUID
  | .exec _ (.publish event _) (.ok _) => some event.id
  | _ => none

theorem publishedOk_cons : PublishedOk (l :: tr) e ↔ PublishedOk tr e ∨ l.sends = some e := by
  constructor
  · rintro ⟨p, event, body, rfl, hm⟩
    rcases List.mem_cons.1 hm with rfl | hm
    · exact .inr rfl
    · exact .inl ⟨p, event, body, rfl, hm⟩
  · rintro (h | h)
    · exact h.cons l
    · unfold Event.sends at h
      split at h
      · cases h; exact ⟨_, _, _, rfl, List.mem_cons_self⟩
      · cases h

section Own

variable [DecidableEq P] {db db' : Db P} {W : OutboxWorker} {pt : WorkerPoint} {o : Op}
  {r : Except Exc (Op.Resp o)} {k : Except Exc (Op.Resp o) → WorkerPoint}

/-- Only a session without a transaction is usable after a statement has failed on it. -/
theorem Exec.idle_of_failed {x : UUID} {status : OutboxStatus} {err : Exc}
    (hx : Exec db p (.updateStatus x status) (.error err) db') (hu : (db'.session p).Usable) :
    db.session p = .idle := by
  cases hx with
  | failed _ hf =>
    cases hf with
    | aborted => rw [Store.abort_self] at hu; exact hu.elim
    | noConnection hn =>
      cases hs : db.session p with
      | idle => rfl
      | active tx => exact absurd hs (hn tx)
      | aborted => rw [hs] at hu; exact hu.elim

/-- A worker that can still write gets nothing back to send, unless a `mark_processed` failed. -/
theorem unsent_step (hn : pt.node W = .op o k) (hx : Exec db p o r db') (hu : (db'.session p).Usable)
    (hsub : (k r).held.Sublist pt.held)
    (hmark : ∀ e err, o = .updateStatus e .processed → r ≠ .error err) :
    (k r).unsent.Sublist pt.unsent := by
  cases pt with
  | mark job attempt later =>
    cases hn
    rcases r with err | u
    · exact absurd rfl (hmark _ err rfl)
    · exact .refl _
  | commit job attempt later =>
    cases hn
    cases hx with
    | failed hst => cases hst
    | commit => exact .refl _
    | commitFailed => rw [Store.abort_self] at hu; exact hu.elim
    | commitLost => rw [Store.commitLost_self] at hu; exact hu.elim
  | stopped res => rcases res with err | u <;> cases hn
  | _ => exact ((k r).unsent_sublist).trans hsub

end Own

section Reach

variable [DecidableEq P] {t : ValidTables} {role : P → Role} {w w' : World P} {pt pt' : WorkerPoint}

/-- Only a worker at its `publish` sends an event. -/
theorem sends_of_step (hs : Step w l w') (hl : l.sends = some e) : ∃ q W job attempt later r,
    l = .exec q (.publish job.event (Json.dumps job.event.payload)) r ∧
      w.procs q = .worker W (.publish job attempt later) ∧ job.event.id = e := by
  unfold Event.sends at hl
  split at hl
  · rename_i q event body v
    cases hs with
    | @call _ a pt _ k _ db' _ hp hn hx =>
      cases pt with
      | done res => rcases res with err | u <;> cases hn
      | _ => cases hn
    | @worker _ W pt _ k _ db' _ hp hn hx =>
      cases pt with
      | publish job attempt later => cases hn; cases hl; exact ⟨q, W, job, attempt, later, _, rfl, hp, rfl⟩
      | stopped res => rcases res with err | u <;> cases hn
      | _ => cases hn
  · cases hl

/-- An event becomes `failed` only by the commit that gives it up. -/
theorem Reached.failed_before (h : Reached t role tr w) (hs : Step w l w')
    (he : w'.db.committed.statusOf e = some .failed) : w.db.committed.statusOf e = some .failed ∨
      ∃ q job r, l = .exec q .commit r ∧ w.Works q (.commitFailed job) ∧ job.event.id = e := by
  cases h.commits hs with
  | same ht => exact .inl (ht ▸ he)
  | created q a m event t' r _ _ hm ht =>
    left
    cases hst : w.db.committed.statusOf e with
    | some s => rwa [ht, Tables.statusOf_append hst] at he
    | none =>
      -- a new event is `pending`
      rw [ht] at he
      obtain ⟨row, hrow, rfl, hrs⟩ := Tables.exists_of_statusOf he
      rcases List.mem_append.1 hrow with hrow | hrow
      · rw [Tables.statusOf_row h.keys_nodup hrow] at hst; cases hst
      · rw [List.mem_singleton.1 hrow] at hrs
        exact absurd (hm.status.symm.trans hrs) nofun
  | settled q W pt x status r hl ha hp hu hw ht =>
    rw [ht, Tables.statusOf_setStatus] at he
    by_cases hex : e = x
    · right
      cases pt with
      | commit job attempt later =>
        cases hw
        obtain ⟨s, -, hs⟩ := Option.map_eq_some_iff.1 he
        rw [if_pos hex] at hs; cases hs
      | commitFailed job => cases hw; exact ⟨q, job, r, hl, ⟨ha, ⟨W, hp⟩, hu⟩, hex.symm⟩
      | _ => cases hw
    · left
      obtain ⟨s, hs, hs'⟩ := Option.map_eq_some_iff.1 he
      rw [if_neg hex] at hs'
      rw [hs, hs']

/-- What is known of a single worker `p` and of the events that it has not published. -/
structure Verdict (t : ValidTables) (tr : List (Event P)) (w : World P) (p : P) : Prop where
  failed : ∀ e ∈ Went t.1 w.db.committed .failed, ¬ PublishedOk tr e
  held : ∀ W pt, w.procs p = .worker W pt → ∀ event ∈ pt.held,
    w.db.committed.statusOf event.id ≠ some .failed
  unsent : ∀ pt, w.Works p pt → ∀ event ∈ pt.unsent, ¬ PublishedOk tr event.id

omit [DecidableEq P] in
theorem verdict_init (t : ValidTables) (role : P → Role) : Verdict t [] (World.init t role) p := by
  refine ⟨?_, fun W pt hp event he => ?_, ?_⟩
  · rintro e - ⟨q, event, body, -, hm⟩; cases hm
  · have hp : (role p).proc = .worker W pt := hp
    cases hr : role p with
    | call a => rw [hr] at hp; cases hp
    | worker W' polls =>
      rw [hr] at hp; cases hp
      rw [WorkerPoint.held_poll] at he; cases he
  · rintro pt - event - ⟨q, event, body, -, hm⟩; cases hm

/-- A status `failed` is given to an event that was not published. -/
theorem Verdict.failed_step (hI : Verdict t tr w p) (h : Reached t role tr w)
    (hsole : SoleWorker role p)
    (hs : Step w l w') : ∀ e ∈ Went t.1 w'.db.committed .failed, ¬ PublishedOk (l :: tr) e := by
  rintro e ⟨he, hstart⟩ hpub
  rcases h.failed_before hs he with hold | ⟨q, job, r, rfl, hworks, rfl⟩
  · rcases publishedOk_cons.1 hpub with hpub | hsend
    · exact hI.failed e ⟨hold, hstart⟩ hpub
    -- what the worker publishes is not yet `failed`
    · obtain ⟨q, W, job, attempt, later, r, -, hq, rfl⟩ := sends_of_step hs hsend
      obtain ⟨polls, hr⟩ := h.worker_role hq
      obtain rfl := hsole q W polls hr
      exact hI.held W _ hq job.event List.mem_cons_self hold
  · obtain ⟨-, ⟨W, hq⟩, -⟩ := id hworks
    obtain ⟨polls, hr⟩ := h.worker_role hq
    obtain rfl := hsole q W polls hr
    rcases publishedOk_cons.1 hpub with hpub | hsend
    · exact hI.unsent _ hworks job.event List.mem_cons_self hpub
    · cases hsend

/-- What the worker holds is not `failed`. -/
theorem Verdict.heldNotFailed_step (hI : Verdict t tr w p) (h : Reached t role tr w)
    (hsole : SoleWorker role p)
    (hs : Step w l w') : ∀ W pt, w'.procs p = .worker W pt → ∀ event ∈ pt.held,
      w'.db.committed.statusOf event.id ≠ some .failed := by
  intro W pt' hp' event hev hfailed
  have hkept : (∀ o r, l ≠ .exec p o r) → w'.procs p = w.procs p → False := by
    intro hl hproc
    rw [hproc] at hp'
    rcases h.failed_before hs hfailed with hold | ⟨q, job, r, hlab, ⟨-, ⟨W', hq⟩, -⟩, -⟩
    · exact hI.held W pt' hp' event hev hold
    · obtain ⟨polls, hr⟩ := h.worker_role hq
      exact hl _ _ (hsole q W' polls hr ▸ hlab)
  cases h.fate hs p with
  | other hl hproc _ _ => exact hkept hl hproc
  | died hl hproc _ _ => exact hkept (fun o r he => by cases hl ▸ he) hproc
  | aborted hl tx _ hproc _ => exact hkept (fun o r he => by cases hl ▸ he) hproc
  | call a pt o k r _ _ _ _ hnext => rw [hnext] at hp'; cases hp'
  | worker W₀ pt o k r hl _ _ hp hn hx hnext =>
    rw [hnext] at hp'
    cases hp'
    rcases held_cases hn hx with hsub | ⟨n, rows, hlab, hwrites, hheld, hf⟩
    · rcases h.failed_before hs hfailed with hold | ⟨q, job, r', hlab, hworks, hid⟩
      · exact hI.held _ pt hp event (hsub.subset hev) hold
      · obtain ⟨rfl, -, -⟩ := Event.exec.inj (hl.symm.trans hlab)
        obtain ⟨-, ⟨W', hq⟩, -⟩ := id hworks
        rw [hp] at hq
        cases hq
        cases hn
        -- the other events of the batch are not the one that was given up
        have hnd := h.held_nodup hp
        exact (List.nodup_cons.1 hnd).1 (hid ▸ List.mem_map_of_mem hev)
    -- a fetch returns events that are `pending`
    · cases hlab
      have hsame : w'.db.committed = w.db.committed := hx.committed.resolve_right fun hc => nomatch hc.1
      rw [hheld] at hev
      obtain ⟨row, hrow, rfl⟩ := List.mem_map.1 hev
      rw [view_of_nil (hwrites ▸ (h.workerInv hp).session)] at hf
      have hst := Tables.statusOf_row h.keys_nodup (hf.sub.subset hrow)
      rw [(hf.eligible row hrow).1, ← hsame] at hst
      rw [show row.toEntity.id = row.id from rfl, hst] at hfailed
      cases hfailed

/-- A worker that can still write has not published what it has still to send. -/
theorem Verdict.unpublished_step (hI : Verdict t tr w p) (h : Reached t role tr w)
    (hsole : SoleWorker role p)
    (hs : Step w l w') (hok : ConnectOk w l) (hre : NotRefetched (l :: tr)) :
    ∀ pt, w'.Works p pt → ∀ event ∈ pt.unsent, ¬ PublishedOk (l :: tr) event.id := by
  intro pt' hworks' event hev hpub
  cases h.origin hs hworks' with
  | other hworks hl =>
    rcases publishedOk_cons.1 hpub with hpub | hsend
    · exact hI.unsent pt' hworks event hev hpub
    · obtain ⟨q, W, job, attempt, later, r, hlab, hq, -⟩ := sends_of_step hs hsend
      obtain ⟨polls, hr⟩ := h.worker_role hq
      exact hl _ _ (hsole q W polls hr ▸ hlab)
  | own W pt o k r hl ha hp hn hx hpt =>
    subst hpt hl
    rcases held_cases hn hx with hsub | ⟨n, rows, hlab, -, hheld, -⟩
    · obtain ⟨ha', -, hu'⟩ := id hworks'
      have hmark : ∀ x err, o = .updateStatus x .processed → r ≠ .error err := by
        rintro x err rfl rfl
        exact hok p x err rfl (hx.idle_of_failed hu')
      have hev' := (unsent_step hn hx hu' hsub hmark).subset hev
      -- where something is to be sent the step does not end the transaction
      have hu : (w.db.session p).Usable := by
        refine hx.usable_before hu' ?_ ?_ <;> rintro rfl
        · cases pt with
          | close polls => cases hev'
          | stopped res => rcases res with err | u <;> cases hn
          | _ => cases hn
        · cases pt with
          | stopped res => rcases res with err | u <;> cases hn
          | _ => cases hn
      rcases publishedOk_cons.1 hpub with hpub | hsend
      · exact hI.unsent pt ⟨ha, ⟨W, hp⟩, hu⟩ event hev' hpub
      -- what has just been published is not among the events still to be sent
      · obtain ⟨q, W', job, attempt, later, r', hlab, hq, hid⟩ := sends_of_step hs hsend
        obtain ⟨rfl, rfl, hr⟩ := Event.exec.inj hlab
        rw [hp] at hq
        cases hq
        cases hn
        have hnd := h.held_nodup hp
        rcases r with err | u
        · cases hsend
        · exact (List.nodup_cons.1 hnd).1 (hid ▸ List.mem_map_of_mem hev)
    · cases hlab
      rcases publishedOk_cons.1 hpub with hpub | hsend
      · have hev := (WorkerPoint.unsent_sublist _).subset hev
        rw [hheld] at hev
        obtain ⟨row, hrow, rfl⟩ := List.mem_map.1 hev
        exact hre.2 p _ rows rfl row hrow hpub
      · cases hsend

theorem verdict_of_run (hsole : SoleWorker role p)
    (h : Run (Guarded Step ConnectOk) (World.init t role) tr w)
    (hre : NotRefetched tr) : Verdict t tr w p := by
  induction h with
  | init => exact verdict_init t role
  | step hr hs ih =>
    have hI := ih hre.1
    have hreach : Reached t role _ _ := hr.forget
    exact ⟨hI.failed_step hreach hsole hs.1, hI.heldNotFailed_step hreach hsole hs.1,
      hI.unpublished_step hreach hsole hs.1 hs.2 hre⟩

/-- **`failed` means not published**, with a single worker, while no `mark_processed` fails
for want of a connection and no published event is fetched again. -/
theorem failed_not_published (hsole : SoleWorker role p)
    (h : Run (Guarded Step ConnectOk) (World.init t role) tr w) (hre : NotRefetched tr)
    (he : e ∈ Went t.1 w.db.committed .failed) : ¬ PublishedOk tr e :=
  (verdict_of_run hsole h hre).failed e he

theorem failed_not_published_sample : ∃ (t : ValidTables) (tr : List (Event Unit)) (w : World Unit),
    Run (Guarded Step ConnectOk) (World.init t fun _ => .worker ⟨2, 5⟩ 1) tr w ∧
    secondEvent.id ∈ Went t.1 w.db.committed .failed ∧ ¬ PublishedOk tr secondEvent.id := by
  have hfree : ∀ (db : Db Unit) k, db.Free () k := fun _ _ _ hq => absurd rfl hq
  have h0 : Run (Guarded Step ConnectOk)
    (World.init ⟨halfBacklog, by decide⟩ fun _ : Unit => .worker ⟨2, 5⟩ 1) [] _ := .init
  have h1 := h0.step ⟨.worker (p := ()) trivial rfl rfl (.selectPending 2 [secondEvent] trivial
    (fetched_of_unlocked (hfree _) (by decide) (by decide))), by rintro p e err ⟨⟩⟩
  have h2 := h1.step ⟨.worker (p := ()) trivial rfl rfl (.publishFailed _ _ false), by rintro p e err ⟨⟩⟩
  have h3 := h2.step ⟨.worker (p := ()) trivial rfl rfl (.sleep _), by rintro p e err ⟨⟩⟩
  have h4 := h3.step ⟨.worker (p := ()) trivial rfl rfl (.publishFailed _ _ false), by rintro p e err ⟨⟩⟩
  have h5 := h4.step ⟨.worker (p := ()) trivial rfl rfl (.sleep _), by rintro p e err ⟨⟩⟩
  have h6 := h5.step ⟨.worker (p := ()) trivial rfl rfl (.publishFailed _ _ false), by rintro p e err ⟨⟩⟩
  have h7 := h6.step ⟨.worker (p := ()) trivial rfl rfl (.updateStatus _ _ trivial
    ⟨_, .tail _ (.head _), rfl⟩ (hfree _ _)), by rintro p e err ⟨⟩⟩
  have h8 := h7.step ⟨.worker (p := ()) trivial rfl rfl (.commit trivial), by rintro p e err ⟨⟩⟩
  refine ⟨_, _, _, h8, ⟨rfl, .inr rfl⟩, failed_not_published (p := ()) (fun _ _ _ _ => rfl) h8 ?_ ⟨rfl, .inr rfl⟩⟩
  simp [NotRefetched, PublishedOk]

/-- The second event of a batch is published three times, but each time `mark_processed`
gets no connection; then `mark_failed` gets one. -/
theorem failed_and_published : ∃ tr w, Reached backlog (fun _ : Unit => .worker ⟨2, 5⟩ 1) tr w ∧
    secondEvent.id ∈ Went backlog.1 w.db.committed .failed ∧ PublishedOk tr secondEvent.id := by
  have hidle : ∀ tx, (.idle : Session Write Lock) ≠ .active tx := nofun
  obtain ⟨tr, ⟨procs, _, _⟩, h, rfl, rfl, hproc, -⟩ := sample_alone
  have h1 := h.forget.step (.worker (p := ()) trivial hproc rfl (.inc _))
  have h2 := h1.step (.worker (p := ()) trivial rfl rfl (.published _ _))
  have h3 := h2.step (.worker (p := ()) trivial rfl rfl (.failed rfl (.noConnection hidle)))
  have h4 := h3.step (.worker (p := ()) trivial rfl rfl (.sleep _))
  have h5 := h4.step (.worker (p := ()) trivial rfl rfl (.published _ _))
  have h6 := h5.step (.worker (p := ()) trivial rfl rfl (.failed rfl (.noConnection hidle)))
  have h7 := h6.step (.worker (p := ()) trivial rfl rfl (.sleep _))
  have h8 := h7.step (.worker (p := ()) trivial rfl rfl (.published _ _))
  have h9 := h8.step (.worker (p := ()) trivial rfl rfl (.failed rfl (.noConnection hidle)))
  have h10 := h9.step (.worker (p := ()) trivial rfl rfl (.updateStatus _ _ trivial
    ⟨_, .tail _ (.head _), rfl⟩ fun _ hq => absurd rfl hq))
  have h11 := h10.step (.worker (p := ()) trivial rfl rfl (.commit trivial))
  exact ⟨_, _, h11, ⟨rfl, .inr rfl⟩, (), _, _, rfl, .tail _ (.tail _ (.tail _ (.head _)))⟩

end Reach

end OrdersApi
