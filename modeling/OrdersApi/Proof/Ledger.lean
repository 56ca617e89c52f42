import OrdersApi.Lib.Linear
import OrdersApi.Proof.Agreement
import OrdersApi.Proof.Counters
import OrdersApi.Proof.Entries

/-!
# The service is a ledger

Every run of the system, from empty tables, is step by step a run of the ledger whose
entries are the committed orders with their events (`service_is_ledger`): a request takes
effect at one step, messages are those of the entries, and an entry is announced only
after its message was sent. So the answers of `create_order` are linearizable
(`create_order_linearizable`).
-/

namespace OrdersApi

open TxStore Trace Pairing

variable {P : Type} {tr : List (Event P)} {l : Event P} {p : P} {R : DateTime → DateTime → Prop}
  {m : OrderModel}
  {e : OutboxEventModel}

/-! ## Requests as clients -/

/-- Where a request stands as a client. After a commit that raised it may have been accepted. -/
def ClientAt : CallPoint → Ledger.Client Order → Prop
  | .validate, c => c = .new
  | .close (.ok (order, true)), c => c = .found order
  | .close (.ok (order, false)), c => c = .accepted order
  | .close (.error _), c => c = .waiting ∨ ∃ order, c = .accepted order
  | .done _, c => c = .answered
  | _, c => c = .waiting

theorem clientAt_insertError (exc : Exc) : ClientAt (.insertError exc) .waiting := by
  unfold CallPoint.insertError
  split
  · exact rfl
  · exact .inl rfl

theorem ClientAt.mayGet {result : Except Exc (Order × Bool)} {c : Ledger.Client Order}
    (h : ClientAt (.close result) c) : c.MayGet (answerOf result) := by
  rcases result with exc | ⟨order, idempotent⟩
  · rcases h with h | ⟨order, h⟩
    · subst h; exact trivial
    · subst h; exact trivial
  · cases idempotent with
    | false =>
      have h : c = .accepted order := h
      subst h; exact rfl
    | true =>
      have h : c = .found order := h
      subst h; exact rfl

variable [DecidableEq P] {role : P → Role} {w w' : World P} {s s' : Ledger.State P String Order String}

/-- The ledger that a state of the system shows. -/
structure LedgerOf (tr : List (Event P)) (w : World P) (s : Ledger.State P String Order String) :
    Prop where
  entries : s.entry = w.db.committed.entries tr
  clients : ∀ p a pt, w.procs p = .call a pt → ClientAt pt (s.client p)

section Clients

variable {a : CallArgs} {pt : CallPoint} {c : Ledger.Client Order}
  (h : ∀ q b pt', w.procs q = .call b pt' → ClientAt pt' (s.client q))
include h

/-- A request moves, as a client. -/
theorem clients_move (hpt : ClientAt pt c) :
    ∀ q b pt', Function.update w.procs p (.call a pt) q = .call b pt' →
    ClientAt pt' ((s.move p c).client q) := by
  intro q b pt' hq
  by_cases hqp : q = p
  · subst hqp
    rw [Function.update_self] at hq
    cases hq
    rw [Ledger.move_self]
    exact hpt
  · rw [Function.update_of_ne hqp] at hq
    rw [Ledger.move_other hqp]
    exact h q b pt' hq

/-- A request goes on, which is no move of a client. -/
theorem clients_keep (hpt : ClientAt pt (s.client p)) :
    ∀ q b pt', Function.update w.procs p (.call a pt) q = .call b pt' → ClientAt pt' (s.client q) := by
  intro q b pt' hq
  by_cases hqp : q = p
  · subst hqp
    rw [Function.update_self] at hq
    cases hq
    exact hpt
  · rw [Function.update_of_ne hqp] at hq
    exact h q b pt' hq

theorem clients_worker {W : OutboxWorker} {pt : WorkerPoint} :
    ∀ q b pt', Function.update w.procs p (.worker W pt) q = .call b pt' →
    ClientAt pt' (s.client q) := by
  intro q b pt' hq
  by_cases hqp : q = p
  · subst hqp
    rw [Function.update_self] at hq
    cases hq
  · rw [Function.update_of_ne hqp] at hq
    exact h q b pt' hq

end Clients

/-! ## Each step is a step of the ledger, or none -/

section Step

variable {db' : Db P} {o : Op} {r : Except Exc (Op.Resp o)} {a : CallArgs} {pt : CallPoint}
  {once : Prop}
  {k : Except Exc (Op.Resp o) → CallPoint}

/-- The ledger makes the step that `w` to `w'` shows. -/
abbrev LedgerStep (role : P → Role) (once : Prop) (tr : List (Event P)) (w : World P) (l : Event P)
    (w' : World P)
    (s : Ledger.State P String Order String) : Prop :=
  ∃ s', Matched (Ledger.Step (fun p => (role p).key) once) s (shows w l w') s' ∧
    LedgerOf (l :: tr) w' s'

omit [DecidableEq P] in
/-- A step without a message that leaves the tables leaves the entries. -/
theorem LedgerOf.entries_kept (hI : LedgerOf tr w s) (hl : l.hands = none) {tab : Tables}
    (ht : tab = w.db.committed) : s.entry = tab.entries (l :: tr) := by
  rw [ht, entries_quiet hl]
  exact hI.entries

theorem LedgerOf.quiet (hI : LedgerOf tr w s) (hl : l.hands = none) (hshow : shows w l w' = none)
    (ht : w'.db.committed = w.db.committed)
    (hclients : ∀ p a pt, w'.procs p = .call a pt → ClientAt pt (s.client p)) :
    LedgerStep role once tr w l w' s := by
  refine ⟨s, ?_, hI.entries_kept hl ht, hclients⟩
  rw [hshow]
  exact rfl

/-- A lookup that finds the order is the effect of its request. -/
theorem LedgerOf.lookup (hI : LedgerOf tr w s) (h : Reached .empty role tr w)
    (hp : w.procs p = .call a pt)
    (hpt : ClientAt pt (s.client p) → s.client p = .waiting) {m : OrderModel}
    (hfind : w.db.committed.findOrder a.externalOrderId = some m)
    (ht : db'.committed = w.db.committed) :
    LedgerStep role once tr w (.exec p (.selectOrder a.externalOrderId) (.ok (some m)))
      { w with procs := Function.update w.procs p (.call a (.close (.ok (m.toEntity, true)))), db := db' } s := by
  obtain ⟨hm, hkey⟩ := findOrder_some hfind
  obtain ⟨e, hx⟩ := h.paired.exists_pair_order hm
  have hentry : s.entry (role p).key = some (entryOf tr (m, e)) := by
    rw [hI.entries, h.call_role hp]
    show w.db.committed.entries tr a.externalOrderId = _
    rw [← hkey]
    exact h.paired.entries_pair h.keys_nodup hx
  have hstep : Ledger.Step (fun p => (role p).key) once s (.find p m.toEntity) (s.move p (.found m.toEntity)) :=
    .find p (entryOf tr (m, e)) (hpt (hI.clients p a pt hp)) hentry
  exact ⟨_, hstep, hI.entries_kept rfl ht, clients_move hI.clients rfl⟩

/-- A message of an event that was never handed over. -/
theorem Reached.not_handed (h : Reached .empty role tr w)
    (hnew : ∀ row ∈ w.db.committed.outboxEvents, row.id ≠ e.id) : handings e.id tr = 0 := by
  refine List.count_eq_zero.2 fun hmem => ?_
  obtain ⟨l, hl, hhands⟩ := List.mem_filterMap.1 hmem
  unfold Event.hands at hhands
  split at hhands
  · rename_i q event body r
    split at hhands
    · cases hhands
    · obtain ⟨m, hm⟩ := h.handed_message hl
      obtain ⟨row, hrow, hid, -⟩ := hm.row
      exact hnew row hrow (hid.trans (Option.some.inj hhands))
  · cases hhands

/-- A commit that is applied is the effect of its request. -/
theorem LedgerOf.created (hI : LedgerOf tr w s) (h : Reached .empty role tr w) {created : Order}
    {event : OutboxEvent} {t : DateTime} {r : Except Exc Unit} {pt' : CallPoint} {db' : Db P}
    (h' : Reached .empty role (.exec p .commit r :: tr)
      { w with procs := Function.update w.procs p (.call a pt'), db := db' })
    (hp : w.procs p = .call a (.commit created event)) (hmade : Made (fun _ _ => True) tr p a m event)
    (hcreated : created = m.toEntity) (ht : db'.committed =
      ⟨w.db.committed.orders ++ [m], w.db.committed.outboxEvents ++ [event.row t]⟩)
    (hpt : ClientAt pt' (.accepted created)) :
    LedgerStep role once tr w (.exec p .commit r)
      { w with procs := Function.update w.procs p (.call a pt'), db := db' } s := by
  have hk := h'.keys_nodup
  change db'.committed.keys.Nodup at hk
  rw [ht] at hk
  have hsent : handings (event.row t).id tr = 0 := by
    have hids := Tables.eventIds_nodup hk
    rw [List.map_append, List.nodup_append'] at hids
    exact h.not_handed fun row hrow he => hids.2.2 (List.mem_map_of_mem hrow) (by simp [he])
  obtain ⟨hnone, hentries⟩ :=
    entries_created (l := .exec p .commit r) h.paired.length_eq hk rfl hsent hmade.status
  have hkey : (role p).key = m.externalOrderId := by
    rw [h.call_role hp]
    exact hmade.key.symm
  have hshow : shows w (.exec p .commit r)
      { w with procs := Function.update w.procs p (.call a pt'), db := db' } =
      some (.accept p created (Json.dumps event.payload)) := by
    have hne : db'.committed ≠ w.db.committed := by
      rw [ht]
      intro he
      have hlen := congrArg (fun t : Tables => t.orders.length) he
      simp at hlen
    simp [shows, hne, hp]
  have hwait : s.client p = .waiting := hI.clients p a _ hp
  rw [LedgerStep, hshow]
  refine ⟨_, .accept p created _ hwait ?_, ?_, ?_⟩
  · rw [hI.entries, hkey]
    exact hnone
  · show Function.update s.entry _ _ = db'.committed.entries _
    rw [ht, hentries, hI.entries, hkey, hcreated]
    rfl
  · exact clients_move (s := s.put _ _) hI.clients hpt

/-- **A request's own step.** -/
theorem LedgerOf.call_step (hI : LedgerOf tr w s) (h : Reached .empty role tr w)
    (hp : w.procs p = .call a pt)
    (hn : pt.node a = .op o k) (hx : Exec w.db p o r db')
    (h' : Reached .empty role (.exec p o r :: tr)
      { w with procs := Function.update w.procs p (.call a (k r)), db := db' }) :
    LedgerStep role once tr w (.exec p o r)
      { w with procs := Function.update w.procs p (.call a (k r)), db := db' } s := by
  have hwait := hI.clients p a pt hp
  have hC := h.callInv hp
  -- most operations neither show anything nor change the tables
  have hquiet : ∀ pt', k r = pt' → db'.committed = w.db.committed → (Event.exec p o r).hands = none →
      shows w (.exec p o r) { w with procs := Function.update w.procs p (.call a (k r)), db := db' } = none →
      ClientAt pt' (s.client p) → LedgerStep role once tr w (.exec p o r)
        { w with procs := Function.update w.procs p (.call a (k r)), db := db' } s := by
    intro pt' hpt' ht hl hshow hcl
    exact hI.quiet hl hshow ht (clients_keep hI.clients (hpt' ▸ hcl))
  have hkept : o ≠ .commit → db'.committed = w.db.committed :=
    fun ho => hx.committed.resolve_right fun hc => ho hc.1
  cases pt with
  | validate =>
    cases hn
    cases hx with
    | failed hst => cases hst
    | get _ _ outcome =>
      refine ⟨s.move p .waiting, .invoke p hwait, hI.entries_kept rfl rfl, clients_move hI.clients ?_⟩
      cases hc : a.client.classify a.requesterId (httpGet (RequesterClient.path a.requesterId) outcome) with
      | ok b => simp only [hc]; exact rfl
      | error exc => simp only [hc]; exact .inl rfl
  | find =>
    cases hn
    cases hx with
    | failed _ hf => exact hquiet _ rfl hf.committed rfl rfl (.inl hwait)
    | selectOrder _ hu =>
      rw [view_of_nil hC.1] at hquiet ⊢
      cases hfind : w.db.committed.findOrder a.externalOrderId with
      | none =>
        rw [hfind] at hquiet
        exact hquiet _ rfl rfl rfl rfl hwait
      | some m => exact hI.lookup h hp id hfind rfl
  | commit created event =>
    cases hn
    obtain ⟨m, t, hm, hc, hs, -⟩ := hC
    cases hx with
    | failed hst => cases hst
    | commit hu => exact hI.created h h' hp hm hc (view_of_holds hs hu) rfl
    | commitFailed => exact hquiet _ rfl rfl rfl (if_pos rfl) (.inl hwait)
    -- the order is accepted, and the caller is told that the request failed
    | commitLost hu => exact hI.created h h' hp hm hc (view_of_holds hs hu) (.inr ⟨created, rfl⟩)
  | rollback =>
    cases hn
    rcases r with e | u
    · exact hquiet _ rfl (hkept nofun) rfl rfl (.inl hwait)
    · exact hquiet _ rfl (hkept nofun) rfl rfl hwait
  | refind =>
    cases hn
    cases hx with
    | failed _ hf => exact hquiet _ rfl hf.committed rfl rfl (.inl hwait)
    | selectOrder _ hu =>
      rw [view_of_nil hC.2.1] at hquiet ⊢
      cases hfind : w.db.committed.findOrder a.externalOrderId with
      | none =>
        rw [hfind] at hquiet
        exact hquiet _ rfl rfl rfl rfl (.inl hwait)
      | some m => exact hI.lookup h hp id hfind rfl
  | close res =>
    cases hn
    cases hx with
    | failed hst => cases hst
    | close =>
      have hshow : shows w (.exec p .close (.ok ()))
          { w with procs := Function.update w.procs p (.call a (.done res)), db := w.db.rollback p } =
          some (.answer p (answerOf res)) := by simp [shows, hp]
      rw [LedgerStep, hshow]
      exact ⟨s.move p .answered, .answer p _ hwait.mayGet, hI.entries_kept rfl rfl, clients_move hI.clients rfl⟩
  | done res => rcases res with e | v <;> cases hn
  -- the others go on, or to where an exception of the insertion leads
  | _ =>
    cases hn
    have hwait : s.client p = .waiting := hwait
    rcases r with e | u
    · exact hquiet _ rfl (hkept nofun) rfl rfl (hwait ▸ clientAt_insertError e)
    · exact hquiet _ rfl (hkept nofun) rfl rfl hwait

end Step

section WorkerStep

variable {db' : Db P} {o : Op} {r : Except Exc (Op.Resp o)} {W : OutboxWorker} {pt : WorkerPoint}
  {once : Prop}
  {k : Except Exc (Op.Resp o) → WorkerPoint}

omit [DecidableEq P] in
theorem PublishedOk.handings_pos {u : UUID} (h : PublishedOk tr u) : 0 < handings u tr := by
  obtain ⟨q, event, body, rfl, hl⟩ := h
  exact List.count_pos_iff.2 (List.mem_filterMap.2 ⟨_, hl, rfl⟩)

/-- A worker's commit of a status, if it changes the tables. -/
theorem LedgerOf.settled (hI : LedgerOf tr w s) (h : Reached .empty role tr w)
    (hex : once → Exclusive w)
    {job : Job} {status : OutboxStatus} {outcome : Ledger.Outcome} {r : Except Exc Unit}
    {pt' : WorkerPoint}
    {db' : Db P} (hworks : w.Works p pt) (hp : w.procs p = .worker W pt)
    (hheld : pt.held = job.event :: job.batch)
    (ht : db'.committed = w.db.committed.apply (.setStatus job.event.id status))
    (hout : status.outcome = some outcome) (hsent : outcome = .announced → pt.sent = some job.event)
    (hshow : w.db.committed ≠ db'.committed → shows w (.exec p .commit r)
      { w with procs := Function.update w.procs p (.worker W pt'), db := db' } =
        some (.settle job.event.payload.key outcome)) :
    LedgerStep role once tr w (.exec p .commit r)
      { w with procs := Function.update w.procs p (.worker W pt'), db := db' } s := by
  have hW := h.workerInv hp
  have hmem : job.event ∈ pt.held := hheld ▸ List.mem_cons_self
  obtain ⟨x, hx, hid, -, hkey⟩ := h.paired.pair_of_copy (hW.copies _ hmem)
  have hentries : _ = Function.update (w.db.committed.entries tr) _ _ :=
    entries_settled h.paired h.keys_nodup hx (l := .exec p .commit r) rfl status
  rw [hid, ← ht] at hentries
  have hentry : s.entry x.1.externalOrderId = some (entryOf tr x) := by
    rw [hI.entries]
    exact h.paired.entries_pair h.keys_nodup hx
  by_cases hsame : w.db.committed = db'.committed
  · exact hI.quiet rfl (if_pos hsame.symm) hsame.symm (clients_worker hI.clients)
  rw [LedgerStep, hshow hsame, ← hkey]
  refine ⟨_, .settle _ outcome _ hentry ?_ ?_, ?_, clients_worker hI.clients⟩
  · intro hann
    have hpub := hW.sent _ (hsent hann)
    rw [← hid] at hpub
    exact hpub.handings_pos
  -- the worker holds the event, which is then still pending
  · intro honce
    have hpend := (hex honce).pending p pt hworks _ hmem
    rw [← hid, Tables.statusOf_row h.keys_nodup (List.of_mem_zip hx).2] at hpend
    show x.2.status.outcome = none
    rw [Option.some.inj hpend]
    rfl
  · show Function.update s.entry _ _ = db'.committed.entries _
    rw [hentries, hI.entries, hout]

/-- A call of `publish` that hands its message over. -/
theorem LedgerOf.sent (hI : LedgerOf tr w s) (h : Reached .empty role tr w) {job : Job} {attempt : ℕ}
    {later : List ℕ} {r : Except Exc Unit} {pt' : WorkerPoint}
    (hp : w.procs p = .worker W (.publish job attempt later))
    (hr : r ≠ .error (.publishError false)) :
    LedgerStep role once tr w (.exec p (.publish job.event (Json.dumps job.event.payload)) r)
      { w with procs := Function.update w.procs p (.worker W pt') } s := by
  obtain ⟨x, hx, hid, hpay, hkey⟩ :=
    h.paired.pair_of_copy ((h.workerInv hp).copies _ List.mem_cons_self)
  have hentry : s.entry x.1.externalOrderId = some (entryOf tr x) := by
    rw [hI.entries]
    exact h.paired.entries_pair h.keys_nodup hx
  have hshow : shows w (.exec p (.publish job.event (Json.dumps job.event.payload)) r)
      { w with procs := Function.update w.procs p (.worker W pt') } =
      some (.send x.1.externalOrderId (entryOf tr x).message) := by
    simp [shows, hr, hkey, entryOf, hpay]
  rw [LedgerStep, hshow]
  refine ⟨_, .send _ _ hentry, ?_, clients_worker hI.clients⟩
  show Function.update s.entry _ _ = w.db.committed.entries _
  rw [hI.entries, entries_sent h.paired h.keys_nodup hx]
  simp [Event.hands, hr, hid]

/-- **A worker's own step.** -/
theorem LedgerOf.worker_step (hI : LedgerOf tr w s) (h : Reached .empty role tr w)
    (hex : once → Exclusive w)
    (ha : w.alive p) (hp : w.procs p = .worker W pt) (hn : pt.node W = .op o k)
    (hx : Exec w.db p o r db') :
    LedgerStep role once tr w (.exec p o r)
      { w with procs := Function.update w.procs p (.worker W (k r)), db := db' } s := by
  have hW := h.workerInv hp
  have hquiet : db'.committed = w.db.committed → (Event.exec p o r).hands = none →
      shows w (.exec p o r) { w with procs := Function.update w.procs p (.worker W (k r)), db := db' } = none →
      LedgerStep role once tr w (.exec p o r)
        { w with procs := Function.update w.procs p (.worker W (k r)), db := db' } s :=
    fun ht hl hshow => hI.quiet hl hshow ht (clients_worker hI.clients)
  have hkept : o ≠ .commit → db'.committed = w.db.committed :=
    fun ho => hx.committed.resolve_right fun hc => ho hc.1
  cases pt with
  | publish job attempt later =>
    cases hn
    cases hx with
    | failed hst => cases hst
    | published => exact hI.sent h hp nofun
    | publishFailed _ _ handed =>
      cases handed with
      | false => exact hquiet rfl rfl rfl
      | true => exact hI.sent h hp (by simp)
  | commit job attempt later =>
    cases hn
    rcases hx.committed with ht | ⟨-, hu, ht⟩
    · exact hquiet ht rfl (if_pos ht)
    · exact hI.settled h hex ⟨ha, ⟨W, hp⟩, hu⟩ hp rfl (ht.trans (view_of_holds hW.session hu)) rfl (fun _ => rfl)
        fun hne => by simp [shows, hne.symm, hp]
  | commitFailed job =>
    cases hn
    rcases hx.committed with ht | ⟨-, hu, ht⟩
    · exact hquiet ht rfl (if_pos ht)
    · exact hI.settled h hex ⟨ha, ⟨W, hp⟩, hu⟩ hp rfl (ht.trans (view_of_holds hW.session hu)) rfl nofun
        fun hne => by simp [shows, hne.symm, hp]
  | close polls => cases hn; exact hquiet (hkept nofun) rfl (by simp [shows, hp])
  | stopped res => rcases res with e | v <;> cases hn
  | _ => cases hn; exact hquiet (hkept nofun) rfl rfl

end WorkerStep

/-- **Each step of the system is a step of the ledger, or none.** -/
theorem LedgerOf.step {once : Prop} (hI : LedgerOf tr w s) (h : Reached .empty role tr w)
    (hex : once → Exclusive w)
    (hs : Step w l w') : LedgerStep role once tr w l w' s := by
  have h' := h.step hs
  cases hs with
  | call _ hp hn hx => exact hI.call_step h hp hn hx h'
  | worker ha hp hn hx => exact hI.worker_step h hex ha hp hn hx
  | die p => exact hI.quiet rfl rfl rfl hI.clients
  | abort p tx => exact hI.quiet rfl rfl rfl hI.clients

omit [DecidableEq P] in
theorem ledgerOf_init (role : P → Role) : LedgerOf [] (World.init .empty role) .empty where
  entries := rfl
  clients p a pt hp := by
    have hp : (role p).proc = .call a pt := hp
    cases hr : role p with
    | call a' => rw [hr] at hp; cases hp; exact rfl
    | worker W polls => rw [hr] at hp; cases hp

/-! ## Runs -/

section Runs

variable {acts : List (Ledger.Act P String Order String)}

theorem ledger_of_run {ok : World P → Event P → Prop}
    (h : Run (Recorded (Guarded Step ok) shows) (World.init .empty role, []) tr (w, acts)) :
    ∃ s, Run (Ledger.Step (fun p => (role p).key) (∀ w l, ok w l → FetchOk w l)) .empty acts s ∧
      s.entry = w.db.committed.entries tr := by
  obtain ⟨s, hrun, hI⟩ := h.simulated LedgerOf (ledgerOf_init role)
    fun tr w l w' s hreach hI hs => hI.step hreach.forget
      (fun (honce : ∀ w l, ok w l → FetchOk w l) =>
        exclusive_of_run (hreach.mono fun w l _ hs => ⟨hs.1, honce w l hs.2⟩)) hs.1
  exact ⟨s, hrun, hI.entries⟩

/-- **The service is a ledger.** What the steps of a run show is a run of the ledger, which
ends with the committed orders, their messages, how often these were sent, and their
statuses. An entry is settled once if no worker fetches an event that another has to finish. -/
theorem service_is_ledger {ok : World P → Event P → Prop}
    (h : Run (Recorded (Guarded Step ok) shows) (World.init .empty role, []) tr (w, acts)) :
    ∃ s, Run (Ledger.Step (fun p => (role p).key) (∀ w l, ok w l → FetchOk w l)) .empty acts s ∧
      s.entry = w.db.committed.entries tr :=
  ledger_of_run h

/-- One request and two workers. -/
def pairRole : Option Bool → Role
  | none => .call sampleCall
  | some _ => .worker ⟨10, 5⟩ 1

/-- With the other sessions idle nothing is locked. -/
theorem free_of_pair {p : Option Bool} {db : Db (Option Bool)}
    (h : ∀ q, q = p ∨ (db.session q).locks = []) (k : Lock) : db.Free p k := by
  intro q hq
  rw [(h q).resolve_left hq]
  exact List.not_mem_nil

/-- The second worker fetches while the first one has the event locked. -/
theorem service_is_ledger_sample : ∃ tr w acts s m,
    Run (Recorded (Guarded Step FetchOk) shows) (World.init .empty pairRole, []) tr (w, acts) ∧
    .exec (some false) (.selectPending 10) (.ok []) ∈ tr ∧
    Run (Ledger.Step (fun p => (pairRole p).key) (∀ (w : World (Option Bool)) l, FetchOk w l → FetchOk w l))
      .empty acts s ∧ s.entry = w.db.committed.entries tr ∧
    w.db.committed = ⟨[m], [(sampleRow (sampleTime 0)).setStatus (sampleUuid 1) .processed]⟩ := by
  have h0 : Run (Guarded Step FetchOk) (World.init .empty pairRole) [] _ := .init
  have h1 := h0.step ⟨.call (p := none) trivial rfl rfl (.get _ _ (.ok ⟨200, ""⟩)), fetchOk_of_ne nofun⟩
  have h2 := h1.step ⟨.call (p := none) trivial rfl rfl (.selectOrder _ trivial), fetchOk_of_ne nofun⟩
  have h3 := h2.step ⟨.call (p := none) trivial rfl rfl (.uuid4 (sampleUuid 0)), fetchOk_of_ne nofun⟩
  have h4 := h3.step ⟨.call (p := none) trivial rfl rfl (.now (sampleTime 0)), fetchOk_of_ne nofun⟩
  have h5 := h4.step ⟨.call (p := none) trivial rfl rfl (.uuid4 (sampleUuid 1)), fetchOk_of_ne nofun⟩
  have h6 := h5.step ⟨.call (p := none) trivial rfl rfl (.now (sampleTime 0)), fetchOk_of_ne nofun⟩
  have h7 := h6.step ⟨.call (p := none) trivial rfl rfl (.insertOrder _ trivial
    (fun k _ => free_of_pair (by decide) k)
    fun _ _ => List.not_mem_nil), fetchOk_of_ne nofun⟩
  have h8 := h7.step ⟨.call (p := none) trivial rfl rfl (.now (sampleTime 0)), fetchOk_of_ne nofun⟩
  have h9 := h8.step ⟨.call (p := none) trivial rfl rfl (.insertOutboxEvent _ trivial
    (fun k _ => free_of_pair (by decide) k)
    (by rintro k (_ | ⟨_, ⟨⟩⟩) (_ | ⟨_, _ | ⟨_, ⟨⟩⟩⟩))), fetchOk_of_ne nofun⟩
  have h10 := h9.step ⟨.call (p := none) trivial rfl rfl (.commit trivial), fetchOk_of_ne nofun⟩
  have h11 := h10.step ⟨.call (p := none) trivial rfl rfl .close, fetchOk_of_ne nofun⟩
  have hlimit : ([sampleRow (sampleTime 0)].filter fun row => row.status = .pending).length ≤ 10 := by decide
  have h12 := h11.step ⟨.worker (p := some true) trivial rfl rfl
    (.selectPending 10 [sampleRow (sampleTime 0)] trivial
      (fetched_of_unlocked (free_of_pair (by decide)) (List.pairwise_singleton _ _) hlimit)),
    fetchOk_of_none (by rintro (_ | _ | _) W pt - hq <;> cases hq <;> rfl)⟩
  have h13 := h12.step ⟨.worker (p := some true) trivial rfl rfl (.published _ _), fetchOk_of_ne nofun⟩
  have hlocked : ∀ row ∈ [sampleRow (sampleTime 0)],
      Lock.eventRow row.id ∈ [sampleRow (sampleTime 0)].map fun row => Lock.eventRow row.id :=
    fun row hrow => List.mem_map_of_mem hrow
  have h14 := h13.step ⟨.worker (p := some false) trivial rfl rfl (.selectPending 10 [] trivial
    (OrderLimit.selected_nil fun row hrow he => he.2 (some true) nofun (hlocked row hrow))),
    fetchOk_of_locked fun row hrow hfree => hfree (some true) nofun (hlocked row hrow)⟩
  have h15 := h14.step ⟨.worker (p := some true) trivial rfl rfl (.updateStatus _ _ trivial ⟨_, .head _, rfl⟩
    (free_of_pair (by decide) _)), fetchOk_of_ne nofun⟩
  have h16 := h15.step ⟨.worker (p := some true) trivial rfl rfl (.commit trivial), fetchOk_of_ne nofun⟩
  obtain ⟨acts, hacts⟩ := h16.record shows
  obtain ⟨s, hrun, hentries⟩ := service_is_ledger hacts
  exact ⟨_, _, acts, s, _, hacts, .tail _ (.tail _ (.head _)), hrun, hentries, rfl⟩

omit [DecidableEq P] in
/-- The sequential register that the orders are. -/
theorem values_of_entries (hpair : Paired R w.db.committed) (hk : w.db.committed.keys.Nodup)
    (hs : s.entry = w.db.committed.entries tr) :
    s.values = fun key => (w.db.committed.findOrder key).map OrderModel.toEntity := by
  funext key
  unfold Ledger.State.values
  rw [hs]
  cases hfind : w.db.committed.findOrder key with
  | none =>
    rw [entries_none (findOrder_none hfind)]
    rfl
  | some m =>
    obtain ⟨hm, rfl⟩ := findOrder_some hfind
    obtain ⟨e, hx⟩ := hpair.exists_pair_order hm
    rw [hpair.entries_pair hk hx]
    rfl

/-- A request that is done has been answered with its result. -/
theorem answered_of_done (h : Run (Recorded Step shows) (World.init .empty role, []) tr (w, acts))
    {a : CallArgs}
    {result : Except Exc (Order × Bool)} (hp : w.procs p = .call a (.done result)) :
    .answer p (answerOf result) ∈ acts := by
  refine h.invariant (I := fun _ x => ∀ p a result, x.1.procs p = .call a (.done result) →
    .answer p (answerOf result) ∈ x.2) ?_ ?_ p a result hp
  · intro p a result hp
    have hp : (role p).proc = .call a (.done result) := hp
    cases hr : role p with
    | call a' => rw [hr] at hp; cases hp
    | worker W polls => rw [hr] at hp; cases polls <;> cases hp
  · rintro tr ⟨w, acts⟩ l ⟨w', acts'⟩ hrun hI ⟨hs, hacts⟩ p a result hp
    have hkeep : ∀ act, act ∈ acts → act ∈ acts' := by
      intro act hact
      have hacts : acts' = (shows w l w').toList ++ acts := hacts
      rw [hacts]
      exact List.mem_append_right _ hact
    have hreach : Reached .empty role tr w := hrun.unrecord
    cases hreach.fate hs p with
    | other _ hproc => exact hkeep _ (hI p a result (hproc ▸ hp))
    | worker W pt o k r _ _ _ _ _ _ hnext =>
      have hp : w'.procs p = .call a (.done result) := hp
      rw [hnext] at hp
      cases hp
    | died _ hproc => exact hkeep _ (hI p a result (hproc ▸ hp))
    | aborted _ tx _ hproc => exact hkeep _ (hI p a result (hproc ▸ hp))
    | call b pt o k r hl hproc hn hx hnext =>
      have hp : w'.procs p = .call a (.done result) := hp
      rw [hnext] at hp
      obtain ⟨rfl, hr⟩ := Proc.call.inj hp
      obtain ⟨rfl, rfl⟩ := CallPoint.close_of_done hn hx hr
      have hshow : shows w l w' = some (.answer p (answerOf result)) := by simp [hl, shows, hproc]
      have hacts : acts' = (shows w l w').toList ++ acts := hacts
      rw [hacts, hshow]
      exact List.mem_cons_self

/-- **Linearizability.** The calls of `create_order` that took effect can be put in an order
in which a sequential put-if-absent register answers as the callers were answered and holds
the committed orders at the end; the order goes along with real time. -/
theorem create_order_linearizable
    (h : Run (Recorded Step shows) (World.init .empty role, []) tr (w, acts)) :
    ∃ order, Ledger.Linearizable (fun p => (role p).key) acts
        (fun key => (w.db.committed.findOrder key).map OrderModel.toEntity) order ∧
      ∀ p a v, w.procs p = .call a (.done (.ok v)) → (p, answerOf (.ok v)) ∈ order := by
  have hreach : Reached .empty role tr w := h.unrecord
  have hall : Run (Recorded (Guarded Step fun _ _ => True) shows) (World.init .empty role, []) tr (w, acts) :=
    h.mono fun _ _ _ hs => ⟨⟨hs.1, trivial⟩, hs.2⟩
  obtain ⟨s, hrun, hentries⟩ := ledger_of_run hall
  have hlin := Ledger.linearizable_of_run hrun
  rw [values_of_entries hreach.paired hreach.keys_nodup hentries] at hlin
  refine ⟨_, hlin, fun p a v hp => hlin.answered p _ (answered_of_done h hp) ?_⟩
  obtain ⟨order, idempotent⟩ := v
  cases idempotent <;> nofun

theorem create_order_linearizable_race : ∃ tr w acts order,
    Run (Recorded Step shows) (World.init .empty fun _ : Bool => .call sampleCall, []) tr (w, acts) ∧
    (∃ v, w.Result true sampleCall (.ok (v, false))) ∧
    (∃ v, w.Result false sampleCall (.ok (v, true))) ∧
    Ledger.Linearizable (fun _ => sampleCall.externalOrderId) acts
      (fun key => (w.db.committed.findOrder key).map OrderModel.toEntity) order := by
  obtain ⟨-, tr, w, h, -, ⟨v, hp⟩, v', hp'⟩ := sample_race
  obtain ⟨acts, hacts⟩ := h.record shows
  obtain ⟨order, hlin, -⟩ := create_order_linearizable hacts
  exact ⟨tr, w, acts, order, hacts, ⟨v, _, hp, rfl⟩, ⟨v', _, hp', rfl⟩, hlin⟩

end Runs

end OrdersApi
