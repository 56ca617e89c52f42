import OrdersApi.Spec.Observe
import OrdersApi.Proof.Points

/-!
# One step of the system, and what parties keep

* `Exec.trans`: whatever an operation does to the database is a transition of its
  session, so locks and unique keys stay consistent (`Reached.consistent`).
* `Step.extends`: committed rows stay, and only the status of an event can change.
* `Reached.fate`: what a step is to any one party.
* `Reached.local`: a property of one party (its control point, its session, the
  committed tables and the trace) holds of every party in every reached state, when
  the party's own steps preserve it and it survives the growth of the tables.
  `Reached.of_call` and `Reached.of_worker` are the rule for parties of one kind.
* `Reached.ran`: every party executes its program text.
-/

namespace OrdersApi

open TxStore Trace

variable {P : Type} [DecidableEq P] {db db' : Db P} {p q : P} {o : Op} {r : Except Exc (Op.Resp o)}
  {w w' : World P} {l : Event P} {t : ValidTables} {role : P → Role} {tr : List (Event P)}

omit [DecidableEq P] in
/-- A step of `p` is no step of another party. -/
theorem Event.exec_ne (h : q ≠ p) (o' : Op) (r' : Except Exc (Op.Resp o')) :
    Event.exec p o r ≠ .exec q o' r' :=
  fun he => h (Event.exec.inj he).1.symm

/-! ## Transitions of a session -/

omit [DecidableEq P] in
theorem view_nodup (hc : db.Consistent schema) (p : P) : (db.view schema p).keys.Nodup :=
  (Store.view_keys (D := schema)).nodup_iff.2 (hc.pending p)

theorem trans_read (hc : db.Consistent schema) (hu : (db.session p).Usable) {ks : List Lock}
    (hfree : ∀ k ∈ ks, db.Free p k) {ws : List Write} (hws : ws.flatMap Write.newKeys = []) :
    db.Trans schema p (db.extend p ws ks) := by
  refine .extend ws ks hu hfree ?_ ?_
  · show ∀ k ∈ ws.flatMap Write.newKeys, k ∈ ks
    simp [hws]
  · show ((db.view schema p).keys ++ ws.flatMap Write.newKeys).Nodup
    rw [hws, List.append_nil]; exact view_nodup hc p

theorem trans_insert (hc : db.Consistent schema) (hu : (db.session p).Usable) {x : Write}
    (hfree : ∀ k ∈ x.newKeys, db.Free p k) (hx : x.newKeys.Nodup)
    (hnew : ∀ k ∈ x.newKeys, k ∉ (db.view schema p).keys) :
    db.Trans schema p (db.extend p [x] x.newKeys) := by
  have hk : [x].flatMap Write.newKeys = x.newKeys := by simp
  refine .extend [x] x.newKeys hu hfree ?_ ?_
  · show ∀ k ∈ [x].flatMap Write.newKeys, k ∈ x.newKeys
    rw [hk]; exact fun _ h => h
  · show ((db.view schema p).keys ++ [x].flatMap Write.newKeys).Nodup
    rw [hk]
    exact List.nodup_append'.2 ⟨view_nodup hc p, hx, fun k hv hk' => hnew k hk' hv⟩

/-- **Every operation is a transition of its own session.** -/
theorem Exec.trans (hc : db.Consistent schema) (h : Exec db p o r db') : db.Trans schema p db' := by
  cases h with
  | failed _ hf => cases hf with
    | aborted => exact .abort
    | noConnection => exact .refl
  | selectOrder _ hu => exact trans_read hc hu (by simp) rfl
  | insertOrder model hu hfree hnew =>
    exact trans_insert hc hu (x := .insertOrder model) hfree (by simp [Write.newKeys, OrderModel.keys]) hnew
  | insertOutboxEvent model hu hfree hnew =>
    exact trans_insert hc hu (x := .insertOutboxEvent model) hfree
      (by simp [Write.newKeys, OutboxEventModel.keys]) hnew
  | insertOrderConflict => exact .abort
  | insertOutboxEventConflict => exact .abort
  | selectPending _ rows hu hf =>
    refine trans_read hc hu ?_ rfl
    intro k hk
    obtain ⟨row, hrow, rfl⟩ := List.mem_map.1 hk
    exact (hf.eligible row hrow).2
  | updateStatus eventId status hu _ hfree => exact trans_read hc hu (by simpa using hfree) rfl
  | updateNoRow _ _ hu => exact trans_read hc hu (by simp) rfl
  | commit hu => exact .commit hu
  | commitLost hu => exact .commitLost hu
  | commitFailed => exact .abort
  | rollback => exact .rollback
  | rollbackFailed => exact .abort
  | close => exact .rollback
  | _ => exact .refl

/-- A step is a transition of one session, the other sessions unchanged. -/
theorem Step.trans (hc : w.db.Consistent schema) (h : Step w l w') :
    ∃ p, w.db.Trans schema p w'.db := by
  cases h with
  | call _ _ _ hx => exact ⟨_, hx.trans hc⟩
  | worker _ _ _ hx => exact ⟨_, hx.trans hc⟩
  | die p => exact ⟨p, .refl⟩
  | abort p => exact ⟨p, .abort⟩

theorem Reached.consistent (h : Reached t role tr w) : w.db.Consistent schema := by
  refine h.invariant (I := fun _ w => w.db.Consistent schema) (Store.consistent_idle t.2) ?_
  intro tr w l w' _ hc hs
  obtain ⟨p, ht⟩ := hs.trans hc
  exact ht.consistent hc

/-! ## What an open transaction has written -/

section Sessions

variable {ws : List Write}

theorem Failed.holds (h : Failed db p db') (hs : (db.session p).Holds ws) :
    (db'.session p).Holds ws := by
  cases h with
  | aborted => rw [Store.abort_self]; exact .inl rfl
  | noConnection => exact hs

theorem Failed.committed (h : Failed db p db') : db'.committed = db.committed := by
  cases h <;> rfl

/-- A statement that writes `x`, on a usable session. -/
theorem holds_extend (hs : (db.session p).Holds ws) (hu : (db.session p).Usable) (x : List Write)
    (ks : List Lock) : ((db.extend p x ks).session p).Holds (ws ++ x) := by
  rw [Store.extend_self]
  exact .inr (by simp [hs.writes hu])

theorem holds_read (hs : (db.session p).Holds ws) (hu : (db.session p).Usable) (ks : List Lock) :
    ((db.extend p [] ks).session p).Holds ws := by
  simpa using holds_extend hs hu [] ks

omit [DecidableEq P] in
theorem view_of_holds (hs : (db.session p).Holds ws) (hu : (db.session p).Usable) :
    db.view schema p = ws.foldl Tables.apply db.committed := by
  unfold Store.view; rw [hs.writes hu]; rfl

omit [DecidableEq P] in
theorem view_of_nil (hs : (db.session p).Holds []) : db.view schema p = db.committed := by
  unfold Store.view; rw [hs.nil]; rfl

theorem aborted_of_not_usable {s : Session Write Lock} (h : ¬ s.Usable) : s = .aborted := by
  cases s with
  | aborted => rfl
  | idle => exact absurd trivial h
  | active tx => exact absurd trivial h

end Sessions

/-! ## Committed rows stay -/

/-- `t'` has the orders of `t`, and its events up to their status. -/
structure Tables.Extends (t t' : Tables) : Prop where
  orders : ∀ m ∈ t.orders, m ∈ t'.orders
  events : ∀ e ∈ t.outboxEvents, ∃ s, { e with status := s } ∈ t'.outboxEvents

namespace Tables

theorem Extends.refl (t : Tables) : t.Extends t := ⟨fun _ h => h, fun e h => ⟨e.status, h⟩⟩

theorem Extends.trans {t₁ t₂ t₃ : Tables} (h : t₁.Extends t₂) (h' : t₂.Extends t₃) : t₁.Extends t₃ := by
  refine ⟨fun m hm => h'.orders m (h.orders m hm), fun e he => ?_⟩
  obtain ⟨s, hs⟩ := h.events e he
  obtain ⟨s', hs'⟩ := h'.events _ hs
  exact ⟨s', hs'⟩

theorem extends_apply (t : Tables) (x : Write) : t.Extends (t.apply x) := by
  cases x with
  | insertOrder model => exact ⟨fun m hm => List.mem_append_left _ hm, fun e he => ⟨e.status, he⟩⟩
  | insertOutboxEvent model =>
    exact ⟨fun m hm => hm, fun e he => ⟨e.status, List.mem_append_left _ he⟩⟩
  | setStatus eventId status =>
    refine ⟨fun m hm => hm, fun e he => ?_⟩
    have hmem := List.mem_map_of_mem (f := OutboxEventModel.setStatus eventId status) he
    unfold OutboxEventModel.setStatus at hmem
    split at hmem
    · exact ⟨status, hmem⟩
    · exact ⟨e.status, hmem⟩

theorem extends_foldl (ws : List Write) (t : Tables) : t.Extends (ws.foldl apply t) := by
  induction ws generalizing t with
  | nil => exact .refl t
  | cons x ws ih => exact (t.extends_apply x).trans (ih _)

end Tables

/-- **Committed rows stay**: no step removes a row or changes anything but a status. -/
theorem Step.extends (hc : w.db.Consistent schema) (h : Step w l w') :
    w.db.committed.Extends w'.db.committed := by
  obtain ⟨p, ht⟩ := h.trans hc
  rcases ht.committed with he | he
  · rw [he]; exact .refl _
  · rw [he]; exact Tables.extends_foldl _ _

theorem Reached.extends (h : Reached t role tr w) {tr' : List (Event P)} (h' : Run Step w tr' w') :
    w.db.committed.Extends w'.db.committed := by
  induction h' with
  | init => exact .refl _
  | step hr hs ih => exact ih.trans (hs.extends (Reached.consistent (h.append hr)))

/-! ## Properties of one party -/

/-- What the step `l` from `w` to `w'` is to party `q`. -/
inductive Fate (w : World P) (l : Event P) (w' : World P) (q : P) : Prop
  | other (label : ∀ o r, l ≠ .exec q o r) (proc : w'.procs q = w.procs q)
      (session : w'.db.session q = w.db.session q) (alive : w'.alive q ↔ w.alive q)
  | call (a : CallArgs) (pt : CallPoint) (o : Op) (k : Except Exc (Op.Resp o) → CallPoint)
      (r : Except Exc (Op.Resp o)) (label : l = .exec q o r) (proc : w.procs q = .call a pt)
      (node : pt.node a = .op o k) (exec : Exec w.db q o r w'.db) (next : w'.procs q = .call a (k r))
  | worker (W : OutboxWorker) (pt : WorkerPoint) (o : Op) (k : Except Exc (Op.Resp o) → WorkerPoint)
      (r : Except Exc (Op.Resp o)) (label : l = .exec q o r) (alive : w.alive q) (alive' : w'.alive q)
      (proc : w.procs q = .worker W pt) (node : pt.node W = .op o k) (exec : Exec w.db q o r w'.db)
      (next : w'.procs q = .worker W (k r))
  | died (label : l = .die q) (proc : w'.procs q = w.procs q) (session : w'.db.session q = w.db.session q)
      (dead : ¬ w'.alive q)
  | aborted (label : l = .abort q) (tx : Tx Write Lock) (opened : w.db.session q = .active tx)
      (proc : w'.procs q = w.procs q) (session : w'.db.session q = .aborted)

/-- **A step is a party's own operation, its end, or leaves it where it was.** -/
theorem Reached.fate (h : Reached t role tr w) (hs : Step w l w') (q : P) : Fate w l w' q := by
  have hc := h.consistent
  cases hs with
  | @call p a pt o k r db' _ hp hn hx =>
    by_cases hq : q = p
    · subst hq
      exact .call a pt o k r rfl hp hn hx (Function.update_self ..)
    · exact .other (Event.exec_ne hq) (Function.update_of_ne hq _ _) ((hx.trans hc).other hq) Iff.rfl
  | @worker p W pt o k r db' ha hp hn hx =>
    by_cases hq : q = p
    · subst hq
      exact .worker W pt o k r rfl ha ha hp hn hx (Function.update_self ..)
    · exact .other (Event.exec_ne hq) (Function.update_of_ne hq _ _) ((hx.trans hc).other hq) Iff.rfl
  | die p =>
    by_cases hq : q = p
    · subst hq
      exact .died rfl rfl rfl (by simp)
    · exact .other (fun o r he => by cases he) rfl rfl (by simp [Function.update_of_ne hq])
  | abort p tx htx =>
    by_cases hq : q = p
    · subst hq
      exact .aborted rfl tx htx rfl Store.abort_self
    · exact .other (fun o r he => by cases he) rfl (Store.abort_other hq) Iff.rfl

/-- **The rule for one party's properties.** `ok` is a condition on the steps of the run. -/
theorem Reached.local {ok : World P → Event P → Prop}
    {Φ : List (Event P) → Tables → P → Proc → Session Write Lock → Prop}
    (init : ∀ p, Φ [] t.1 p (role p).proc .idle)
    (other : ∀ {tr tab tab' p x s l}, (∀ o r, l ≠ .exec p o r) → tab.Extends tab' →
      Φ tr tab p x s → Φ (l :: tr) tab' p x s)
    (aborted : ∀ {tr tab p x tx}, Φ tr tab p x (.active tx) → Φ tr tab p x .aborted)
    (call : ∀ {tr} {w : World P} {p a pt o k r db'}, Reached t role tr w → ok w (.exec p o r) →
      w.procs p = .call a pt → pt.node a = .op o k → Exec w.db p o r db' →
      Φ tr w.db.committed p (.call a pt) (w.db.session p) →
      Φ (.exec p o r :: tr) db'.committed p (.call a (k r)) (db'.session p))
    (worker : ∀ {tr} {w : World P} {p W pt o k r db'}, Reached t role tr w → ok w (.exec p o r) →
      w.procs p = .worker W pt → pt.node W = .op o k → Exec w.db p o r db' →
      Φ tr w.db.committed p (.worker W pt) (w.db.session p) →
      Φ (.exec p o r :: tr) db'.committed p (.worker W (k r)) (db'.session p))
    (h : Run (Guarded Step ok) (World.init t role) tr w) (p : P) :
    Φ tr w.db.committed p (w.procs p) (w.db.session p) := by
  revert p
  refine h.invariant (I := fun tr w => ∀ p, Φ tr w.db.committed p (w.procs p) (w.db.session p)) init ?_
  rintro tr w l w' hrun hI ⟨hs, hok⟩ q
  have hreach : Reached t role tr w := hrun.forget
  have hext := hs.extends hreach.consistent
  cases hreach.fate hs q with
  | other hl hp hsess _ => rw [hp, hsess]; exact other hl hext (hI q)
  | call a pt o k r hl hp hn hx hnext =>
    subst hl
    rw [hnext]
    exact call hreach hok hp hn hx (hp ▸ hI q)
  | worker W pt o k r hl _ _ hp hn hx hnext =>
    subst hl
    rw [hnext]
    exact worker hreach hok hp hn hx (hp ▸ hI q)
  -- a dead party keeps its point and its session until the server ends the transaction
  | died hl hp hsess _ =>
    rw [hp, hsess]
    exact other (fun o r he => by cases hl ▸ he) hext (hI q)
  | aborted hl tx htx hp hsess =>
    have hq := other (l := l) (fun o r he => by cases hl ▸ he) hext (hI q)
    rw [htx] at hq
    rw [hp, hsess]
    exact aborted hq

/-- The rule for a property of a request's point and session. -/
theorem Reached.of_call {Φ : CallArgs → CallPoint → Session Write Lock → Prop}
    (init : ∀ a, Φ a .validate .idle)
    (aborted : ∀ {a pt tx}, Φ a pt (.active tx) → Φ a pt .aborted)
    (step : ∀ {tr} {w : World P} {p a pt o k r db'}, Reached t role tr w → w.procs p = .call a pt →
      pt.node a = .op o k → Exec w.db p o r db' → Φ a pt (w.db.session p) → Φ a (k r) (db'.session p))
    (h : Reached t role tr w) {a : CallArgs} {pt : CallPoint} (hp : w.procs p = .call a pt) :
    Φ a pt (w.db.session p) := by
  have hg : Run (Guarded Step fun _ _ => True) (World.init t role) tr w := h.unconditional
  refine Reached.local (Φ := fun _ _ _ x s => ∀ a pt, x = .call a pt → Φ a pt s) ?_ ?_ ?_ ?_ ?_ hg p a pt hp
  · intro p a pt hx
    cases hr : role p with
    | call a' =>
      rw [hr] at hx
      cases hx
      exact init a
    | worker W polls =>
      rw [hr] at hx
      cases hx
  · intro _ _ _ _ _ _ _ _ _ hI
    exact hI
  · intro _ _ _ _ _ hI a pt hx
    exact aborted (hI a pt hx)
  · intro tr w p a pt o k r db' hreach _ hp hn hx hI a' pt' hproc
    cases hproc
    exact step hreach hp hn hx (hI a pt rfl)
  · intro _ _ _ _ _ _ _ _ _ _ _ _ _ _ _ a' pt' hproc
    cases hproc

/-- The rule for a property of a worker's point and session, and of the trace. -/
theorem Reached.of_worker {Φ : List (Event P) → P → WorkerPoint → Session Write Lock → Prop}
    (init : ∀ p polls, Φ [] p (.poll polls) .idle)
    (other : ∀ {tr p pt s l}, (∀ o r, l ≠ .exec p o r) → Φ tr p pt s → Φ (l :: tr) p pt s)
    (aborted : ∀ {tr p pt tx}, Φ tr p pt (.active tx) → Φ tr p pt .aborted)
    (step : ∀ {tr} {w : World P} {p W pt o k r db'}, pt.node W = .op o k → Exec w.db p o r db' →
      Φ tr p pt (w.db.session p) → Φ (.exec p o r :: tr) p (k r) (db'.session p))
    (h : Reached t role tr w) {W : OutboxWorker} {pt : WorkerPoint} (hp : w.procs p = .worker W pt) :
    Φ tr p pt (w.db.session p) := by
  have hg : Run (Guarded Step fun _ _ => True) (World.init t role) tr w := h.unconditional
  refine Reached.local (Φ := fun tr _ p x s => ∀ W pt, x = .worker W pt → Φ tr p pt s) ?_ ?_ ?_ ?_ ?_ hg p W pt hp
  · intro p W pt hx
    cases hr : role p with
    | call a =>
      rw [hr] at hx
      cases hx
    | worker W' polls =>
      rw [hr] at hx
      cases hx
      exact init p polls
  · intro _ _ _ _ _ _ _ hl _ hI W pt hx
    exact other hl (hI W pt hx)
  · intro _ _ _ _ _ hI W pt hx
    exact aborted (hI W pt hx)
  · intro _ _ _ _ _ _ _ _ _ _ _ _ _ _ _ W pt hproc
    cases hproc
  · intro tr w p W pt o k r db' _ _ _ hn hx hI W' pt' hproc
    cases hproc
    exact step hn hx (hI W pt rfl)

/-! ## The end of a request -/

/-- A request is done when its session is closed. -/
theorem CallPoint.close_of_done {a : CallArgs} {pt : CallPoint} {k : Except Exc (Op.Resp o) → CallPoint}
    {result : Except Exc (Order × Bool)}
    (hn : pt.node a = .op o k) (hx : Exec db p o r db') (hr : k r = .done result) :
    pt = .close result ∧ o = .close := by
  have hins : ∀ exc, insertError exc ≠ .done result := by
    intro exc
    unfold insertError
    split <;> nofun
  cases pt with
  | validate =>
    cases hn
    simp only at hr
    split at hr <;> cases hr
  | find => cases hn; rcases r with exc | _ | m <;> cases hr
  | rollback => cases hn; rcases r with exc | u <;> cases hr
  | refind => cases hn; rcases r with exc | _ | m <;> cases hr
  | close res =>
    cases hn
    cases hx with
    | failed hst => cases hst
    | close => cases hr; exact ⟨rfl, rfl⟩
  | done res => rcases res with exc | v <;> cases hn
  | _ =>
    cases hn
    rcases r with exc | u
    · exact absurd hr (hins exc)
    · cases hr

/-! ## Parties execute their programs -/

theorem callsOf_other (hl : ∀ o r, l ≠ .exec p o r) : callsOf p (l :: tr) = callsOf p tr := by
  cases l with
  | exec q o r =>
    have hq : q ≠ p := fun e => hl o r (by rw [e])
    simp [callsOf, hq]
  | die => rfl
  | abort => rfl

/-- The program text of a party. -/
def Role.Runs (role : Role) (l : List (effects.Call Exc)) (proc : Proc) : Prop :=
  match role, proc with
  | .call a, .call a' pt => a' = a ∧ Effect.Ran (OrderService.request a) l (pt.code a)
  | .worker W polls, .worker W' pt => W' = W ∧ Effect.Ran (W.start polls) l (pt.code W)
  | _, _ => False

/-- **Every party executes its program text**: the operations it has awaited, with their
responses, lead from the program of the source to the program of its control point. -/
theorem Reached.ran (h : Reached t role tr w) (p : P) : (role p).Runs (callsOf p tr) (w.procs p) := by
  have hg : Run (Guarded Step fun _ _ => True) (World.init t role) tr w := h.unconditional
  refine Reached.local (Φ := fun tr _ p x _ => (role p).Runs (callsOf p tr) x) ?_ ?_ ?_ ?_ ?_ hg p
  · intro p
    cases hr : role p with
    | call a => exact ⟨rfl, .nil⟩
    | worker W polls => exact ⟨rfl, WorkerPoint.worker_code_start W polls ▸ .nil⟩
  · intro tr _ _ p x _ l hl _ hΦ
    rw [callsOf_other hl]; exact hΦ
  · intro _ _ _ _ _ hΦ; exact hΦ
  · intro tr w p a pt o k r db' _ _ _ hn _ hΦ
    simp only [callsOf, if_true]
    cases hr : role p with
    | call a' =>
      rw [hr] at hΦ
      obtain ⟨rfl, hran⟩ := hΦ
      exact ⟨rfl, Effect.ran_step (CallPoint.call_implements a) hran hn r⟩
    | worker W polls => rw [hr] at hΦ; exact hΦ.elim
  · intro tr w p W pt o k r db' _ _ _ hn _ hΦ
    simp only [callsOf, if_true]
    cases hr : role p with
    | call a' => rw [hr] at hΦ; exact hΦ.elim
    | worker W' polls =>
      rw [hr] at hΦ
      obtain ⟨rfl, hran⟩ := hΦ
      exact ⟨rfl, Effect.ran_step (WorkerPoint.worker_implements W) hran hn r⟩

theorem Reached.call_role (h : Reached t role tr w) {a : CallArgs} {pt : CallPoint}
    (hp : w.procs p = .call a pt) : role p = .call a := by
  have hran := h.ran p
  rw [hp] at hran
  cases hr : role p with
  | call a' => rw [hr] at hran; rw [hran.1]
  | worker W polls => rw [hr] at hran; exact hran.elim

end OrdersApi
