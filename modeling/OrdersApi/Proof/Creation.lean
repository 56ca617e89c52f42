import OrdersApi.Proof.Local
import OrdersApi.Proof.Requester
import OrdersApi.Spec.Observe

/-!
# What a request has done at each of its points

`CallInv` ties a request's control point to its session and to the committed tables:
what its open transaction has written, how its order and its event were built, and,
from the end of `create_order` on, which committed row its result is. It is
parametric in a relation `R` between the clock reading of the service and the one of
`OrderRepository.create`, which `ClockOk R` imposes on the steps of a run.
-/

namespace OrdersApi

open TxStore Trace

variable {P : Type} {tr : List (Event P)} {p q : P} {a : CallArgs} {R : DateTime → DateTime → Prop}

/-- The payload of an order's event. -/
def orderPayload (m : OrderModel) (correlationId createdAt : String) : Payload :=
  [("event_type", "order_created"),
   ("order_id", m.id.str),
   ("external_order_id", m.externalOrderId),
   ("requester_id", m.requesterId),
   ("correlation_id", correlationId),
   ("created_at", createdAt)]

/-- The event row that is inserted for `event` when the clock shows `t`. -/
def OutboxEvent.row (event : OutboxEvent) (t : DateTime) : OutboxEventModel :=
  ⟨event.id, event.eventType, event.payload, event.status, t⟩

/-- The event row `e` was written for the order row `m`, with a clock reading related
to that of `m`. -/
def Matches (R : DateTime → DateTime → Prop) (m : OrderModel) (e : OutboxEventModel) : Prop :=
  e.eventType = "order_created" ∧
    ∃ correlationId now, R now m.createdAt ∧ e.payload = orderPayload m correlationId now.isoformat

/-- Request `p` built the row `m` and the event `event`, from UUIDs that it drew. -/
structure Made (R : DateTime → DateTime → Prop) (tr : List (Event P)) (p : P) (a : CallArgs)
    (m : OrderModel) (event : OutboxEvent) : Prop where
  orderDrawn : Drawn tr p m.id
  eventDrawn : Drawn tr p event.id
  key : m.externalOrderId = a.externalOrderId
  status : event.status = .pending
  built : ∀ t, Matches R m (event.row t)

/-- Request `p` has not executed its commit. -/
def NotCommitted (tr : List (Event P)) (p : P) : Prop := ∀ r, Event.exec p .commit r ∉ tr

/-- A UUID that `p` drew is a primary key of a row that `p` has not committed. -/
def Collided (tr : List (Event P)) (tab : Tables) (p : P) : Prop :=
  ∃ u, Drawn tr p u ∧ u ∈ tab.ids

/-- What is known of the result of `create_order`. -/
def ResultInv (tr : List (Event P)) (tab : Tables) (p : P) (a : CallArgs) :
    Except Exc (Order × Bool) → Prop
  | .ok (order, idempotent) => ∃ m ∈ tab.orders, m.externalOrderId = a.externalOrderId ∧
      order = m.toEntity ∧ (idempotent = false → Drawn tr p m.id)
  | .error e => ∀ key, e = .duplicateOrder key → Collided tr tab p ∧ NotCommitted tr p

/-- What holds at a request's control point, with its session `s`. -/
def CallInv (R : DateTime → DateTime → Prop) (tr : List (Event P)) (tab : Tables) (p : P) (a : CallArgs)
    (pt : CallPoint) (s : Session Write Lock) : Prop :=
  match pt with
  | .validate | .find | .orderId => s.Holds [] ∧ NotCommitted tr p
  | .now u => Drawn tr p u ∧ s.Holds [] ∧ NotCommitted tr p
  | .eventId u _ => Drawn tr p u ∧ s.Holds [] ∧ NotCommitted tr p
  | .orderClock order event => (∃ u t v, Drawn tr p u ∧ Drawn tr p v ∧
      order = OrderService.newOrder a u t ∧ event = OrderService.newEvent a u t v) ∧
      s.Holds [] ∧ NotCommitted tr p
  | .insertOrder m event => Made R tr p a m event ∧ s.Holds [] ∧ NotCommitted tr p
  | .eventClock created event => ∃ m, Made R tr p a m event ∧ created = m.toEntity ∧
      s.Holds [.insertOrder m] ∧ NotCommitted tr p
  | .insertEvent created event e => ∃ m t, Made R tr p a m event ∧ created = m.toEntity ∧
      e = event.row t ∧
      s.Holds [.insertOrder m] ∧ NotCommitted tr p
  | .commit created event => ∃ m t, Made R tr p a m event ∧ created = m.toEntity ∧
      s.Holds [.insertOrder m, .insertOutboxEvent (event.row t)] ∧ NotCommitted tr p
  | .rollback | .refind => ((∃ m ∈ tab.orders, m.externalOrderId = a.externalOrderId) ∨ Collided tr tab p) ∧
      s.Holds [] ∧ NotCommitted tr p
  | .close r | .done r => ResultInv tr tab p a r ∧ s.Holds []

/-! ## The invariant survives what other parties do -/

section Frame

variable {l : Event P} {tab tab' : Tables} {u : UUID} {m : OrderModel} {event : OutboxEvent}
  {pt : CallPoint}
  {s : Session Write Lock}

theorem Drawn.cons (h : Drawn tr p u) (l : Event P) : Drawn (l :: tr) p u := List.mem_cons_of_mem _ h

theorem Made.cons (h : Made R tr p a m event) (l : Event P) : Made R (l :: tr) p a m event :=
  { h with orderDrawn := h.orderDrawn.cons l, eventDrawn := h.eventDrawn.cons l }

theorem NotCommitted.cons (h : NotCommitted tr p) (hl : ∀ r, l ≠ .exec p .commit r) :
    NotCommitted (l :: tr) p := by
  intro r hr
  rcases List.mem_cons.1 hr with he | hr
  · exact hl r he.symm
  · exact h r hr

theorem Tables.Extends.ids (h : tab.Extends tab') (hu : u ∈ tab.ids) : u ∈ tab'.ids := by
  rcases List.mem_append.1 hu with hu | hu
  · obtain ⟨m, hm, rfl⟩ := List.mem_map.1 hu
    exact List.mem_append_left _ (List.mem_map_of_mem (h.orders m hm))
  · obtain ⟨e, he, rfl⟩ := List.mem_map.1 hu
    obtain ⟨s, hs⟩ := h.events e he
    exact List.mem_append_right _ (List.mem_map.2 ⟨_, hs, rfl⟩)

theorem Collided.mono (h : Collided tr tab p) (hext : tab.Extends tab') (l : Event P) :
    Collided (l :: tr) tab' p := by
  obtain ⟨u, hu, hid⟩ := h
  exact ⟨u, hu.cons l, hext.ids hid⟩

theorem ResultInv.mono {r : Except Exc (Order × Bool)} (h : ResultInv tr tab p a r)
    (hext : tab.Extends tab')
    (hl : ∀ r, l ≠ .exec p .commit r) : ResultInv (l :: tr) tab' p a r := by
  rcases r with e | ⟨order, idempotent⟩
  · intro key he
    exact ⟨(h key he).1.mono hext l, (h key he).2.cons hl⟩
  · obtain ⟨m, hm, hk, ho, hd⟩ := h
    exact ⟨m, hext.orders m hm, hk, ho, fun hi => (hd hi).cons l⟩

theorem CallInv.other (h : CallInv R tr tab p a pt s) (hext : tab.Extends tab')
    (hl : ∀ r, l ≠ .exec p .commit r) : CallInv R (l :: tr) tab' p a pt s := by
  cases pt with
  | validate => exact ⟨h.1, h.2.cons hl⟩
  | find => exact ⟨h.1, h.2.cons hl⟩
  | orderId => exact ⟨h.1, h.2.cons hl⟩
  | now u => exact ⟨h.1.cons l, h.2.1, h.2.2.cons hl⟩
  | eventId u t => exact ⟨h.1.cons l, h.2.1, h.2.2.cons hl⟩
  | orderClock order event =>
    obtain ⟨⟨u, t, v, hu, hv, ho, he⟩, hs, hn⟩ := h
    exact ⟨⟨u, t, v, hu.cons l, hv.cons l, ho, he⟩, hs, hn.cons hl⟩
  | insertOrder m event => exact ⟨h.1.cons l, h.2.1, h.2.2.cons hl⟩
  | eventClock created event =>
    obtain ⟨m, hm, hc, hs, hn⟩ := h
    exact ⟨m, hm.cons l, hc, hs, hn.cons hl⟩
  | insertEvent created event e =>
    obtain ⟨m, t, hm, hc, he, hs, hn⟩ := h
    exact ⟨m, t, hm.cons l, hc, he, hs, hn.cons hl⟩
  | commit created event =>
    obtain ⟨m, t, hm, hc, hs, hn⟩ := h
    exact ⟨m, t, hm.cons l, hc, hs, hn.cons hl⟩
  | rollback =>
    obtain ⟨hr, hs, hn⟩ := h
    refine ⟨hr.imp ?_ fun hc => hc.mono hext l, hs, hn.cons hl⟩
    rintro ⟨m, hm, hk⟩; exact ⟨m, hext.orders m hm, hk⟩
  | refind =>
    obtain ⟨hr, hs, hn⟩ := h
    refine ⟨hr.imp ?_ fun hc => hc.mono hext l, hs, hn.cons hl⟩
    rintro ⟨m, hm, hk⟩; exact ⟨m, hext.orders m hm, hk⟩
  | close r => exact ⟨h.1.mono hext hl, h.2⟩
  | done r => exact ⟨h.1.mono hext hl, h.2⟩

theorem CallInv.aborted (h : CallInv R tr tab p a pt s) : CallInv R tr tab p a pt .aborted := by
  cases pt with
  | validate => exact ⟨.inl rfl, h.2⟩
  | find => exact ⟨.inl rfl, h.2⟩
  | orderId => exact ⟨.inl rfl, h.2⟩
  | now u => exact ⟨h.1, .inl rfl, h.2.2⟩
  | eventId u t => exact ⟨h.1, .inl rfl, h.2.2⟩
  | orderClock order event => exact ⟨h.1, .inl rfl, h.2.2⟩
  | insertOrder m event => exact ⟨h.1, .inl rfl, h.2.2⟩
  | eventClock created event =>
    obtain ⟨m, hm, hc, -, hn⟩ := h
    exact ⟨m, hm, hc, .inl rfl, hn⟩
  | insertEvent created event e =>
    obtain ⟨m, t, hm, hc, he, -, hn⟩ := h
    exact ⟨m, t, hm, hc, he, .inl rfl, hn⟩
  | commit created event =>
    obtain ⟨m, t, hm, hc, -, hn⟩ := h
    exact ⟨m, t, hm, hc, .inl rfl, hn⟩
  | rollback => exact ⟨h.1, .inl rfl, h.2.2⟩
  | refind => exact ⟨h.1, .inl rfl, h.2.2⟩
  | close r => exact ⟨h.1, .inl rfl⟩
  | done r => exact ⟨h.1, .inl rfl⟩

end Frame

/-! ## The invariant survives the request's own steps -/

section Step

variable [DecidableEq P] {db db' : Db P} {w : World P} {ws : List Write} {o : Op}
  {r : Except Exc (Op.Resp o)} {pt : CallPoint} {k : Except Exc (Op.Resp o) → CallPoint}
  {m : OrderModel} {event : OutboxEvent}

/-- A failed statement of the creation ends the request with its exception. -/
theorem CallInv.failed {tab : Tables} (hf : Failed db p db') (hs : (db.session p).Holds ws) :
    CallInv R tr tab p a (.insertError .databaseError) (db'.session p) := by
  refine ⟨nofun, ?_⟩
  rcases hf.holds hs with h | h
  · exact .inl h
  · cases hf with
    | aborted => rw [Store.abort_self]; exact .inl rfl
    | noConnection hn =>
      refine .inr ?_
      cases hx : db.session p with
      | active tx => exact absurd hx (hn tx)
      | _ => rfl

omit [DecidableEq P] in
theorem NotCommitted.exec {r : Except Exc (Op.Resp o)} (h : NotCommitted tr p) (ho : o ≠ .commit) :
    NotCommitted (.exec p o r :: tr) p :=
  h.cons fun _ he => ho (Event.exec.inj he).2.1

omit [DecidableEq P] in
theorem drawn_head (u : UUID) : Drawn (.exec p .uuid4 (.ok u) :: tr) p u := List.mem_cons_self

theorem findOrder_some {tab : Tables} {key : String} (h : tab.findOrder key = some m) :
    m ∈ tab.orders ∧ m.externalOrderId = key :=
  ⟨List.mem_of_find?_eq_some h, by simpa using List.find?_some h⟩

theorem findOrder_none {tab : Tables} {key : String} (h : tab.findOrder key = none) :
    ∀ m ∈ tab.orders, m.externalOrderId ≠ key := by
  intro m hm
  have := List.find?_eq_none.1 h m hm
  simpa using this

theorem mem_keys_iff {tab : Tables} {x : Lock} : x ∈ tab.keys ↔
    (∃ m ∈ tab.orders, x ∈ m.keys) ∨ ∃ e ∈ tab.outboxEvents, x ∈ e.keys := by
  simp [Tables.keys, List.mem_flatMap]

omit [DecidableEq P] in
/-- A key conflict of the order insert: the order is there, or its UUID collides. -/
theorem conflict_order {tab : Tables} {x : Lock} (hm : Made R tr p a m event) (hx : x ∈ m.keys)
    (hu : x ∈ tab.keys) : (∃ m ∈ tab.orders, m.externalOrderId = a.externalOrderId) ∨
    Collided tr tab p := by
  rcases mem_keys_iff.1 hu with ⟨m', hm', hx'⟩ | ⟨e, he, hx'⟩
  · simp only [OrderModel.keys, List.mem_cons, List.not_mem_nil, or_false] at hx hx'
    rcases hx with rfl | rfl
    · have hid : m.id = m'.id := by simpa using hx'
      exact .inr ⟨m.id, hm.orderDrawn, List.mem_append_left _ (List.mem_map.2 ⟨m', hm', hid.symm⟩)⟩
    · have hk : m.externalOrderId = m'.externalOrderId := by simpa using hx'
      exact .inl ⟨m', hm', by rw [← hk, hm.key]⟩
  · simp only [OrderModel.keys, OutboxEventModel.keys, List.mem_cons, List.not_mem_nil, or_false] at hx hx'
    rcases hx with rfl | rfl <;> cases hx'

/-- A key conflict of the event insert: another event has its UUID. -/
theorem conflict_event {tab : Tables} {x : Lock} {e : OutboxEventModel} (hx : x ∈ e.keys)
    (hu : x ∈ tab.keys) : e.id ∈ tab.outboxEvents.map OutboxEventModel.id := by
  simp only [OutboxEventModel.keys, List.mem_cons, List.not_mem_nil, or_false] at hx
  subst hx
  rcases mem_keys_iff.1 hu with ⟨m', -, hx'⟩ | ⟨e', he', hx'⟩
  · simp [OrderModel.keys] at hx'
  · have hid : e.id = e'.id := by simpa [OutboxEventModel.keys] using hx'
    exact List.mem_map.2 ⟨e', he', hid.symm⟩

/-- After the insert of the order, or after its conflict, which is with a committed row:
nothing is written yet. -/
theorem CallInv.insertOrder (hI : CallInv R tr db.committed p a (.insertOrder m event) (db.session p))
    (hn : (CallPoint.insertOrder m event).node a = .op o k) (hx : Exec db p o r db') :
    CallInv R (.exec p o r :: tr) db'.committed p a (k r) (db'.session p) := by
  cases hn
  obtain ⟨hm, hs, hnc⟩ := hI
  cases hx with
  | failed _ hf => exact CallInv.failed (R := R) hf hs
  | insertOrder _ hu => exact ⟨m, hm.cons _, rfl, holds_extend hs hu _ _, hnc.exec (by simp)⟩
  | insertOrderConflict _ hu x hx hused =>
    rw [view_of_nil hs] at hused
    refine ⟨(conflict_order hm hx hused).imp id fun hc => hc.mono (.refl _) _, ?_, hnc.exec (by simp)⟩
    rw [Store.abort_self]; exact .inl rfl

/-- After the insert of the event, or after its conflict: the open transaction has inserted
no event, so the other event is committed. -/
theorem CallInv.insertEvent {created : Order} {e : OutboxEventModel}
    (hI : CallInv R tr db.committed p a (.insertEvent created event e) (db.session p))
    (hn : (CallPoint.insertEvent created event e).node a = .op o k) (hx : Exec db p o r db') :
    CallInv R (.exec p o r :: tr) db'.committed p a (k r) (db'.session p) := by
  cases hn
  obtain ⟨m, t, hm, hc, he, hs, hnc⟩ := hI
  cases hx with
  | failed _ hf => exact CallInv.failed (R := R) hf hs
  | insertOutboxEvent _ hu =>
    subst he
    exact ⟨m, t, hm.cons _, hc, holds_extend hs hu _ _, hnc.exec (by simp)⟩
  | insertOutboxEventConflict _ hu x hx hused =>
    rw [view_of_holds hs hu] at hused
    have hd : Drawn tr p e.id := by rw [he]; exact hm.eventDrawn
    have hid := conflict_event hx hused
    have hcol : Collided tr db.committed p := ⟨e.id, hd, List.mem_append_right _ hid⟩
    refine ⟨.inr (hcol.mono (.refl _) _), ?_, hnc.exec (by simp)⟩
    rw [Store.abort_self]; exact .inl rfl

/-- After the commit: the order and its event become visible together. -/
theorem CallInv.commit {created : Order}
    (hI : CallInv R tr db.committed p a (.commit created event) (db.session p))
    (hn : (CallPoint.commit created event).node a = .op o k) (hx : Exec db p o r db') :
    CallInv R (.exec p o r :: tr) db'.committed p a (k r) (db'.session p) := by
  cases hn
  obtain ⟨m, t, hm, hc, hs, -⟩ := hI
  cases hx with
  | failed hst => cases hst
  | commit hu =>
    refine ⟨⟨m, ?_, hm.key, hc, fun _ => hm.orderDrawn.cons _⟩, ?_⟩
    · rw [Store.commit_committed, view_of_holds hs hu]; simp [Tables.apply]
    · rw [Store.commit_self]; exact .inr rfl
  | commitFailed => exact ⟨nofun, by rw [Store.abort_self]; exact .inl rfl⟩
  | commitLost => exact ⟨nofun, by rw [Store.commitLost_self]; exact .inl rfl⟩

/-- After the second lookup: if no order has the key, the conflict was one of UUIDs. -/
theorem CallInv.refind (hI : CallInv R tr db.committed p a .refind (db.session p))
    (hn : CallPoint.refind.node a = .op o k) (hx : Exec db p o r db') :
    CallInv R (.exec p o r :: tr) db'.committed p a (k r) (db'.session p) := by
  cases hn
  obtain ⟨hr, hs, hnc⟩ := hI
  cases hx with
  | failed _ hf => exact CallInv.failed (R := R) hf hs
  | selectOrder _ hu =>
    rw [view_of_nil hs]
    cases hfind : db.committed.findOrder a.externalOrderId with
    | none =>
      refine ⟨fun key _ => ⟨?_, hnc.exec (by simp)⟩, holds_read hs hu []⟩
      rcases hr with ⟨m, hm, hk⟩ | hcol
      · exact absurd hk (findOrder_none hfind m hm)
      · exact hcol.mono (.refl _) _
    | some m =>
      obtain ⟨hm, hk⟩ := findOrder_some hfind
      exact ⟨⟨m, hm, hk, rfl, nofun⟩, holds_read hs hu []⟩

/-- **A request's own step keeps its invariant.** -/
theorem CallInv.step (hI : CallInv R tr w.db.committed p a pt (w.db.session p))
    (hok : ClockOk R w (.exec p o r)) (hp : w.procs p = .call a pt) (hn : pt.node a = .op o k)
    (hx : Exec w.db p o r db') :
    CallInv R (.exec p o r :: tr) db'.committed p a (k r) (db'.session p) := by
  cases pt with
  | validate =>
    cases hn
    cases hx with
    | failed hst => cases hst
    | get _ _ outcome =>
      obtain ⟨hs, hnc⟩ := hI
      cases hc : a.client.classify a.requesterId (httpGet (RequesterClient.path a.requesterId) outcome) with
      | ok b => simp only [hc]; exact ⟨hs, hnc.exec (by simp)⟩
      | error e =>
        simp only [hc]
        refine ⟨fun key he => ?_, hs⟩
        subst he
        exact absurd (classify_duplicate hc) (httpGet_not_duplicate _ _)
  | find =>
    cases hn
    obtain ⟨hs, hnc⟩ := hI
    cases hx with
    | failed _ hf => exact CallInv.failed (R := R) hf hs
    | selectOrder _ hu =>
      rw [view_of_nil hs]
      cases hfind : w.db.committed.findOrder a.externalOrderId with
      | none => exact ⟨holds_read hs hu [], hnc.exec (by simp)⟩
      | some m =>
        obtain ⟨hm, hk⟩ := findOrder_some hfind
        exact ⟨⟨m, hm, hk, rfl, nofun⟩, holds_read hs hu []⟩
  | orderId =>
    cases hn
    obtain ⟨hs, hnc⟩ := hI
    cases hx with
    | failed hst => cases hst
    | uuid4 u => exact ⟨drawn_head u, hs, hnc.exec (by simp)⟩
  | now u =>
    cases hn
    obtain ⟨hd, hs, hnc⟩ := hI
    cases hx with
    | failed hst => cases hst
    | now t => exact ⟨hd.cons _, hs, hnc.exec (by simp)⟩
  | eventId u t =>
    cases hn
    obtain ⟨hd, hs, hnc⟩ := hI
    cases hx with
    | failed hst => cases hst
    | uuid4 v => exact ⟨⟨u, t, v, hd.cons _, drawn_head v, rfl, rfl⟩, hs, hnc.exec (by simp)⟩
  | orderClock order event =>
    cases hn
    obtain ⟨⟨u, t, v, hu, hv, ho, he⟩, hs, hnc⟩ := hI
    cases hx with
    | failed hst => cases hst
    | now t' =>
      -- the reading that becomes the row's `created_at`; the order's own is not used
      have hR : R t t' := by
        have := hok p a order event t' hp rfl
        rwa [ho] at this
      subst ho he
      refine ⟨⟨hu.cons _, hv.cons _, rfl, rfl, fun _ => ⟨rfl, a.correlationId, t, hR, rfl⟩⟩, hs, ?_⟩
      exact hnc.exec (by simp)
  | insertOrder m event => exact hI.insertOrder hn hx
  | eventClock created event =>
    cases hn
    obtain ⟨m, hm, hc, hs, hnc⟩ := hI
    cases hx with
    | failed hst => cases hst
    | now t => exact ⟨m, t, hm.cons _, hc, rfl, hs, hnc.exec (by simp)⟩
  | insertEvent created event e => exact hI.insertEvent hn hx
  | commit created event => exact hI.commit hn hx
  | rollback =>
    cases hn
    obtain ⟨hr, hs, hnc⟩ := hI
    cases hx with
    | failed hst => cases hst
    | rollback =>
      refine ⟨hr.imp id fun hc => hc.mono (.refl _) _, ?_, hnc.exec (by simp)⟩
      rw [Store.rollback_self]; exact .inr rfl
    | rollbackFailed => exact ⟨nofun, by rw [Store.abort_self]; exact .inl rfl⟩
  | refind => exact hI.refind hn hx
  | close res =>
    cases hn
    cases hx with
    | failed hst => cases hst
    | close =>
      refine ⟨hI.1.mono (.refl _) (fun _ he => by cases he), ?_⟩
      rw [Store.rollback_self]; exact .inr rfl
  | done res =>
    cases res <;> cases hn

end Step

section Reach

variable [DecidableEq P] {t : ValidTables} {role : P → Role} {w : World P} {pt : CallPoint}

/-- **The invariant of requests**, in the runs whose clock readings are related by `R`. -/
theorem callInv_of_run (h : Run (Guarded Step (ClockOk R)) (World.init t role) tr w)
    (hp : w.procs p = .call a pt) : CallInv R tr w.db.committed p a pt (w.db.session p) := by
  refine Reached.local (Φ := fun tr tab p x s => ∀ a pt, x = .call a pt → CallInv R tr tab p a pt s)
    ?_ ?_ ?_ ?_ ?_ h p a pt hp
  · intro p a pt he
    cases hr : role p with
    | call a' => rw [hr] at he; cases he; exact ⟨.inr rfl, fun _ => List.not_mem_nil⟩
    | worker W polls => rw [hr] at he; cases he
  · intro tr tab tab' p x s l hl hext hI a pt he
    exact (hI a pt he).other hext fun r => hl _ r
  · intro tr tab p x tx hI a pt he
    exact (hI a pt he).aborted
  · intro tr w p a pt o k r db' _ hok hp hn hx hI a' pt' he
    cases he
    exact (hI a pt rfl).step hok hp hn hx
  · intro tr w p W pt o k r db' _ _ _ _ _ _ a' pt' he
    cases he

/-- In any run nothing is known of the clock. -/
theorem Reached.anyClock (h : Reached t role tr w) :
    Run (Guarded Step (ClockOk fun _ _ => True)) (World.init t role) tr w :=
  h.mono fun _ _ _ hs => ⟨hs, fun _ _ _ _ _ _ _ => trivial⟩

/-- The invariant of requests in any run. -/
theorem Reached.callInv (h : Reached t role tr w) (hp : w.procs p = .call a pt) :
    CallInv (fun _ _ => True) tr w.db.committed p a pt (w.db.session p) :=
  callInv_of_run h.anyClock hp

end Reach

end OrdersApi
