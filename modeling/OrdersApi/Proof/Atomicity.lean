import OrdersApi.Lib.Pairing
import OrdersApi.Proof.Commits

/-!
# Orders and their events

In every reachable state the orders and the events of the committed tables are
related row by row (`Paired`). With the unique keys this is a one-to-one
correspondence, and the payloads describe the orders as far as the clock readings of
the two sides agree.
-/

namespace OrdersApi

open TxStore Trace Pairing

variable {P : Type} {tr : List (Event P)} {tab : Tables} {R : DateTime → DateTime → Prop}
  {m m' : OrderModel}
  {e e' : OutboxEventModel}

/-! ## Unique columns -/

/-- A column of which every row locks the value has distinct values. -/
theorem column_nodup {γ κ : Type} {keys : γ → List Lock} {column : γ → κ} (lock : κ → Lock)
    (hlock : ∀ x, lock (column x) ∈ keys x) {rows : List γ} (h : (rows.flatMap keys).Nodup) :
    (rows.map column).Nodup := by
  refine List.pairwise_map.2 ((List.nodup_flatMap.1 h).2.imp ?_)
  intro x y hdisj he
  exact hdisj (hlock x) (he ▸ hlock y)

namespace Tables

variable (h : tab.keys.Nodup)
include h

theorem orderIds_nodup : (tab.orders.map OrderModel.id).Nodup :=
  column_nodup .orderId (fun m => by simp [OrderModel.keys]) (List.nodup_append'.1 h).1

theorem externalOrderIds_nodup : (tab.orders.map OrderModel.externalOrderId).Nodup :=
  column_nodup .externalOrderId (fun m => by simp [OrderModel.keys]) (List.nodup_append'.1 h).1

theorem eventIds_nodup : (tab.outboxEvents.map OutboxEventModel.id).Nodup :=
  column_nodup .eventId (fun e => by simp [OutboxEventModel.keys]) (List.nodup_append'.1 h).2.1

theorem order_of_id (hm : m ∈ tab.orders) (hm' : m' ∈ tab.orders) (he : m.id = m'.id) : m = m' :=
  List.inj_on_of_nodup_map (orderIds_nodup h) hm hm' he

theorem order_of_externalOrderId (hm : m ∈ tab.orders) (hm' : m' ∈ tab.orders)
    (he : m.externalOrderId = m'.externalOrderId) : m = m' :=
  List.inj_on_of_nodup_map (externalOrderIds_nodup h) hm hm' he

theorem event_of_id (hm : e ∈ tab.outboxEvents) (hm' : e' ∈ tab.outboxEvents)
    (he : e.id = e'.id) : e = e' :=
  List.inj_on_of_nodup_map (eventIds_nodup h) hm hm' he

end Tables

/-! ## The rows in pairs -/

/-- The tables hold each order with its event, in the order in which they were committed. -/
def Paired (R : DateTime → DateTime → Prop) (tab : Tables) : Prop :=
  List.Forall₂ (Matches R) tab.orders tab.outboxEvents

@[simp] theorem matches_setStatus {id : UUID} {status : OutboxStatus} :
    Matches R m (e.setStatus id status) ↔ Matches R m e := by
  unfold OutboxEventModel.setStatus; split <;> exact Iff.rfl

theorem Paired.setStatus (h : Paired R tab) (id : UUID) (status : OutboxStatus) :
    Paired R (tab.apply (.setStatus id status)) :=
  List.forall₂_map_right_iff.2 (h.imp fun _ _ hm => matches_setStatus.2 hm)

theorem Paired.append (h : Paired R tab) (hm : Matches R m e) :
    Paired R ⟨tab.orders ++ [m], tab.outboxEvents ++ [e]⟩ :=
  List.rel_append h (.cons hm .nil)

/-- The event that was written for an order announces it, and no other order's. -/
theorem Matches.eventOf (h : Matches R m e) : EventOf m e := by
  obtain ⟨ht, c, now, -, hp⟩ := h
  rw [EventOf, hp]
  exact ⟨ht, rfl, rfl⟩

theorem Matches.orderId (h : Matches R m e) : e.payload.get "order_id" = some m.id.str := h.eventOf.2.1

theorem EventOf.id_eq (h : EventOf m e) (h' : EventOf m' e) : m.id = m'.id :=
  UUID.str_injective (Option.some.inj (h.2.1.symm.trans h'.2.1))

theorem Matches.describes (h : Matches (· = ·) m e) : Describes e m.toEntity := by
  obtain ⟨-, c, now, rfl, hp⟩ := h
  constructor <;> rw [hp] <;> rfl

/-! ## A request that runs alone -/

def sampleCall : CallArgs where
  client := ⟨"http://requester-service:8080", "3.0"⟩
  externalOrderId := "ORD-2024-001"
  requesterId := "REQ-001"
  description := "Preventive maintenance on equipment X"
  correlationId := "unknown"

/-- A UUID of version 4. -/
def sampleUuid (n : ℕ) : UUID := ⟨BitVec.ofNat 128 (0x40008000000000000000 + n)⟩

/-- A second of 2024-01-01 00:00. -/
def sampleTime (second : ℕ) : DateTime :=
  ⟨2024, 1, 1, 0, 0, second % 60, 0, by decide, by decide, by decide, by decide, by decide,
    Nat.mod_lt _ (by decide), by decide⟩

/-- One request and one worker. -/
def sampleRole : Bool → Role
  | true => .call sampleCall
  | false => .worker ⟨10, 5⟩ 1

/-- The event of the request, as it is inserted when the clock shows `t`. -/
def sampleRow (t : DateTime) : OutboxEventModel :=
  (OrderService.newEvent sampleCall (sampleUuid 0) (sampleTime 0) (sampleUuid 1)).row t

/-- With two parties, no lock is held when the other one holds none. -/
theorem free_of_other {db : Db Bool} {p : Bool} (h : (db.session !p).locks = []) (k : Lock) :
    db.Free p k := by
  intro q hq
  rw [Bool.eq_not_of_ne hq, h]
  exact List.not_mem_nil

theorem clockOk_of_reading {w : World P} {l : Event P} (h : l.reading = none) : ClockOk R w l := by
  rintro p a order event t - rfl
  cases h

/-- The service reads the clock at `sampleTime 0`, and the repositories at `t`. -/
theorem sample_run {t : DateTime} (hR : R (sampleTime 0) t) : ∃ tr w m,
    Run (Guarded Step (ClockOk R)) (World.init .empty sampleRole) tr w ∧
    w.db = ⟨⟨[m], [sampleRow t]⟩, fun _ => .idle⟩ ∧ w.alive = (fun _ => True) ∧
    w.procs false = .worker ⟨10, 5⟩ (.fetch 0) ∧ tr.filterMap Event.reading = [t, t, sampleTime 0] ∧
    EventOf m (sampleRow t) ∧ m.createdAt = t := by
  have h0 : Run (Guarded Step (ClockOk R)) (World.init .empty sampleRole) [] _ := .init
  have h1 := h0.step ⟨.call (p := true) trivial rfl rfl (.get _ _ (.ok ⟨200, ""⟩)), clockOk_of_reading rfl⟩
  have h2 := h1.step ⟨.call (p := true) trivial rfl rfl (.selectOrder _ trivial), clockOk_of_reading rfl⟩
  have h3 := h2.step ⟨.call (p := true) trivial rfl rfl (.uuid4 (sampleUuid 0)), clockOk_of_reading rfl⟩
  have h4 := h3.step ⟨.call (p := true) trivial rfl rfl (.now (sampleTime 0)),
    by rintro p a order event t hp ⟨⟩; cases hp⟩
  have h5 := h4.step ⟨.call (p := true) trivial rfl rfl (.uuid4 (sampleUuid 1)), clockOk_of_reading rfl⟩
  -- the reading of `OrderRepository.create`, the only one that the guard is about
  have h6 := h5.step ⟨.call (p := true) trivial rfl rfl (.now t),
    by rintro p a order event t hp ⟨⟩; cases hp; exact hR⟩
  have h7 := h6.step ⟨.call (p := true) trivial rfl rfl (.insertOrder _ trivial
    (fun k _ => free_of_other rfl k)
    fun _ _ => List.not_mem_nil), clockOk_of_reading rfl⟩
  have h8 := h7.step ⟨.call (p := true) trivial rfl rfl (.now t),
    by rintro p a order event t hp ⟨⟩; cases hp⟩
  have h9 := h8.step ⟨.call (p := true) trivial rfl rfl (.insertOutboxEvent _ trivial
    (fun k _ => free_of_other rfl k)
    (by rintro k (_ | ⟨_, ⟨⟩⟩) (_ | ⟨_, _ | ⟨_, ⟨⟩⟩⟩))), clockOk_of_reading rfl⟩
  have h10 := h9.step ⟨.call (p := true) trivial rfl rfl (.commit trivial), clockOk_of_reading rfl⟩
  have h11 := h10.step ⟨.call (p := true) trivial rfl rfl .close, clockOk_of_reading rfl⟩
  refine ⟨_, _, _, h11, congrArg (Store.mk _) ?_, rfl, rfl, rfl, ⟨rfl, rfl, rfl⟩, rfl⟩
  funext p
  cases p <;> rfl

section Reach

variable [DecidableEq P] {role : P → Role} {w : World P}

/-- **Every order is committed with its event**, whatever else happens in the run. -/
theorem paired_of_run (h : Run (Guarded Step (ClockOk R)) (World.init .empty role) tr w) :
    Paired R w.db.committed := by
  refine h.invariant (I := fun _ w => Paired R w.db.committed) ?_ ?_
  · exact List.Forall₂.nil
  · rintro tr w l w' hrun hI ⟨hs, -⟩
    cases commits_of_run hrun hs with
    | same ht => rw [ht]; exact hI
    | created p a m event t r _ _ hm ht => rw [ht]; exact hI.append (hm.built t)
    | settled p W pt e status r _ _ _ _ _ ht => rw [ht]; exact hI.setStatus e status

theorem Reached.paired (h : Reached .empty role tr w) : Paired (fun _ _ => True) w.db.committed :=
  paired_of_run h.anyClock

theorem Reached.keys_nodup {t : ValidTables} (h : Reached t role tr w) : w.db.committed.keys.Nodup :=
  h.consistent.unique

theorem Reached.oneToOne (h : Reached .empty role tr w) :
    OneToOne EventOf w.db.committed.orders w.db.committed.outboxEvents := by
  have hpair : List.Forall₂ EventOf w.db.committed.orders w.db.committed.outboxEvents :=
    h.paired.imp fun _ _ hm => hm.eventOf
  refine oneToOne_of_forall₂ hpair ((List.pairwise_map.1 (Tables.orderIds_nodup h.keys_nodup)).imp ?_)
  intro m m' hne e he he'
  exact hne (he.id_eq he')

/-- **Transactional outbox.** Orders and events correspond one to one, and no two orders
share an `external_order_id`. -/
theorem outbox_atomicity (h : Reached .empty role tr w) :
    OneToOne EventOf w.db.committed.orders w.db.committed.outboxEvents ∧
      (w.db.committed.orders.map OrderModel.externalOrderId).Nodup :=
  ⟨h.oneToOne, Tables.externalOrderIds_nodup h.keys_nodup⟩

theorem outbox_atomicity_sample : ∃ tr w, Reached .empty sampleRole tr w ∧
    w.db.committed.orders.length = 1 ∧
    OneToOne EventOf w.db.committed.orders w.db.committed.outboxEvents ∧
      (w.db.committed.orders.map OrderModel.externalOrderId).Nodup := by
  obtain ⟨tr, w, m, h, hdb, -⟩ := sample_run (R := (· = ·)) rfl
  exact ⟨tr, w, h.forget, by rw [hdb]; rfl, outbox_atomicity h.forget⟩

/-- **The event describes the stored order**, when the two clock readings agree. -/
theorem event_describes_order (h : Run (Guarded Step (ClockOk (· = ·))) (World.init .empty role) tr w) :
    (∀ m ∈ w.db.committed.orders, ∃ e ∈ w.db.committed.outboxEvents, Describes e m.toEntity) ∧
      ∀ m ∈ w.db.committed.orders, ∀ e ∈ w.db.committed.outboxEvents,
        e.payload.get "order_id" = some m.id.str → Describes e m.toEntity := by
  have hpair := paired_of_run h
  refine ⟨fun m hm => ?_, fun m hm e he hid => ?_⟩
  · obtain ⟨e, he, hme⟩ := exists_right hpair hm
    exact ⟨e, he, hme.describes⟩
  · obtain ⟨m', hm', hme⟩ := exists_left hpair he
    have hids : m.id = m'.id := UUID.str_injective (Option.some.inj (hid.symm.trans hme.orderId))
    rw [Tables.order_of_id (Reached.keys_nodup h.forget) hm hm' hids]
    exact hme.describes

theorem event_describes_order_sample : ∃ tr w m, Reached .empty sampleRole tr w ∧
    w.db.committed.orders = [m] ∧ ∃ e ∈ w.db.committed.outboxEvents, Describes e m.toEntity := by
  obtain ⟨tr, w, m, h, hdb, -⟩ := sample_run (R := (· = ·)) rfl
  exact ⟨tr, w, m, h.forget, by rw [hdb], (event_describes_order h).1 m (by rw [hdb]; exact .head _)⟩

/-- A clock that moves on between the two readings leaves the event with another
`created_at` than its order. -/
theorem event_describes_other_time : ∃ tr w m e, Reached .empty sampleRole tr w ∧ ClockMonotone tr ∧
    w.db.committed = ⟨[m], [e]⟩ ∧ EventOf m e ∧ ¬ Describes e m.toEntity := by
  obtain ⟨tr, w, m, h, hdb, -, -, hr, hev, hm⟩ :=
    sample_run (R := fun _ _ => True) (t := sampleTime 1) trivial
  refine ⟨tr, w, m, _, h.forget, by unfold ClockMonotone; rw [hr]; decide, by rw [hdb], hev, fun hd => ?_⟩
  have hiso := Option.some.inj hd.createdAt
  rw [show m.toEntity.createdAt = sampleTime 1 from hm] at hiso
  exact absurd hiso (by decide)

end Reach

end OrdersApi
