import OrdersApi.Proof.Delivery
import OrdersApi.Spec.Message

/-!
# What is stored and sent is what was requested

Every committed order and its event carry the arguments of one request
(`rows_requested`), and every message handed to SQS reads as these arguments, whatever
characters they have (`messages_readable`). JSONB orders the keys of a payload anew, so
this is said of the payload's entries in any order.
-/

namespace OrdersApi

open TxStore Trace Pairing

variable {P : Type} {tr : List (Event P)} {p : P} {w w' : World P} {l : Event P} {a : CallArgs}
  {pt : CallPoint}
  {m : OrderModel} {event : OutboxEvent} {s : Session Write Lock}

/-! ## Rows -/

/-- What a request has built at a control point, and written to its session `s`. -/
def Asks (a : CallArgs) (pt : CallPoint) (s : Session Write Lock) : Prop :=
  match pt with
  | .orderClock order event => ∃ u t v, order = OrderService.newOrder a u t ∧
      event = OrderService.newEvent a u t v
  | .insertOrder m event => OrderOf a m ∧ ∃ t, event = OrderService.newEvent a m.id t event.id
  | .eventClock _ event => ∃ m t, OrderOf a m ∧ event = OrderService.newEvent a m.id t event.id ∧
      s.Holds [.insertOrder m]
  | .insertEvent _ event e => ∃ m t, OrderOf a m ∧ event = OrderService.newEvent a m.id t event.id ∧
      (∃ t', e = event.row t') ∧ s.Holds [.insertOrder m]
  | .commit _ event => ∃ m t t', OrderOf a m ∧ event = OrderService.newEvent a m.id t event.id ∧
      s.Holds [.insertOrder m, .insertOutboxEvent (event.row t')]
  | _ => True

theorem asks_insertError (e : Exc) : Asks a (.insertError e) s := by
  unfold CallPoint.insertError
  split <;> trivial

theorem Asks.aborted {tx : Tx Write Lock} (h : Asks a pt (.active tx)) : Asks a pt .aborted := by
  cases pt with
  | eventClock created event =>
    obtain ⟨m, t, hm, he, -⟩ := h
    exact ⟨m, t, hm, he, .inl rfl⟩
  | insertEvent created event e =>
    obtain ⟨m, t, hm, he, ht, -⟩ := h
    exact ⟨m, t, hm, he, ht, .inl rfl⟩
  | commit created event =>
    obtain ⟨m, t, t', hm, he, -⟩ := h
    exact ⟨m, t, t', hm, he, .inl rfl⟩
  | _ => exact h

variable [DecidableEq P] {db db' : Db P} {o : Op} {k : Except Exc (Op.Resp o) → CallPoint}
  {r : Except Exc (Op.Resp o)}
  {role : P → Role}

/-- **A request builds and writes what it is asked for.** -/
theorem Asks.step {R : DateTime → DateTime → Prop} {tab : Tables} (hA : Asks a pt (db.session p))
    (hI : CallInv R tr tab p a pt (db.session p)) (hn : pt.node a = .op o k) (hx : Exec db p o r db') :
    Asks a (k r) (db'.session p) := by
  cases pt with
  | validate =>
    cases hn
    simp only
    split <;> trivial
  | find | refind =>
    cases hn
    rcases r with e | _ | m <;> trivial
  | orderId | now =>
    cases hn
    rcases r with e | u
    · exact asks_insertError e
    · trivial
  | eventId u t =>
    cases hn
    rcases r with e | v
    · exact asks_insertError e
    · exact ⟨u, t, v, rfl, rfl⟩
  | orderClock order event =>
    cases hn
    obtain ⟨u, t, v, rfl, rfl⟩ := hA
    rcases r with e | t'
    · exact asks_insertError e
    · exact ⟨rfl, t, rfl⟩
  | insertOrder m event =>
    cases hn
    obtain ⟨hm, t, he⟩ := hA
    cases hx with
    | insertOrder _ hu => exact ⟨m, t, hm, he, holds_extend hI.2.1 hu _ _⟩
    | _ => exact asks_insertError _
  | eventClock created event =>
    cases hn
    obtain ⟨m, t, hm, he, hs⟩ := hA
    cases hx with
    | failed hst => cases hst
    | now t' => exact ⟨m, t, hm, he, ⟨t', rfl⟩, hs⟩
  | insertEvent created event e =>
    cases hn
    obtain ⟨m, t, hm, he, ⟨t', rfl⟩, hs⟩ := hA
    cases hx with
    | insertOutboxEvent _ hu => exact ⟨m, t, t', hm, he, holds_extend hs hu _ _⟩
    | _ => exact asks_insertError _
  | commit created event =>
    cases hn
    rcases r with e | u
    · exact asks_insertError e
    · trivial
  | rollback | close =>
    cases hn
    rcases r with e | u <;> trivial
  | done result => rcases result with e | v <;> cases hn

variable {t : ValidTables}

theorem Reached.asks (h : Reached t role tr w) (hp : w.procs p = .call a pt) :
    Asks a pt (w.db.session p) := by
  refine Reached.of_call (Φ := Asks) (fun _ => trivial) (fun hI => hI.aborted) ?_ h hp
  intro _ _ _ _ _ _ _ _ _ hreach hp hn hx hI
  exact hI.step (hreach.callInv hp) hn hx

/-- The rows of the tables come in pairs, each requested by a party. -/
def RowsOf (role : P → Role) (tab : Tables) : Prop :=
  List.Forall₂ (fun m e => ∃ p a, role p = .call a ∧ Requested a m e) tab.orders tab.outboxEvents

omit [DecidableEq P] in
theorem RowsOf.setStatus {tab : Tables} (h : RowsOf role tab) (e : UUID) (status : OutboxStatus) :
    RowsOf role (tab.apply (.setStatus e status)) := by
  refine List.forall₂_map_right_iff.2 (h.imp ?_)
  rintro m row ⟨p, a, hr, ho, hev, now, hp⟩
  unfold OutboxEventModel.setStatus
  split <;> exact ⟨p, a, hr, ho, hev, now, hp⟩

theorem Reached.rowsOf (h : Reached .empty role tr w) : RowsOf role w.db.committed := by
  have hempty : RowsOf role ({} : Tables) := List.Forall₂.nil
  refine Run.invariant (I := fun _ w => RowsOf role w.db.committed) hempty ?_ h
  intro tr w l w' hrun hI hs
  cases hs with
  | @call p a pt o k r db' _ hp hn hx =>
    obtain he | ⟨rfl, hu, hv⟩ := hx.committed
    · show RowsOf role db'.committed
      rw [he]
      exact hI
    -- a request that commits has written its order and its event
    have hA := Reached.asks hrun hp
    cases pt with
    | commit created event =>
      obtain ⟨m, t, t', hm, he, hs⟩ := hA
      have htab : db'.committed = ⟨w.db.committed.orders ++ [m], w.db.committed.outboxEvents ++ [event.row t']⟩ := by
        rw [hv, view_of_holds hs hu]
        rfl
      show RowsOf role db'.committed
      rw [htab]
      refine List.rel_append hI (.cons ⟨p, a, Reached.call_role hrun hp, hm, ?_, t, ?_⟩ .nil)
      · rw [he]; rfl
      · rw [he]; rfl
    | done res => rcases res with e | v <;> cases hn
    | _ => cases hn
  | @worker p W pt o k r db' _ hp hn hx =>
    obtain he | ⟨rfl, hu, hv⟩ := hx.committed
    · show RowsOf role db'.committed
      rw [he]
      exact hI
    have hview := view_of_holds (Reached.workerInv hrun hp).session hu
    show RowsOf role db'.committed
    rw [hv, hview]
    cases pt with
    | commit job attempt later => exact hI.setStatus _ _
    | commitFailed job => exact hI.setStatus _ _
    | _ => exact hI
  | die p => exact hI
  | abort p => exact hI

/-! ## Messages -/

omit [DecidableEq P] in
/-- The message of an event reads as what the request asked for, however the entries of its
payload are ordered. -/
theorem readMessage_payload (a : CallArgs) (u : UUID) (now : DateTime) (v : UUID) {payload : Payload}
    (hperm : payload.Perm (OrderService.newEvent a u now v).payload) :
    readMessage (Json.dumps payload) = some (a.message u now) := by
  have hnodup : ["event_type", "order_id", "external_order_id", "requester_id", "correlation_id", "created_at"].Nodup := by
    decide
  have hkeys : (payload.map Prod.fst).Nodup := (hperm.map Prod.fst).nodup_iff.2 hnodup
  have htext : ∀ entry ∈ (OrderService.newEvent a u now v).payload,
      (Json.Value.obj (payload.map fun e => (e.1, .str e.2))).text entry.1 = some entry.2 :=
    fun entry hentry => Json.text_of_mem hkeys (hperm.mem_iff.2 hentry)
  simp only [OrderService.newEvent, List.forall_mem_cons] at htext
  obtain ⟨htype, horder, hexternal, hrequester, hcorrelation, hcreated, -⟩ := htext
  unfold readMessage
  rw [Json.loads_dumps hkeys]
  simp only [Option.bind_eq_bind, Option.bind_some, htype, horder, hexternal, hrequester, hcorrelation, hcreated]
  rfl

/-- **Rows are what was requested.** Orders and events come in pairs, and each pair has the
arguments of a request. -/
theorem rows_requested (h : Reached .empty role tr w) :
    List.Forall₂ (fun m e => ∃ p a, role p = .call a ∧ Requested a m e)
      w.db.committed.orders w.db.committed.outboxEvents :=
  h.rowsOf

theorem rows_requested_sample : ∃ tr w, Reached .empty sampleRole tr w ∧
    w.db.committed.orders.length = 1 ∧
    List.Forall₂ (fun m e => ∃ p a, sampleRole p = .call a ∧ Requested a m e)
      w.db.committed.orders w.db.committed.outboxEvents := by
  obtain ⟨tr, w, m, h, hc, -⟩ := sample_delivered
  exact ⟨tr, w, h, by rw [hc]; rfl, rows_requested h⟩

/-- A message handed to SQS, the order that it announces and the request behind both. -/
theorem Reached.handed_requested (h : Reached .empty role tr w) {body : String}
    (hsent : Handed tr event body) :
    body = Json.dumps event.payload ∧ ∃ p a m now eventId, role p = .call a ∧
    m ∈ w.db.committed.orders ∧
      OrderOf a m ∧ event.payload = (OrderService.newEvent a m.id now eventId).payload := by
  obtain ⟨p, r, hmem, -⟩ := hsent
  obtain ⟨m₀, hmessage⟩ := h.handed_message hmem
  obtain ⟨e, he, -, hpayload, -⟩ := hmessage.row
  obtain ⟨m, hm, q, a, hr, hrow, -, now, hbuilt⟩ := exists_left h.rowsOf he
  exact ⟨hmessage.body, q, a, m, now, e.id, hr, hm, hrow, hpayload.symm.trans hbuilt⟩

/-- **Messages read as what was requested.** Every message handed to SQS is read as the
message of a committed order, with the arguments of the request that the order was created
for, in whatever order the database keeps the entries of the payload. -/
theorem messages_readable (h : Reached .empty role tr w) {body : String}
    (hsent : Handed tr event body) :
    body = Json.dumps event.payload ∧
    ∃ p a m now, role p = .call a ∧ m ∈ w.db.committed.orders ∧ OrderOf a m ∧
      ∀ payload, payload.Perm event.payload →
      readMessage (Json.dumps payload) = some (a.message m.id now) := by
  obtain ⟨hbody, p, a, m, now, eventId, hr, hm, hrow, hpayload⟩ := h.handed_requested hsent
  refine ⟨hbody, p, a, m, now, hr, hm, hrow, fun payload hperm => ?_⟩
  rw [hpayload] at hperm
  exact readMessage_payload a m.id now eventId hperm

theorem messages_readable_sample : ∃ tr w body, Reached .empty sampleRole tr w ∧
    Handed tr (sampleRow (sampleTime 0)).toEntity body ∧
    body = Json.dumps (sampleRow (sampleTime 0)).payload ∧
    ∃ p a m now, sampleRole p = .call a ∧ m ∈ w.db.committed.orders ∧ OrderOf a m ∧
      ∀ payload, payload.Perm (sampleRow (sampleTime 0)).payload →
        readMessage (Json.dumps payload) = some (a.message m.id now) := by
  obtain ⟨tr, w, -, h, -, hsent⟩ := sample_delivered
  exact ⟨tr, w, _, h, hsent, messages_readable h hsent⟩

end OrdersApi
