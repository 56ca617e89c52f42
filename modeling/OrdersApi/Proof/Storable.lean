import OrdersApi.Lib.Total
import OrdersApi.Proof.Commits
import OrdersApi.Spec.Columns

/-!
# What the schema accepts and what the tables store

A validated request fits the columns of both tables, but for the character U+0000 in its
strings (`order_accepted`, `event_accepted`). So `create_order` commits the order and its
event if and only if the strings have none (`validated_stored`).
-/

namespace OrdersApi

open TxStore Effect Text

/-! ## Values -/

theorem storable_ofList {l : List Char} (h : Char.ofNat 0 ∉ l) :
    storable (String.ofList l) = true := by
  simpa [storable] using h

theorem storable_str (u : UUID) : storable u.str = true := by
  refine storable_ofList fun hmem => ?_
  have hnum : Char.ofNat 0 ∉ numeral 16 32 u.bits.toNat :=
    not_mem_numeral (by omega) le_rfl (by decide)
  have htake : ∀ i k, Char.ofNat 0 ∉ ((numeral 16 32 u.bits.toNat).drop i).take k := fun i k hin =>
    hnum (List.drop_subset i _ (List.take_subset k _ hin))
  have hdash : Char.ofNat 0 ≠ '-' := by decide
  have h0 := htake 0 8
  rw [List.drop_zero] at h0
  simp only [List.mem_append, List.mem_cons, h0, htake, hdash, false_or] at hmem
  exact hnum (List.drop_subset 20 _ hmem)

theorem storable_isoformat (t : DateTime) : storable t.isoformat = true := by
  refine storable_ofList fun hmem => ?_
  have hnum : ∀ k n, Char.ofNat 0 ∉ numeral 10 k n :=
    fun k n => not_mem_numeral (by omega) (by omega) (by decide)
  have hchars : Char.ofNat 0 ≠ '-' ∧ Char.ofNat 0 ≠ 'T' ∧ Char.ofNat 0 ≠ ':' ∧
      Char.ofNat 0 ≠ '.' := by decide
  simp only [List.mem_append, List.mem_cons, hnum, hchars, false_or] at hmem
  rcases hmem with hfraction | hzone
  · split at hfraction
    · cases hfraction
    · simp [hnum, hchars] at hfraction
  · exact absurd hzone (by decide)

/-- A URL with the character U+0000 is not requested. -/
theorem storable_of_printable {requesterId : String}
    (h : printableUrl (RequesterClient.path requesterId) = true) : storable requesterId = true := by
  unfold storable
  rw [Bool.not_eq_true', ← Bool.not_eq_true, List.contains_iff_mem]
  intro hmem
  have hpath : Char.ofNat 0 ∈ (RequesterClient.path requesterId).toList := by
    unfold RequesterClient.path
    rw [String.toList_append]
    exact List.mem_append_right _ hmem
  have := List.all_eq_true.1 h _ hpath
  exact absurd this (by decide)

section Values

variable {a : CallArgs} {orderId eventId : UUID} {now t : DateTime}

/-- **The row of a validated request fits `orders`** when its strings do. -/
theorem order_accepted (hkey : a.externalOrderId.length ≤ 255)
    (hrequester : a.requesterId.length ≤ 255)
    (hstorable : storable a.externalOrderId = true) (hstorable' : storable a.requesterId = true) :
    (Op.insertOrder
      ⟨orderId, a.externalOrderId, a.requesterId, some a.description, "pending", t⟩).accepted =
      storable a.description := by
  have hpending : storable "pending" = true ∧ "pending".length ≤ 50 := by decide
  simp [Op.accepted, acceptsRow, ordersColumns, OrderModel.values, Column.accepts, ColumnType.accepts,
    hkey, hrequester, hstorable, hstorable', hpending]

/-- **The row of its event fits `outbox_events`** when the correlation id does. -/
theorem event_accepted (hstorable : storable a.externalOrderId = true)
    (hstorable' : storable a.requesterId = true) :
    (Op.insertOutboxEvent ⟨eventId, "order_created",
      (OrderService.newEvent a orderId now eventId).payload,
      .pending, t⟩).accepted = storable a.correlationId := by
  have hpending : storable "pending" = true ∧ "pending".length ≤ 50 := by decide
  have hcreated : storable "order_created" = true ∧ "order_created".length ≤ 100 := by decide
  have hkeys : ∀ key ∈
      ["event_type", "order_id", "external_order_id", "requester_id", "correlation_id", "created_at"],
      storable key = true := by decide
  simp only [List.forall_mem_cons] at hkeys
  simp [Op.accepted, acceptsRow, outboxEventsColumns, OutboxEventModel.values, OutboxStatus.value,
    Column.accepts, ColumnType.accepts, OrderService.newEvent, hstorable, hstorable', hpending,
    hcreated, hkeys, storable_str,
    storable_isoformat]

end Values

/-! ## Operations -/

section Operations

variable {P : Type} [DecidableEq P] {response : Response} {p : P} {db : Db P} {o : Op} {α : Type}
  {Q : Except Exc α → Db P → Prop}

omit [DecidableEq P] in
theorem behaves_statement {r : Except Exc (Op.Resp o)} (hst : o.isStatement = true) :
    Behaves response db o r ↔ (r = .error .databaseError ↔ o.accepted = false) := by
  cases o <;> first | exact Iff.rfl | exact nomatch hst

/-- A statement that is refused leaves the committed tables as they are. -/
theorem typed_refused {k : Except Exc (Op.Resp o) → Prog α} (hst : o.isStatement = true)
    (hno : o.accepted = false)
    (hk : ∀ db', db'.committed = db.committed →
      Total (Typed response p) (k (.error .databaseError)) db' Q) :
    Total (Typed response p) (.op o k : Prog α) db Q := by
  refine total_op.2 ⟨⟨.error .databaseError, db.abort p, .failed hst .aborted, ?_⟩, ?_⟩
  · exact (behaves_statement hst).2 (iff_of_true rfl hno)
  · rintro r db' ⟨hx, hb⟩
    obtain rfl := ((behaves_statement hst).1 hb).2 hno
    refine hk db' (hx.committed.resolve_right ?_)
    rintro ⟨rfl, -⟩
    cases hst

theorem typed_get {baseUrl path : String} {k : Except Exc Response → Prog α} :
    Total (Typed response p) (.op (.get baseUrl path) k : Prog α) db Q ↔
      Total (Typed response p) (k (httpGet path (.ok response))) db Q := by
  refine total_det (S := effects) fun r db' => ⟨fun ⟨hx, hb⟩ => ?_, ?_⟩
  · cases hx with
    | failed hst => cases hst
    | get => exact ⟨hb, rfl⟩
  · rintro ⟨rfl, rfl⟩
    exact ⟨.get _ _ _, rfl⟩

theorem typed_uuid4 {k : Except Exc UUID → Prog α} (hfresh : ∃ u, Unused db u)
    (hk : ∀ u, Unused db u → Total (Typed response p) (k (.ok u)) db Q) :
    Total (Typed response p) (.op .uuid4 k : Prog α) db Q := by
  obtain ⟨u, hu⟩ := hfresh
  refine total_op.2 ⟨⟨.ok u, db, .uuid4 u, u, rfl, hu⟩, ?_⟩
  rintro r db' ⟨hx, u, rfl, hu⟩
  cases hx
  exact hk u hu

theorem typed_now {k : Except Exc DateTime → Prog α}
    (hk : ∀ t, Total (Typed response p) (k (.ok t)) db Q) :
    Total (Typed response p) (.op .now k : Prog α) db Q := by
  have t₀ : DateTime := ⟨0, 0, 0, 0, 0, 0, 0, by decide, by decide, by decide, by decide, by decide,
    by decide, by decide⟩
  refine total_op.2 ⟨⟨.ok t₀, db, .now t₀, iff_of_false nofun nofun⟩, ?_⟩
  rintro r db' ⟨hx, hb⟩
  cases hx with
  | failed hst => cases hst
  | now t => exact hk t

theorem typed_select {key : String} {k : Except Exc (Option OrderModel) → Prog α}
    (hacc : storable key = true)
    (hu : (db.session p).Usable) :
    Total (Typed response p) (.op (.selectOrder key) k : Prog α) db Q ↔
      Total (Typed response p) (k (.ok ((db.view schema p).findOrder key)))
      (db.extend p [] []) Q := by
  refine total_det (S := effects) fun r db' => ⟨fun ⟨hx, hb⟩ => ?_, ?_⟩
  · cases hx with
    | failed => exact nomatch (hb.1 rfl).symm.trans hacc
    | selectOrder => exact ⟨rfl, rfl⟩
  · rintro ⟨rfl, rfl⟩
    exact ⟨.selectOrder _ hu, iff_of_false nofun fun h => nomatch h.symm.trans hacc⟩

theorem typed_insertOrder {model : OrderModel} {k : Except Exc Unit → Prog α}
    (hacc : (Op.insertOrder model).accepted = true) (hu : (db.session p).Usable)
    (hfree : ∀ x ∈ model.keys, db.Free p x) (hnew : ∀ x ∈ model.keys, x ∉ (db.view schema p).keys) :
    Total (Typed response p) (.op (.insertOrder model) k : Prog α) db Q ↔
      Total (Typed response p) (k (.ok ())) (db.extend p [.insertOrder model] model.keys) Q := by
  refine total_det (S := effects) fun r db' => ⟨fun ⟨hx, hb⟩ => ?_, ?_⟩
  · cases hx with
    | failed => exact nomatch (hb.1 rfl).symm.trans hacc
    | insertOrder => exact ⟨rfl, rfl⟩
    | insertOrderConflict _ _ x hx hused => exact absurd hused (hnew x hx)
  · rintro ⟨rfl, rfl⟩
    exact ⟨.insertOrder _ hu hfree hnew, iff_of_false nofun fun h => nomatch h.symm.trans hacc⟩

theorem typed_insertOutboxEvent {model : OutboxEventModel} {k : Except Exc Unit → Prog α}
    (hacc : (Op.insertOutboxEvent model).accepted = true) (hu : (db.session p).Usable)
    (hfree : ∀ x ∈ model.keys, db.Free p x) (hnew : ∀ x ∈ model.keys, x ∉ (db.view schema p).keys) :
    Total (Typed response p) (.op (.insertOutboxEvent model) k : Prog α) db Q ↔
      Total (Typed response p) (k (.ok ()))
      (db.extend p [.insertOutboxEvent model] model.keys) Q := by
  refine total_det (S := effects) fun r db' => ⟨fun ⟨hx, hb⟩ => ?_, ?_⟩
  · cases hx with
    | failed => exact nomatch (hb.1 rfl).symm.trans hacc
    | insertOutboxEvent => exact ⟨rfl, rfl⟩
    | insertOutboxEventConflict _ _ x hx hused => exact absurd hused (hnew x hx)
  · rintro ⟨rfl, rfl⟩
    exact ⟨.insertOutboxEvent _ hu hfree hnew, iff_of_false nofun fun h => nomatch h.symm.trans hacc⟩

theorem typed_commit {k : Except Exc Unit → Prog α} (hu : (db.session p).Usable) :
    Total (Typed response p) (.op .commit k : Prog α) db Q ↔
      Total (Typed response p) (k (.ok ())) (db.commit schema p) Q := by
  refine total_det (S := effects) fun r db' => ⟨fun ⟨hx, hb⟩ => ?_, ?_⟩
  · cases hx with
    | failed hst => cases hst
    | commit => exact ⟨rfl, rfl⟩
    | commitFailed => exact nomatch hb.1 rfl
    | commitLost => exact nomatch hb.1 rfl
  · rintro ⟨rfl, rfl⟩
    exact ⟨.commit hu, iff_of_false nofun nofun⟩

theorem typed_close {k : Except Exc Unit → Prog α} :
    Total (Typed response p) (.op .close k : Prog α) db Q ↔
      Total (Typed response p) (k (.ok ())) (db.rollback p) Q := by
  refine total_det (S := effects) fun r db' => ⟨fun ⟨hx, hb⟩ => ?_, ?_⟩
  · cases hx with
    | failed hst => cases hst
    | close => exact ⟨rfl, rfl⟩
  · rintro ⟨rfl, rfl⟩
    exact ⟨.close, iff_of_false nofun nofun⟩

end Operations

/-! ## The call -/

section Call

variable {P : Type} [DecidableEq P] {response : Response} {p : P} {db : Db P} {a : CallArgs}

theorem Unused.read {u : UUID} (h : Unused db u) : Unused (db.extend p [] []) u := by
  refine fun k hk => ⟨(h k hk).1, fun q => ?_⟩
  by_cases hq : q = p
  · rw [hq, Store.extend_self]
    simpa using (h k hk).2 p
  · rw [Store.extend_other hq]
    exact (h k hk).2 q

theorem Clear.read (h : Clear a p db) : Clear a p (db.extend p [] []) where
  usable := by simp
  writes := by simp [h.writes]
  key := h.key
  free q hq := by rw [Store.extend_other hq]; exact h.free q hq
  fresh := h.fresh.imp fun u hu => hu.read

omit [DecidableEq P] in
/-- The keys of the new order are free and new. -/
theorem Clear.orderKeys (h : Clear a p db) {model : OrderModel} (hid : Unused db model.id)
    (hkey : model.externalOrderId = a.externalOrderId) :
    ∀ x ∈ model.keys, db.Free p x ∧ x ∉ db.committed.keys := by
  intro x hx
  simp only [OrderModel.keys, List.mem_cons, List.not_mem_nil, or_false] at hx
  rcases hx with rfl | rfl
  · obtain ⟨hnew, hfree⟩ := hid _ (.inl rfl)
    exact ⟨fun q _ => hfree q, hnew⟩
  · rw [hkey]
    refine ⟨h.free, fun hmem => ?_⟩
    simp only [Tables.keys, OrderModel.keys, OutboxEventModel.keys, List.mem_append,
      List.mem_flatMap, List.mem_cons, List.not_mem_nil, or_false, reduceCtorEq, false_or,
      and_false, exists_false, Lock.externalOrderId.injEq] at hmem
    obtain ⟨m, hm, he⟩ := hmem
    exact h.key m hm he.symm

/-- **The transaction of a validated request.** -/
theorem typed_createOrderWithOutbox (h : Clear a p db) (hkey : a.externalOrderId.length ≤ 255)
    (hrequester : a.requesterId.length ≤ 255) (hstorable : storable a.externalOrderId = true)
    (hstorable' : storable a.requesterId = true) :
    Total (Typed response p) (OrderService.createOrderWithOutbox a) db fun result db' =>
      if storable a.description && storable a.correlationId then
        ∃ value, result = .ok value ∧ Creates a db.committed (.ok (value.1, false)) db'.committed
      else result = .error .databaseError ∧ db'.committed = db.committed := by
  unfold OrderService.createOrderWithOutbox OrderRepository.create OutboxRepository.create
  simp only [await, Prog.await_eq, Prog.op_bind]
  refine typed_uuid4 h.fresh fun orderId horder => typed_now fun now =>
    typed_uuid4 h.fresh fun eventId hevent => ?_
  refine typed_now fun t => ?_
  let order : OrderModel :=
    ⟨orderId, a.externalOrderId, a.requesterId, some a.description, "pending", t⟩
  have hkeys : ∀ x ∈ order.keys, _ := h.orderKeys horder rfl
  have hview : db.view schema p = db.committed := view_of_nil (.inr h.writes)
  have horder_accepted : (Op.insertOrder order).accepted = storable a.description :=
    order_accepted hkey hrequester hstorable hstorable'
  -- only the description can make the order refused
  cases hdesc : storable a.description with
  | false =>
    refine typed_refused rfl (horder_accepted.trans hdesc) fun db' hdb' => ?_
    exact ⟨rfl, hdb'⟩
  | true =>
    refine (typed_insertOrder (horder_accepted.trans hdesc) h.usable
      (fun x hx => (hkeys x hx).1) ?_).2 ?_
    · rw [hview]
      exact fun x hx => (hkeys x hx).2
    refine typed_now fun t' => ?_
    let event : OutboxEventModel :=
      ⟨eventId, "order_created", (OrderService.newEvent a orderId now eventId).payload, .pending, t'⟩
    have hevent_accepted : (Op.insertOutboxEvent event).accepted = storable a.correlationId :=
      event_accepted hstorable hstorable'
    -- only the correlation id can make the event refused
    cases hcorr : storable a.correlationId with
    | false =>
      refine typed_refused rfl (hevent_accepted.trans hcorr) fun db' hdb' => ?_
      exact ⟨rfl, hdb'⟩
    | true =>
      obtain ⟨hnew, hfree⟩ := hevent _ (.inr rfl)
      -- the session sees its own order besides what is committed
      have hview' : (db.extend p [.insertOrder order] order.keys).view schema p =
          db.committed.apply (.insertOrder order) := by
        unfold Store.view
        rw [Store.extend_self, Session.writes_active, h.writes]
        rfl
      refine (typed_insertOutboxEvent (hevent_accepted.trans hcorr) (by simp) ?_ ?_).2 ?_
      · intro x hx q hq
        obtain rfl := List.mem_singleton.1 hx
        rw [Store.extend_other hq]
        exact hfree q
      · intro x hx hmem
        obtain rfl := List.mem_singleton.1 hx
        rw [hview'] at hmem
        rcases List.mem_append.1 ((schema.keys_app _ _).mem_iff.1 hmem) with hold | hown
        · exact hnew hold
        · simp [schema, Write.newKeys, OrderModel.keys] at hown
      · refine (typed_commit (by simp)).2 ?_
        refine ⟨(order.toEntity, OrderService.newEvent a orderId now eventId), rfl, order, event,
          now, rfl, ?_, rfl, rfl⟩
        rw [Store.commit_committed]
        unfold Store.view
        rw [Store.extend_self, Store.extend_self, Session.writes_active,
          Session.writes_active, h.writes]
        rfl

theorem Settles.creates_iff {t t' : Tables} {result : Except Exc (Order × Bool)}
    (h : Settles a t result t') :
    Creates a t result t' ↔
      storable a.externalOrderId = true ∧ storable a.description = true ∧
      storable a.correlationId = true := by
  unfold Settles at h
  rw [← Bool.and_eq_true, ← Bool.and_eq_true, ← Bool.and_assoc]
  split at h
  · next hcond => exact iff_of_true h hcond
  · next hcond =>
    refine iff_of_false ?_ hcond
    rintro ⟨order, event, now, hresult, -⟩
    exact nomatch h.1.symm.trans hresult

theorem typed_createOrder (h : Clear a p db) (hkey : a.externalOrderId.length ≤ 255)
    (hrequester : a.requesterId.length ≤ 255)
    (hurl : printableUrl (RequesterClient.path a.requesterId) = true)
    (hsuccess : 200 ≤ response.statusCode ∧ response.statusCode < 300) :
    Total (Typed response p) (OrderService.createOrder a) db fun result db' =>
      Settles a db.committed result db'.committed := by
  have hrequester' := storable_of_printable hurl
  have hanswer : a.client.classify a.requesterId
    (httpGet (RequesterClient.path a.requesterId) (.ok response)) =
      .ok true := by
    unfold httpGet
    rw [if_pos hurl]
    refine (classify_ok _ _ _).trans ?_
    rw [if_neg (by omega), if_neg (by omega), if_pos hsuccess]
  unfold OrderService.createOrder OrderRepository.findByExternalId
  rw [RequesterClient.validateRequester_eq, Prog.op_bind, typed_get, hanswer]
  simp only [Prog.ofExcept_ok, Prog.ret_bind, await, Prog.await_eq, Prog.op_bind]
  unfold Settles
  -- a key with U+0000 is refused by the lookup already
  cases hstorable : storable a.externalOrderId with
  | false =>
    refine typed_refused rfl hstorable fun db' hdb' => ?_
    exact ⟨rfl, hdb'⟩
  | true =>
    have hview : db.view schema p = db.committed := view_of_nil (.inr h.writes)
    have hnone : db.committed.findOrder a.externalOrderId = none := by
      refine List.find?_eq_none.2 fun m hm => ?_
      simpa using h.key m hm
    rw [typed_select hstorable h.usable, hview, hnone]
    simp only [Prog.ofExcept_ok, Prog.ret_bind, Prog.pure_eq, Option.map_none]
    rw [total_tryCatch, total_bind]
    refine (typed_createOrderWithOutbox h.read hkey hrequester hstorable hrequester').mono fun result db' hdone => ?_
    rw [Bool.true_and]
    cases hcond : storable a.description && storable a.correlationId with
    | true =>
      rw [hcond] at hdone
      obtain ⟨value, rfl, hcreates⟩ := hdone
      exact hcreates
    | false =>
      rw [hcond] at hdone
      obtain ⟨rfl, hsame⟩ := hdone
      exact ⟨rfl, hsame⟩

theorem typed_request (h : Clear a p db) (hkey : a.externalOrderId.length ≤ 255)
    (hrequester : a.requesterId.length ≤ 255)
    (hurl : printableUrl (RequesterClient.path a.requesterId) = true)
    (hsuccess : 200 ≤ response.statusCode ∧ response.statusCode < 300) :
    Total (Typed response p) (OrderService.request a) db fun result db' =>
      Settles a db.committed result db'.committed := by
  unfold OrderService.request withSession
  rw [total_ensuring]
  refine (typed_createOrder h hkey hrequester hurl hsuccess).mono fun result db' hdone => ?_
  simp only [await, Prog.await_eq, Prog.op_bind]
  rw [typed_close]
  rcases result with exc | value <;> exact hdone

/-- **What the schema accepts is stored** if and only if its strings have no U+0000. -/
theorem validated_stored (client : RequesterClient) (request : CreateOrderRequest)
    (correlationId : String)
    (response : Response) (hsuccess : 200 ≤ response.statusCode ∧ response.statusCode < 300)
    (hanswers : httpGet (RequesterClient.path request.requesterId) (.ok response) = .ok response)
    (hclear : Clear (validatedArgs client request correlationId) p db) :
    (∃ result db', Prog.Executes (S := effects) (Typed response p)
      (OrderService.request (validatedArgs client request correlationId)) db result db') ∧
    ((∀ result db', Prog.Executes (S := effects) (Typed response p)
        (OrderService.request (validatedArgs client request correlationId)) db result db' →
        Creates (validatedArgs client request correlationId) db.committed result db'.committed) ↔
      storable request.externalOrderId ∧ storable request.description ∧ storable correlationId) := by
  have hurl : printableUrl (RequesterClient.path request.requesterId) = true := by
    by_contra hno
    unfold httpGet at hanswers
    rw [if_neg hno] at hanswers
    exact nomatch hanswers
  obtain ⟨hex, hall⟩ := (typed_request hclear request.externalOrderId_length.2 request.requesterId_length.2 hurl
    hsuccess).executes
  refine ⟨hex, ?_⟩
  constructor
  · intro hcreates
    obtain ⟨result, db', hx⟩ := hex
    exact (hall result db' hx).creates_iff.1 (hcreates result db' hx)
  · intro hstorable result db' hx
    exact (hall result db' hx).creates_iff.2 hstorable

end Call

section Sample

def sampleClient : RequesterClient := ⟨"http://requesters:8080", "3.0"⟩

/-- A request with the given description. -/
def sampleDescribed (description : String) (h : 1 ≤ description.length ∧ description.length ≤ 2000) :
    CreateOrderRequest where
  externalOrderId := "ORD-2024-002"
  requesterId := "REQ-002"
  description := description
  externalOrderId_length := by decide
  requesterId_length := by decide
  description_length := h

/-- The empty database. -/
def sampleEmpty : Db Unit := ⟨{}, fun _ => .idle⟩

theorem sample_clear (request : CreateOrderRequest) (correlationId : String) :
    Clear (validatedArgs sampleClient request correlationId) () sampleEmpty where
  usable := trivial
  writes := rfl
  key := nofun
  free := nofun
  fresh := ⟨⟨0⟩, fun _ _ => ⟨List.not_mem_nil, fun _ => List.not_mem_nil⟩⟩

/-- A plain request is stored. -/
theorem validated_stored_sample : ∃ result db',
    Prog.Executes (S := effects) (Typed ⟨200, ""⟩ ())
      (OrderService.request
        (validatedArgs sampleClient (sampleDescribed "desc" (by decide)) "corr-123"))
      sampleEmpty result db' ∧
    Creates (validatedArgs sampleClient (sampleDescribed "desc" (by decide)) "corr-123") {}
      result db'.committed := by
  obtain ⟨⟨result, db', hx⟩, hcreates⟩ := validated_stored sampleClient
    (sampleDescribed "desc" (by decide)) "corr-123" ⟨200, ""⟩ (by decide) rfl (sample_clear _ _)
  exact ⟨result, db', hx, hcreates.2 ⟨by decide, by decide, by decide⟩ result db' hx⟩

/-- **Accepted and not stored**: the description U+0000. -/
theorem validated_refused :
    (∃ result db', Prog.Executes (S := effects) (Typed ⟨200, ""⟩ ())
      (OrderService.request
        (validatedArgs sampleClient (sampleDescribed "\x00" (by decide)) "corr-123"))
      sampleEmpty result db') ∧
    ∀ result db', Prog.Executes (S := effects) (Typed ⟨200, ""⟩ ())
      (OrderService.request
        (validatedArgs sampleClient (sampleDescribed "\x00" (by decide)) "corr-123"))
      sampleEmpty result db' →
      result = .error .databaseError ∧ db'.committed = {} := by
  have hsuccess : 200 ≤ (⟨200, ""⟩ : Response).statusCode ∧
      (⟨200, ""⟩ : Response).statusCode < 300 := by decide
  obtain ⟨hex, hall⟩ := (typed_request (sample_clear (sampleDescribed "\x00" (by decide)) "corr-123")
    (by decide) (by decide) (by decide) hsuccess).executes
  exact ⟨hex, hall⟩

end Sample

end OrdersApi
