import OrdersApi.Proof.Atomicity

/-!
# Delivery

* A committed event is `processed` only if `publish` has returned for it, so no event
  is lost; and a pending event that is old enough is in the next batch.
* Every message is the message of a committed order. Two messages of one order are
  equal, and messages of two orders differ in `order_id`.
-/

namespace OrdersApi

open TxStore Trace Pairing

variable {P : Type} {tr : List (Event P)} {p : P} {tab tab' : Tables} {m m' : OrderModel}
  {event event' : OutboxEvent} {body body' : String}

/-! ## Messages -/

theorem MessageFor.mono (h : MessageFor tab m event body) (hext : tab.Extends tab') :
    MessageFor tab' m event body := by
  obtain ⟨e, he, hid, hp, hev⟩ := h.row
  obtain ⟨s, hs⟩ := hext.events e he
  exact ⟨hext.orders m h.order, ⟨_, hs, hid, hp, hev⟩, h.body⟩

theorem MessageFor.orderId (h : MessageFor tab m event body) :
    event.payload.get "order_id" = some m.id.str := by
  obtain ⟨e, -, -, hp, hev⟩ := h.row
  rw [← hp]; exact hev.2.1

/-- In tables that hold orders and events in pairs, a copy of an event is the message of
its order. -/
theorem CopyIn.messageFor {R : DateTime → DateTime → Prop} (h : CopyIn tab event)
    (hpair : Paired R tab) :
    ∃ m, MessageFor tab m event (Json.dumps event.payload) := by
  obtain ⟨s, hs⟩ := h
  obtain ⟨m, hm, hme⟩ := exists_left hpair hs
  exact ⟨m, hm, ⟨_, hs, rfl, rfl, hme.eventOf⟩, rfl⟩

/-- Two messages of one order carry the same payload. -/
theorem MessageFor.same (h : MessageFor tab m event body) (h' : MessageFor tab m event' body')
    (hone : OneToOne EventOf tab.orders tab.outboxEvents) :
    event.payload = event'.payload ∧ body = body' := by
  obtain ⟨e, he, -, hp, hev⟩ := h.row
  obtain ⟨e', he', -, hp', hev'⟩ := h'.row
  have hee : e = e' := hone.right_unique h.order he he' hev hev'
  have hpay : event.payload = event'.payload := by rw [← hp, ← hp', hee]
  exact ⟨hpay, by rw [h.body, h'.body, hpay]⟩

/-- Messages of two orders differ in `order_id`. -/
theorem MessageFor.differ (h : MessageFor tab m event body) (h' : MessageFor tab m' event' body')
    (hk : tab.keys.Nodup) (hne : m ≠ m') :
    event.payload.get "order_id" ≠ event'.payload.get "order_id" := by
  rw [h.orderId, h'.orderId]
  intro he
  exact hne (Tables.order_of_id hk h.order h'.order (UUID.str_injective (Option.some.inj he)))

/-! ## An event that is delivered at once -/

theorem sample_delivered : ∃ tr w m, Reached .empty sampleRole tr w ∧
    w.db.committed = ⟨[m], [(sampleRow (sampleTime 0)).setStatus (sampleUuid 1) .processed]⟩ ∧
    Handed tr (sampleRow (sampleTime 0)).toEntity (Json.dumps (sampleRow (sampleTime 0)).payload) := by
  obtain ⟨tr, ⟨procs, _, _⟩, m, h, rfl, rfl, hproc, -⟩ :=
    sample_run (R := fun _ _ => True) (t := sampleTime 0) trivial
  have hlimit : ([sampleRow (sampleTime 0)].filter fun row => row.status = .pending).length ≤ 10 := by decide
  have h1 := h.forget.step (.worker (p := false) trivial hproc rfl
    (.selectPending 10 [sampleRow (sampleTime 0)] trivial
      (fetched_of_unlocked (free_of_other rfl) (List.pairwise_singleton _ _) hlimit)))
  have h2 := h1.step (.worker (p := false) trivial rfl rfl (.published _ _))
  have h3 := h2.step (.worker (p := false) trivial rfl rfl (.updateStatus _ _ trivial ⟨_, .head _, rfl⟩
    (free_of_other rfl _)))
  have h4 := h3.step (.worker (p := false) trivial rfl rfl (.commit trivial))
  exact ⟨_, _, m, h4, rfl, _, _, .tail _ (.tail _ (.head _)), nofun⟩

section Reach

variable [DecidableEq P] {role : P → Role} {w w' : World P}

/-- A worker publishes the payload of an event in its memory. -/
theorem Reached.publish_copy {t : ValidTables} (h : Reached t role tr w) {r : Except Exc Unit}
    (hs : Step w (.exec p (.publish event body) r) w') :
    body = Json.dumps event.payload ∧ CopyIn w.db.committed event := by
  cases hs with
  | @call _ a pt _ k _ db' _ hp hn hx =>
    cases pt with
    | done res => rcases res with e | v <;> cases hn
    | _ => cases hn
  | @worker _ W pt _ k _ db' _ hp hn hx =>
    have hI := h.workerInv hp
    cases pt with
    | publish job attempt later => cases hn; exact ⟨rfl, hI.copies _ List.mem_cons_self⟩
    | stopped res => rcases res with e | v <;> cases hn
    | _ => cases hn

/-- A message is the message of a committed order at the moment when it is handed over. -/
theorem Reached.publish_message (h : Reached .empty role tr w) {r : Except Exc Unit}
    (hs : Step w (.exec p (.publish event body) r) w') :
    ∃ m, MessageFor w.db.committed m event body := by
  obtain ⟨rfl, hcopy⟩ := h.publish_copy hs
  exact hcopy.messageFor h.paired

theorem Reached.handed_message (h : Reached .empty role tr w) {r : Except Exc Unit}
    (hm : .exec p (.publish event body) r ∈ tr) : ∃ m, MessageFor w.db.committed m event body := by
  refine Run.invariant (I := fun tr w => .exec p (.publish event body) r ∈ tr →
    ∃ m, MessageFor w.db.committed m event body) ?_ ?_ h hm
  · nofun
  · intro tr w l w' hrun hI hs hl
    have hext := hs.extends (Reached.consistent hrun)
    rcases List.mem_cons.1 hl with rfl | hl
    · obtain ⟨m, hm⟩ := Reached.publish_message hrun hs
      exact ⟨m, hm.mono hext⟩
    · obtain ⟨m, hm⟩ := hI hl
      exact ⟨m, hm.mono hext⟩

/-- **No phantom message.** Each message handed to SQS is, at that moment, the message of a
committed order; messages of one order are equal, and those of two orders differ in `order_id`. -/
theorem no_phantom_message (h : Reached .empty role tr w) :
    (∀ p event body r w', Step w (.exec p (.publish event body) r) w' →
      ∃ m, MessageFor w.db.committed m event body) ∧
    ∀ event body event' body', Handed tr event body → Handed tr event' body' →
      ∃ m m', MessageFor w.db.committed m event body ∧ MessageFor w.db.committed m' event' body' ∧
        (m = m' → event.payload = event'.payload ∧ body = body') ∧
        (m ≠ m' → event.payload.get "order_id" ≠ event'.payload.get "order_id") := by
  refine ⟨fun p event body r w' hs => h.publish_message hs, ?_⟩
  rintro event body event' body' ⟨p, r, hl, -⟩ ⟨p', r', hl', -⟩
  obtain ⟨m, hm⟩ := h.handed_message hl
  obtain ⟨m', hm'⟩ := h.handed_message hl'
  refine ⟨m, m', hm, hm', ?_, hm.differ hm' h.keys_nodup⟩
  rintro rfl
  exact hm.same hm' h.oneToOne

theorem no_phantom_message_sample : ∃ tr w m, Reached .empty sampleRole tr w ∧
    MessageFor w.db.committed m (sampleRow (sampleTime 0)).toEntity
      (Json.dumps (sampleRow (sampleTime 0)).payload) := by
  obtain ⟨tr, w, -, h, -, hsent⟩ := sample_delivered
  obtain ⟨m, -, hm, -⟩ := (no_phantom_message h).2 _ _ _ _ hsent hsent
  exact ⟨tr, w, m, h, hm⟩

/-! ## No event is lost -/

/-- A committed event is `processed` only after `publish` has returned for it. -/
theorem Reached.processed_published (h : Reached .empty role tr w) :
    ∀ e ∈ w.db.committed.outboxEvents, e.status = .processed → PublishedOk tr e.id := by
  refine Run.invariant (I := fun tr w => ∀ e ∈ w.db.committed.outboxEvents, e.status = .processed →
    PublishedOk tr e.id) ?_ ?_ h
  · nofun
  · intro tr w l w' hrun hI hs e he hst
    cases Reached.commits hrun hs with
    | same ht => exact (hI e (ht ▸ he) hst).cons l
    | created p a m event t r _ _ hm ht =>
      rw [ht] at he
      rcases List.mem_append.1 he with he | he
      · exact (hI e he hst).cons l
      · rw [List.mem_singleton.1 he] at hst
        exact absurd (hm.status.symm.trans hst) (by decide)
    | settled p W pt id status r _ _ hp _ hw ht =>
      rw [ht] at he
      obtain ⟨e', he', rfl⟩ := List.mem_map.1 he
      rw [OutboxEventModel.setStatus_id]
      unfold OutboxEventModel.setStatus at hst
      split at hst
      · rename_i hid
        have hsent := (Reached.workerInv hrun hp).sent
        -- of the two writes of a worker only the first one makes an event `processed`
        cases pt with
        | commit job attempt later => cases hw; exact hid ▸ (hsent _ rfl).cons l
        | commitFailed job => cases hw; cases hst
        | _ => cases hw
      · exact (hI e' he' hst).cons l

/-- **No event is lost.** Each committed order has its event, which is still to be
published, given up, or published; and a pending, unlocked event is fetched when fewer
than a batch of such events are as old. -/
theorem no_event_lost (h : Reached .empty role tr w) :
    (∀ m ∈ w.db.committed.orders, ∃ e ∈ w.db.committed.outboxEvents, EventOf m e ∧
      (e.status = .pending ∨ e.status = .failed ∨ PublishedOk tr e.id)) ∧
    ∀ p n rows w', Step w (.exec p (.selectPending n) (.ok rows)) w' →
      ∀ row ∈ w.db.committed.outboxEvents, Eligible w.db p row →
        {x | x ∈ w.db.committed.outboxEvents ∧ Eligible w.db p x ∧ x ≠ row ∧
          x.createdAt ≤ row.createdAt}.ncard < n →
        ∃ W pt, w'.procs p = .worker W pt ∧ row.toEntity ∈ pt.held := by
  refine ⟨fun m hm => ?_, ?_⟩
  · obtain ⟨e, he, hme⟩ := exists_right h.paired hm
    refine ⟨e, he, hme.eventOf, ?_⟩
    cases hst : e.status with
    | pending => exact .inl rfl
    | failed => exact .inr (.inl rfl)
    | processed => exact .inr (.inr (h.processed_published e he hst))
  · intro p n rows w' hs row hrow helig hfew
    have hnd : w.db.committed.outboxEvents.Nodup := (Tables.eventIds_nodup h.keys_nodup).of_map
    cases hs with
    | @call _ a pt _ k _ db' _ hp hn hx =>
      cases pt with
      | done res => rcases res with e | v <;> cases hn
      | _ => cases hn
    | @worker _ W pt _ k _ db' _ hp hn hx =>
      have hI := h.workerInv hp
      cases pt with
      | fetch polls =>
        cases hn
        cases hx with
        | selectPending _ _ hu hfetch =>
          rw [view_of_nil hI.session] at hfetch
          -- the fetched rows are the memory of the worker at its next point
          refine ⟨W, _, Function.update_self .., ?_⟩
          rw [WorkerPoint.held_nextEvent]
          exact List.mem_map_of_mem (hfetch.mem hnd hrow helig hfew)
      | stopped res => rcases res with e | v <;> cases hn
      | _ => cases hn

theorem no_event_lost_sample : ∃ tr w m, Reached .empty sampleRole tr w ∧ w.db.committed.orders = [m] ∧
    ∃ e ∈ w.db.committed.outboxEvents, EventOf m e ∧ e.status = .processed ∧ PublishedOk tr e.id := by
  obtain ⟨tr, w, m, h, ht, -⟩ := sample_delivered
  obtain ⟨e, he, hev, hst⟩ := (no_event_lost h).1 m (by rw [ht]; exact .head _)
  have hproc : e.status = .processed := by
    rw [ht] at he
    rw [List.mem_singleton.1 he]
    rfl
  rw [hproc] at hst
  exact ⟨tr, w, m, h, by rw [ht], e, he, hev, hproc, by simpa using hst⟩

end Reach

end OrdersApi
