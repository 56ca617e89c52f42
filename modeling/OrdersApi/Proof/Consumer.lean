import OrdersApi.Proof.Message

/-!
# Effectively once

The service delivers at least once: a worker that dies between `publish` and its commit
leaves the event to be published again. A consumer that acts on the first message of each
`order_id` then acts exactly once for each order that is processed, whatever was sent twice
and in whatever order messages arrive (`effectively_once`).
-/

namespace OrdersApi

open TxStore Pairing

variable {P : Type} [DecidableEq P] {role : P → Role} {tr : List (Event P)} {w : World P}
  {event event' : OutboxEvent}
  {sent sent' : String} {bodies bodies' : List String} {message message' : OrderMessage}

/-- A message is the same however the entries of its payload are ordered. -/
theorem Reached.read_perm (h : Reached .empty role tr w) (hsent : Handed tr event sent)
    {payload : Payload}
    (hperm : payload.Perm event.payload) : readMessage (Json.dumps payload) = readMessage sent := by
  obtain ⟨hbody, -, a, m, now, eventId, -, -, -, hpayload⟩ := h.handed_requested hsent
  rw [hpayload] at hperm hbody
  rw [hbody, readMessage_payload a m.id now eventId hperm, readMessage_payload a m.id now eventId (.refl _)]

/-- What is delivered is what was handed over. -/
theorem Reached.mem_messages (h : Reached .empty role tr w) (hd : Delivers tr bodies) :
    message ∈ bodies.filterMap readMessage ↔
      ∃ event sent, Handed tr event sent ∧ readMessage sent = some message := by
  rw [List.mem_filterMap]
  constructor
  · rintro ⟨body, hbody, hread⟩
    obtain ⟨event, sent, payload, hsent, hperm, rfl⟩ := hd.handed body hbody
    exact ⟨event, sent, hsent, (h.read_perm hsent hperm).symm.trans hread⟩
  · rintro ⟨event, sent, hsent, hread⟩
    obtain ⟨payload, hperm, hmem⟩ := hd.delivered event sent hsent
    exact ⟨_, hmem, (h.read_perm hsent hperm).trans hread⟩

/-- The `order_id` that is read from a message is the one in its event. -/
theorem Reached.read_orderId (h : Reached .empty role tr w) (hsent : Handed tr event sent)
    (hread : readMessage sent = some message) :
    event.payload.get "order_id" = some message.orderId ∧ ∃ p a m now, role p = .call a ∧
      m ∈ w.db.committed.orders ∧ OrderOf a m ∧ message = a.message m.id now := by
  obtain ⟨hbody, p, a, m, now, eventId, hr, hm, hrow, hpayload⟩ := h.handed_requested hsent
  rw [hbody, hpayload, readMessage_payload a m.id now eventId (.refl _)] at hread
  obtain rfl := Option.some.inj hread
  refine ⟨?_, p, a, m, now, hr, hm, hrow, rfl⟩
  rw [hpayload]
  rfl

/-- **`order_id` identifies a message.** -/
theorem Reached.message_of_orderId (h : Reached .empty role tr w) (hsent : Handed tr event sent)
    (hsent' : Handed tr event' sent') (hread : readMessage sent = some message)
    (hread' : readMessage sent' = some message') (hid : message.orderId = message'.orderId) :
    message = message' := by
  have hget := (h.read_orderId hsent hread).1
  have hget' := (h.read_orderId hsent' hread').1
  obtain ⟨p, r, hl, -⟩ := hsent
  obtain ⟨p', r', hl', -⟩ := hsent'
  obtain ⟨m, hm⟩ := h.handed_message hl
  obtain ⟨m', hm'⟩ := h.handed_message hl'
  -- two messages of two orders would differ in `order_id`
  have hmm : m = m' := by
    by_contra hne
    refine hm.differ hm' h.keys_nodup hne ?_
    rw [hget, hget', hid]
  subst hmm
  obtain ⟨-, rfl⟩ := hm.same hm' h.oneToOne
  exact Option.some.inj (hread.symm.trans hread')

/-- A processed event has been handed over, as the message of its order. -/
theorem Reached.processed_handed (h : Reached .empty role tr w) {m : OrderModel} {e : OutboxEventModel}
    (he : e ∈ w.db.committed.outboxEvents) (hme : EventOf m e) (hst : e.status = .processed) :
    ∃ event sent message, Handed tr event sent ∧ readMessage sent = some message ∧
    message.orderId = m.id.str := by
  obtain ⟨p, event, sent, hid, hl⟩ := h.processed_published e he hst
  have hsent : Handed tr event sent := ⟨p, _, hl, nofun⟩
  obtain ⟨hbody, -, a, m', now, eventId, -, -, -, hpayload⟩ := h.handed_requested hsent
  have hread : readMessage sent = some (a.message m'.id now) := by
    rw [hbody, hpayload]
    exact readMessage_payload a m'.id now eventId (.refl _)
  refine ⟨event, sent, _, hsent, hread, ?_⟩
  -- the event that was published is a copy of the row
  obtain ⟨m₀, hm₀⟩ := h.handed_message hl
  obtain ⟨e', he', hid', hpay', -⟩ := hm₀.row
  have hee : e' = e := Tables.event_of_id h.keys_nodup he' he (hid'.trans hid)
  have hget := (h.read_orderId hsent hread).1
  rw [← hpay', hee, hme.2.1] at hget
  exact (Option.some.inj hget).symm

/-- **Effectively once.** Whatever the queue delivers of a run, in whatever order and however
often, a consumer that acts on the first message of each order acts on messages of committed
orders as they were requested, at most once for each order and once for each order whose
event is processed; and two deliveries of a run make it act on the same messages. -/
theorem effectively_once (h : Reached .empty role tr w) (hd : Delivers tr bodies) :
    (∀ message ∈ consume bodies, ∃ p a m now, role p = .call a ∧ m ∈ w.db.committed.orders ∧ OrderOf a m ∧
      message = a.message m.id now) ∧
    ((consume bodies).map OrderMessage.orderId).Nodup ∧
    (∀ m, ∀ e ∈ w.db.committed.outboxEvents, EventOf m e → e.status = .processed →
      m.id.str ∈ (consume bodies).map OrderMessage.orderId) ∧
    ∀ bodies', Delivers tr bodies' → (consume bodies).Perm (consume bodies') := by
  refine ⟨fun message hmessage => ?_, Distinct.map_kept_nodup, fun m e he hme hst => ?_, fun bodies' hd' => ?_⟩
  · obtain ⟨event, sent, hsent, hread⟩ := (h.mem_messages hd).1 (Distinct.mem_of_mem_kept hmessage)
    exact (h.read_orderId hsent hread).2
  · obtain ⟨event, sent, message, hsent, hread, hid⟩ := h.processed_handed he hme hst
    refine Distinct.mem_map_kept.2 (List.mem_map.2 ⟨message, ?_, hid⟩)
    exact (h.mem_messages hd).2 ⟨event, sent, hsent, hread⟩
  · refine Distinct.kept_perm ?_ fun message => by rw [h.mem_messages hd, h.mem_messages hd']
    intro message hmessage message' hmessage' hid
    obtain ⟨event, sent, hsent, hread⟩ := (h.mem_messages hd).1 hmessage
    obtain ⟨event', sent', hsent', hread'⟩ := (h.mem_messages hd).1 hmessage'
    exact h.message_of_orderId hsent hsent' hread hread' hid

/-- The message of the only order is delivered twice. -/
theorem effectively_once_sample : ∃ tr w m bodies, Reached .empty sampleRole tr w ∧
    w.db.committed.orders = [m] ∧
    Delivers tr bodies ∧ bodies.length = 2 ∧ ((consume bodies).map OrderMessage.orderId).Nodup ∧
    m.id.str ∈ (consume bodies).map OrderMessage.orderId := by
  obtain ⟨tr, w, m, h, hc, hsent⟩ := sample_delivered
  have hd : Delivers tr (List.replicate 2 (Json.dumps (sampleRow (sampleTime 0)).payload)) := by
    refine ⟨fun body hbody => ?_, fun event sent hevent => ?_⟩
    · exact ⟨_, _, _, hsent, .refl _, List.eq_of_mem_replicate hbody⟩
    · obtain ⟨p, r, hl, -⟩ := hevent
      obtain ⟨m', hm'⟩ := h.handed_message hl
      obtain ⟨e, he, -, hpayload, -⟩ := hm'.row
      rw [hc] at he
      rw [List.mem_singleton.1 he] at hpayload
      exact ⟨_, hpayload ▸ .refl _, .head _⟩
  obtain ⟨-, hnodup, hprocessed, -⟩ := effectively_once h hd
  have hm : m ∈ w.db.committed.orders := by
    rw [hc]
    exact .head _
  obtain ⟨e, he, hme⟩ := exists_right h.paired hm
  have hst : e.status = .processed := by
    rw [hc] at he
    rw [List.mem_singleton.1 he]
    rfl
  exact ⟨tr, w, m, _, h, by rw [hc], hd, rfl, hnodup, hprocessed m e he hme.eventOf hst⟩

end OrdersApi
