import OrdersApi.Lib.Simulation
import OrdersApi.Proof.Api
import OrdersApi.Proof.Storable
import OrdersApi.Spec.Session

/-!
# Requests one after the other

Undisturbed, the API is a shop (`http_session`): it answers every request, each answer and
the orders after it are those of `Shop`, and so repeating a request that has succeeded
gives 200 with the body of the first answer.
-/

namespace OrdersApi

open TxStore Trace Effect

/-! ## The shop -/

section Shop

variable {client : RequesterClient} {catalog catalog' catalog₀ : Catalog}
  {x y : Post × HttpResponse} {key : String}
  {order : OrderResponse} {tr later earlier : List (Post × HttpResponse)}

theorem Post.key_eq {post : Post} {request : CreateOrderRequest} (h : post.body = .ok request) :
    post.key = some request.externalOrderId := by
  unfold Post.key
  rw [h]

/-- What the requester service refuses is no success. -/
theorem verdict_error {post : Post} {request : CreateOrderRequest} {e : Exc}
    (h : post.verdict client request = .error e)
    (context : Option String) : ¬ (handle context e).IsSuccess := by
  have herr : 400 ≤ (handle context e).statusCode := by
    refine handle_error context ?_
    rintro key rfl
    exact httpGet_not_duplicate _ _ (classify_duplicate h)
  rintro ⟨-, hlt⟩
  omega

/-- **A success shows an order in the catalog**, a new one or with 200 an old one. -/
theorem Shop.success (h : Shop client catalog x catalog') (hs : x.2.IsSuccess) : ∃ key order,
    x.1.key = some key ∧ catalog' key = some order ∧ x.2.body = .order order ∧
      (catalog key = none ∨ catalog key = some order ∧ x.2.statusCode = 200) := by
  cases h with
  | invalid => exact absurd hs.2 (by decide : ¬ 400 < 300)
  | refused _ hreq => exact absurd hs (verdict_error hreq _)
  | unreadable => exact absurd hs.2 (by decide : ¬ 500 < 300)
  | unwritable => exact absurd hs.2 (by decide : ¬ 500 < 300)
  | existing hbody _ _ hfound => exact ⟨_, _, Post.key_eq hbody, hfound, rfl, .inr ⟨hfound, rfl⟩⟩
  | created hbody _ _ habs => exact ⟨_, _, Post.key_eq hbody, Function.update_self .., rfl, .inl habs⟩

/-- What is in the catalog stays. -/
theorem Shop.keeps (h : Shop client catalog x catalog') (hk : catalog key = some order) :
    catalog' key = some order := by
  cases h with
  | created _ _ _ habs =>
    rw [Function.update_of_ne]
    · exact hk
    · rintro rfl
      cases habs.symm.trans hk
  | _ => exact hk

theorem Shop.kept (h : Run (Shop client) catalog₀ tr catalog) (hk : catalog₀ key = some order) :
    catalog key = some order := by
  induction h with
  | init => exact hk
  | step _ hs ih => exact hs.keeps ih

/-- **A success repeated is 200 with the same body.** -/
theorem Shop.repeated (h : Run (Shop client) catalog₀ (later ++ x :: earlier) catalog)
    (hx : x.2.IsSuccess)
    (hy : y ∈ later) (hkey : y.1.key = x.1.key) (hsuccess : y.2.IsSuccess) : y.2 = ⟨200, x.2.body⟩ := by
  obtain ⟨after, between, rfl⟩ := List.append_of_mem hy
  rw [List.append_assoc] at h
  obtain ⟨catalog₃, hrun, -⟩ := h.split
  cases hrun with
  | step hrun hstep =>
    obtain ⟨catalog₂, hfirst, hbetween⟩ := hrun.split
    cases hfirst with
    | step _ hfirst =>
      obtain ⟨key, order, hk, hcat, hbody, -⟩ := hfirst.success hx
      obtain ⟨key', order', hk', -, hbody', hold⟩ := hstep.success hsuccess
      have hsame : key' = key := Option.some.inj (hk'.symm.trans (hkey.trans hk))
      rw [hsame, Shop.kept hbetween hcat] at hold
      -- the order was in the catalog already
      obtain ⟨hold, hstatus⟩ := hold.resolve_left nofun
      rw [hbody, Option.some.inj hold, ← hbody', ← hstatus]

end Shop

/-! ## The tables -/

section Tables

variable {P : Type} {db : Db P} {a : CallArgs} {p : P}

/-- A new order is entered into the catalog. -/
theorem catalog_append {t : Tables} {m : OrderModel} {events : List OutboxEventModel}
    (h : t.findOrder m.externalOrderId = none) :
    (⟨t.orders ++ [m], events⟩ : Tables).catalog =
      Function.update t.catalog m.externalOrderId (some m.toEntity.response) := by
  funext key
  unfold Tables.findOrder at h
  unfold Tables.catalog Tables.findOrder
  rw [List.find?_append]
  by_cases hk : key = m.externalOrderId
  · subst hk
    rw [h, Function.update_self]
    simp
  · have hm : [m].find? (fun model => model.externalOrderId = key) = none := by simp [Ne.symm hk]
    rw [hm, Option.or_none, Function.update_of_ne hk]

/-- Fewer keys than UUIDs leave a UUID. -/
theorem exists_unused (hidle : ∀ q, db.session q = .idle) (hroom : Roomy db) : ∃ u, Unused db u := by
  by_contra hno
  have hused : ∀ u, ∃ k ∈ db.committed.keys, k = .orderId u ∨ k = .eventId u := by
    intro u
    by_contra hu
    push Not at hu
    refine hno ⟨u, fun k hk => ⟨fun hmem => ?_, fun q => ?_⟩⟩
    · exact hk.elim (hu k hmem).1 (hu k hmem).2
    · rw [hidle q]
      exact List.not_mem_nil
  choose key hmem hkey using hused
  -- different UUIDs have different keys
  let keys : Fin (2 ^ 128) → Lock := fun i => key ⟨⟨i⟩⟩
  have hinj : Function.Injective keys := by
    intro i j hij
    have hi := hkey ⟨⟨i⟩⟩
    have hj := hkey ⟨⟨j⟩⟩
    have hij : key ⟨⟨i⟩⟩ = key ⟨⟨j⟩⟩ := hij
    rw [hij] at hi
    rcases hi with hi | hi <;> rcases hj with hj | hj <;> rw [hi] at hj <;> cases hj <;> rfl
  have hsub : Finset.univ.image keys ⊆ db.committed.keys.toFinset := by
    intro k hk
    obtain ⟨i, -, rfl⟩ := Finset.mem_image.1 hk
    exact List.mem_toFinset.2 (hmem _)
  have hcard := (Finset.card_le_card hsub).trans (List.toFinset_card_le _)
  rw [Finset.card_image_of_injective _ hinj, Finset.card_univ, Fintype.card_fin] at hcard
  unfold Roomy at hroom
  omega

/-- A calm database without the key is ready for the order. -/
theorem Calm.clear (h : Calm db) (hroom : Roomy db)
    (hnone : db.committed.findOrder a.externalOrderId = none) :
    Clear a p db where
  usable := by rw [h.idle p]; trivial
  writes := by rw [h.idle p]; rfl
  key := findOrder_none hnone
  free q _ := by rw [h.idle q]; exact List.not_mem_nil
  fresh := exists_unused h.idle hroom

theorem Calm.consistent (h : Calm db) : db.Consistent schema := by
  have hdb : db = ⟨db.committed, fun _ => .idle⟩ := by
    rw [← funext h.idle]
  rw [hdb]
  exact Store.consistent_idle h.unique

end Tables

/-! ## The call -/

section Call

variable {P : Type} [DecidableEq P] {db db' : Db P} {p : P} {client : RequesterClient} {post : Post}
  {request : CreateOrderRequest} {answer : HttpResponse}

section Cases

variable {a : CallArgs} {response : Response} {m : OrderModel}

theorem typed_refusedRequester {e : Exc}
    (h : a.client.classify a.requesterId (httpGet (RequesterClient.path a.requesterId) (.ok response)) = .error e) :
    Total (Typed response p) (OrderService.createOrder a) db fun result db' => result = .error e ∧
    db' = db := by
  unfold OrderService.createOrder
  rw [RequesterClient.validateRequester_eq, Prog.op_bind, typed_get, h]
  exact ⟨rfl, rfl⟩

theorem typed_unreadableKey {b : Bool}
    (h : a.client.classify a.requesterId (httpGet (RequesterClient.path a.requesterId) (.ok response)) = .ok b)
    (hkey : storable a.externalOrderId = false) :
    Total (Typed response p) (OrderService.createOrder a) db fun result db' =>
      result = .error .databaseError ∧ db'.committed = db.committed := by
  unfold OrderService.createOrder OrderRepository.findByExternalId
  rw [RequesterClient.validateRequester_eq, Prog.op_bind, typed_get, h]
  simp only [Prog.ofExcept_ok, Prog.ret_bind, await, Prog.await_eq, Prog.op_bind]
  refine typed_refused rfl hkey fun db' hdb' => ?_
  exact ⟨rfl, hdb'⟩

theorem typed_foundOrder {b : Bool}
    (h : a.client.classify a.requesterId (httpGet (RequesterClient.path a.requesterId) (.ok response)) = .ok b)
    (hkey : storable a.externalOrderId = true) (hcalm : Calm db)
    (hfound : db.committed.findOrder a.externalOrderId = some m) :
    Total (Typed response p) (OrderService.createOrder a) db fun result db' =>
      result = .ok (m.toEntity, true) ∧ db'.committed = db.committed := by
  have hidle : db.session p = .idle := hcalm.idle p
  have husable : (db.session p).Usable := by
    rw [hidle]
    trivial
  have hview : db.view schema p = db.committed := by
    refine view_of_nil (.inr ?_)
    rw [hidle]
    rfl
  unfold OrderService.createOrder OrderRepository.findByExternalId
  rw [RequesterClient.validateRequester_eq, Prog.op_bind, typed_get, h]
  simp only [Prog.ofExcept_ok, Prog.ret_bind, await, Prog.await_eq, Prog.op_bind]
  rw [typed_select hkey husable, hview, hfound]
  exact ⟨rfl, rfl⟩

end Cases

/-- A requester that is accepted was asked for, and the service answered 2xx. -/
theorem verdict_ok {b : Bool} (h : post.verdict client request = .ok b) : b = true ∧
    printableUrl (RequesterClient.path request.requesterId) = true ∧
      200 ≤ post.response.statusCode ∧ post.response.statusCode < 300 := by
  unfold Post.verdict httpGet at h
  split_ifs at h with hurl
  · have h : client.classify request.requesterId (.ok post.response) = .ok b := h
    rw [classify_ok] at h
    split_ifs at h with _ _ hsuccess
    cases h
    exact ⟨rfl, hurl, hsuccess⟩
  · obtain ⟨reason, he⟩ := classify_error client request.requesterId
      ⟨.invalidURL, "Invalid non-printable ASCII character in URL"⟩
    rw [he] at h
    split_ifs at h

/-- What the transaction of a new key leaves is the shop's. -/
theorem Settles.shop {t t' : Tables} {result : Except Exc (Order × Bool)}
    (h : Settles (callArgs client post.context request) t result t') (hbody : post.body = .ok request)
    (hverdict : post.verdict client request = .ok true) (hkey : storable request.externalOrderId = true)
    (hnone : t.findOrder request.externalOrderId = none) :
    Shop client t.catalog (post, respond post.context result) t'.catalog := by
  have habs : t.catalog request.externalOrderId = none := by
    unfold Tables.catalog
    rw [hnone]
    rfl
  have htexts : (storable request.externalOrderId && storable request.description &&
      storable (currentCorrelationId post.context)) =
        (storable request.description && storable (currentCorrelationId post.context)) := by
    rw [hkey, Bool.true_and]
  unfold Settles at h
  split at h
  · rename_i hcond
    obtain ⟨order, event, now, rfl, rfl, horder, -⟩ := h
    have hordered : request.Ordered order.toEntity.response := by
      rw [horder]
      exact ⟨rfl, rfl, rfl, rfl⟩
    have hkeys : order.externalOrderId = request.externalOrderId := by rw [horder]; rfl
    rw [catalog_append (by rw [hkeys]; exact hnone), hkeys]
    exact .created hbody hverdict hkey habs (htexts.symm.trans hcond) hordered
  · rename_i hcond
    obtain ⟨rfl, rfl⟩ := h
    exact .unwritable hbody hverdict hkey habs (htexts.symm.trans (Bool.not_eq_true _ ▸ hcond))

/-- **`create_order` answers as the shop does.** -/
theorem typed_answer (hcalm : Calm db) (hroom : Roomy db) (hbody : post.body = .ok request) :
    Total (Typed post.response p) (OrderService.createOrder (callArgs client post.context request)) db
      fun result db' => Shop client db.committed.catalog (post, respond post.context result) db'.committed.catalog := by
  cases hverdict : post.verdict client request with
  | error e =>
    refine (typed_refusedRequester (a := callArgs client post.context request) hverdict).mono ?_
    rintro result db' ⟨rfl, rfl⟩
    exact .refused hbody hverdict
  | ok b =>
    obtain ⟨rfl, hurl, hsuccess⟩ := verdict_ok hverdict
    cases hkey : storable request.externalOrderId with
    | false =>
      refine (typed_unreadableKey (a := callArgs client post.context request) hverdict hkey).mono ?_
      rintro result db' ⟨rfl, hsame⟩
      rw [hsame]
      exact .unreadable hbody hverdict hkey
    | true =>
      cases hfound : db.committed.findOrder request.externalOrderId with
      | some m =>
        have hcatalog : db.committed.catalog request.externalOrderId = some m.toEntity.response := by
          unfold Tables.catalog
          rw [hfound]
          rfl
        refine (typed_foundOrder (a := callArgs client post.context request) hverdict hkey hcalm hfound).mono ?_
        rintro result db' ⟨rfl, hsame⟩
        rw [hsame]
        exact .existing hbody hverdict hkey hcatalog
      | none =>
        have hclear : Clear (callArgs client post.context request) p db := hcalm.clear hroom hfound
        refine (typed_createOrder hclear request.externalOrderId_length.2 request.requesterId_length.2 hurl
          hsuccess).mono ?_
        intro result db' hdone
        exact hdone.shop hbody hverdict hkey hfound

/-- And closes its session. -/
theorem typed_serve (hcalm : Calm db) (hroom : Roomy db) (hbody : post.body = .ok request) :
    Total (Typed post.response p) (OrderService.request (callArgs client post.context request)) db
      fun result db' => Shop client db.committed.catalog (post, respond post.context result) db'.committed.catalog ∧
        Calm db' := by
  have hkeep : ∀ (s : Db P) (o : Op) (r : Except Exc (Op.Resp o)) (s' : Db P),
      (s.Consistent schema ∧ ∀ q, q ≠ p → s.session q = .idle) → Typed post.response p s o r s' →
        s'.Consistent schema ∧ ∀ q, q ≠ p → s'.session q = .idle := by
    rintro s o r s' ⟨hc, hothers⟩ ht
    have htrans := ht.exec.trans hc
    exact ⟨htrans.consistent hc, fun q hq => (htrans.other hq).trans (hothers q hq)⟩
  unfold OrderService.request withSession
  rw [total_ensuring]
  refine ((typed_answer hcalm hroom hbody).keeps ⟨hcalm.consistent, fun q _ => hcalm.idle q⟩ hkeep).mono ?_
  rintro result db' ⟨hshop, hc, hothers⟩
  simp only [await, Prog.await_eq, Prog.op_bind]
  rw [typed_close]
  have hcalm' : Calm (db'.rollback p) := by
    refine ⟨fun q => ?_, hc.unique⟩
    by_cases hq : q = p
    · rw [hq, Store.rollback_self]
    · rw [Store.rollback_other hq]
      exact hothers q hq
  rcases result with exc | value <;> exact ⟨hshop, hcalm'⟩

/-- **A request is answered**, and every answer is the shop's. -/
theorem serves (client : RequesterClient) (p : P) (hcalm : Calm db) (hroom : Roomy db) (post : Post) :
    (∃ answer db', Serves client p db (post, answer) db') ∧
    ∀ answer db', Serves client p db (post, answer) db' →
      Shop client db.committed.catalog (post, answer) db'.committed.catalog ∧ Calm db' := by
  have hiff : ∀ answer db', Serves client p db (post, answer) db' ↔
      Prog.Executes (S := effects) (Typed post.response p)
      (postOrders client post.context post.body) db (.ok answer) db' := fun _ _ => Iff.rfl
  simp only [hiff]
  cases hbody : post.body with
  | error errors =>
    refine ⟨⟨validationErrorHandler post.context errors, db, .ret _ _⟩, fun answer db' h => ?_⟩
    obtain ⟨hanswer, rfl⟩ := Prog.executes_ret.1 h
    rw [Except.ok.inj hanswer]
    exact ⟨.invalid hbody, hcalm⟩
  | ok request =>
    obtain ⟨⟨result, db', hx⟩, hall⟩ := (typed_serve hcalm hroom hbody).executes
    refine ⟨⟨_, db', (postOrders_executes client post.context).2 ⟨result, hx, rfl⟩⟩, fun answer db' h => ?_⟩
    obtain ⟨result, hx, hanswer⟩ := (postOrders_executes client post.context).1 h
    rw [Except.ok.inj hanswer]
    exact hall result db' hx

/-- **The API is a shop.** Undisturbed requests, in any order and with any bodies, are each
answered; the answers and the orders after them are those of the shop, with the catalog that
the tables hold at the start; and a request that has succeeded is from then on answered, when
it succeeds, with 200 and the body of its first answer. -/
theorem http_session {db₀ : Db P} {tr : List (Post × HttpResponse)} (hcalm : Calm db₀)
    (h : Run (Guarded (Serves client p) fun db _ => Roomy db) db₀ tr db) :
    Run (Shop client) db₀.committed.catalog tr db.committed.catalog ∧
    (Roomy db → ∀ post, ∃ answer db', Serves client p db (post, answer) db') ∧
    ∀ later x earlier, tr = later ++ x :: earlier → x.2.IsSuccess →
      ∀ y ∈ later, y.1.key = x.1.key → y.2.IsSuccess → y.2 = ⟨200, x.2.body⟩ := by
  have hmain : Run (Shop client) db₀.committed.catalog tr db.committed.catalog ∧ Calm db := by
    refine h.invariant (I := fun tr db => Run (Shop client) db₀.committed.catalog tr db.committed.catalog ∧ Calm db)
      ⟨.init, hcalm⟩ ?_
    rintro tr db ⟨post, answer⟩ db' - ⟨hrun, hcalm⟩ ⟨hserves, hroom⟩
    obtain ⟨hshop, hcalm'⟩ := (serves client p hcalm hroom post).2 answer db' hserves
    exact ⟨hrun.step hshop, hcalm'⟩
  obtain ⟨hrun, hcalm'⟩ := hmain
  refine ⟨hrun, fun hroom post => (serves client p hcalm' hroom post).1, ?_⟩
  rintro later x earlier rfl hx y hy hkey hsuccess
  exact Shop.repeated hrun hx hy hkey hsuccess

end Call

section Sample

theorem desc_length : 1 ≤ "desc".length ∧ "desc".length ≤ 2000 := by decide

/-- A plain request. -/
def samplePost : Post where
  body := .ok (sampleDescribed "desc" desc_length)
  context := some "corr-123"
  response := ⟨200, ""⟩

theorem samplePost_success {catalog catalog' : Catalog} {answer : HttpResponse}
    (h : Shop sampleClient catalog (samplePost, answer) catalog') : answer.IsSuccess := by
  have hbody : samplePost.body = .ok (sampleDescribed "desc" desc_length) := rfl
  have hverdict : samplePost.verdict sampleClient (sampleDescribed "desc" desc_length) = .ok true := rfl
  cases h with
  | invalid hno => cases hbody.symm.trans hno
  | refused hok hno =>
    cases hbody.symm.trans hok
    cases hverdict.symm.trans hno
  | unreadable hok _ hno =>
    cases hbody.symm.trans hok
    exact absurd hno (by decide)
  | existing => exact ⟨(by decide : 200 ≤ 200), (by decide : 200 < 300)⟩
  | unwritable hok _ _ _ hno =>
    cases hbody.symm.trans hok
    exact absurd hno (by decide)
  | created => exact ⟨(by decide : 200 ≤ 201), (by decide : 201 < 300)⟩

/-- After the request there is one order. -/
theorem samplePost_room {answer : HttpResponse} {db : Db Unit}
    (h : Serves sampleClient () sampleEmpty (samplePost, answer) db) : Roomy db := by
  obtain ⟨result, hx, -⟩ := (postOrders_executes sampleClient (some "corr-123")).1 h
  have hsettles := (typed_request (sample_clear (sampleDescribed "desc" desc_length) "corr-123")
    (by decide) (by decide) (by decide) ⟨(by decide : 200 ≤ 200), (by decide : 200 < 300)⟩).executes.2 result db hx
  obtain ⟨order, event, now, -, ht, -⟩ := hsettles.creates_iff.2 ⟨by decide, by decide, by decide⟩
  unfold Roomy
  rw [ht]
  exact (by decide : 3 < 2 ^ 128)

/-- The request is posted twice. -/
theorem http_session_sample : ∃ answer answer' db,
    Run (Guarded (Serves sampleClient ()) fun db _ => Roomy db) sampleEmpty
      [(samplePost, answer'), (samplePost, answer)] db ∧ answer' = ⟨200, answer.body⟩ := by
  have hcalm : Calm sampleEmpty := ⟨fun _ => rfl, List.nodup_nil⟩
  have hroom : Roomy sampleEmpty := (by decide : 0 < 2 ^ 128)
  have h0 : Run (Guarded (Serves sampleClient ()) fun db _ => Roomy db) sampleEmpty [] sampleEmpty := .init
  obtain ⟨answer, db, hserves⟩ := (http_session hcalm h0).2.1 hroom samplePost
  have h1 := h0.step ⟨hserves, hroom⟩
  obtain ⟨answer', db', hserves'⟩ := (http_session hcalm h1).2.1 (samplePost_room hserves) samplePost
  have h2 := h1.step ⟨hserves', samplePost_room hserves⟩
  obtain ⟨hshop, -, hrepeated⟩ := http_session hcalm h2
  cases hshop with
  | step hshop hsecond =>
    cases hshop with
    | step _ hfirst =>
      exact ⟨answer, answer', db', h2, hrepeated [(samplePost, answer')] (samplePost, answer) [] rfl
        (samplePost_success hfirst) (samplePost, answer') (.head _) rfl (samplePost_success hsecond)⟩

end Sample

end OrdersApi
