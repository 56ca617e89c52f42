import OrdersApi.Lib.Total
import OrdersApi.Spec.Correlation

/-!
# One correlation id

What the application replies follows from how the route has ended (`serve_executes`).
A request stores no event but with the correlation id that it was given, and none when
it finds the order there (`total_request`).
-/

namespace OrdersApi

open Effect

variable {client : RequesterClient} {header : Option String}
  {body : Except (List ValidationError) CreateOrderRequest} {context : Option String}

/-! ## The reply -/

section Executes

variable {σ : Type} {env : σ → (o : Op) → Except Exc (Op.Resp o) → σ → Prop} {s s' : σ}

/-- The route and the handlers inside the middleware. -/
theorem callNext_executes {r : Except Exc HttpResponse} :
    Prog.Executes (S := effects) env (callNext client body context) s r s' ↔
      ∃ ending, RouteEnds env client context body s ending s' ∧ r = ending.answer context := by
  unfold callNext
  rcases body with errors | request
  · constructor
    · intro hx
      obtain ⟨rfl, rfl⟩ := Prog.executes_ret.1 hx
      exact ⟨.error errors, ⟨rfl, rfl⟩, rfl⟩
    · rintro ⟨ending, ⟨rfl, rfl⟩, rfl⟩
      exact .ret _ _
  · have hprog : ∀ exc : Exc, (if exc.registered then return handle context exc else throw exc : Prog HttpResponse) =
        Prog.ofExcept (if exc.registered then .ok (handle context exc) else .error exc) := by
      intro exc; split <;> rfl
    simp only [hprog]
    refine Prog.executes_recovered.trans ?_
    constructor
    · rintro ⟨result, hx, rfl⟩
      exact ⟨.ok result, ⟨result, rfl, hx⟩, by rcases result with exc | value <;> rfl⟩
    · rintro ⟨ending, ⟨result, rfl, hx⟩, rfl⟩
      exact ⟨result, hx, by rcases result with exc | value <;> rfl⟩

/-- **The reply of the application** to the way in which the route has ended. -/
theorem serve_executes {reply : Reply} :
    Prog.Executes (S := effects) env (serve client header body) s (.ok reply) s' ↔
      ∃ fresh s₁ ending, env s .uuid4 (.ok fresh) s₁ ∧
        RouteEnds env client (some (header.getD fresh.str)) body s₁ ending s' ∧
        reply = replyTo (header.getD fresh.str) (ending.answer (some (header.getD fresh.str))) := by
  unfold serve dispatch
  simp only [await, Prog.await_eq, Prog.op_bind, Prog.executes_op]
  constructor
  · rintro ⟨r, s₁, hdraw, hx⟩
    obtain ⟨wrapped, s₂, hwrapped, hreply⟩ := Prog.executes_bind.1 hx
    rcases r with exc | fresh
    · obtain ⟨rfl, rfl⟩ := Prog.executes_raise.1 hwrapped
      exact nomatch hreply.1
    · rw [Prog.ofExcept_ok, Prog.ret_bind] at hwrapped
      obtain ⟨answer, hnext, rfl⟩ := Prog.executes_handled.1 hwrapped
      obtain ⟨ending, hends, hanswer⟩ := callNext_executes.1 hnext
      refine ⟨fresh, s₁, ending, hdraw, ?_⟩
      -- `generic_error_handler` answers what was raised
      rcases answer with exc | response
      · obtain ⟨hok, rfl⟩ := Prog.executes_ret.1 hreply
        exact ⟨hends, hanswer ▸ Except.ok.inj hok⟩
      · obtain ⟨hok, rfl⟩ := Prog.executes_ret.1 hreply
        exact ⟨hends, hanswer ▸ Except.ok.inj hok⟩
  · rintro ⟨fresh, s₁, ending, hdraw, hends, rfl⟩
    have hnext := callNext_executes.2 ⟨ending, hends, rfl⟩
    refine ⟨.ok fresh, s₁, hdraw, Prog.executes_bind.2 ⟨_, s', Prog.executes_handled.2 ⟨_, hnext, rfl⟩, ?_⟩⟩
    rcases ending.answer (some (header.getD fresh.str)) with exc | response
    · exact .ret _ _
    · exact .ret _ _

end Executes

/-! ## The calls of a request -/

section Calls

variable {a : CallArgs} {calls : List (effects.Call Exc)} {o : Op} {r : Except Exc (Op.Resp o)}
  {exc : Exc} {α : Type}

/-- The events inserted have the correlation id. -/
def Payloads (a : CallArgs) (calls : List (effects.Call Exc)) : Prop :=
  ∀ model r, ⟨.insertOutboxEvent model, r⟩ ∈ calls →
    model.payload.get "correlation_id" = some a.correlationId

/-- What a request has done before a commit went through. -/
structure Uncommitted (a : CallArgs) (calls : List (effects.Call Exc)) : Prop where
  payloads : Payloads a calls
  commit : ⟨.commit, .ok ()⟩ ∉ calls

/-- What a request has done, with its result. -/
structure Done (a : CallArgs) (result : Except Exc (Order × Bool))
    (calls : List (effects.Call Exc)) : Prop where
  payloads : Payloads a calls
  existing : ∀ order, result = .ok (order, true) → ⟨.commit, .ok ()⟩ ∉ calls
  created : ∀ order, result = .ok (order, false) → ∃ model, Stored calls model

theorem Payloads.cons (h : Payloads a calls)
    (ho : ∀ model, o = .insertOutboxEvent model → model.payload.get "correlation_id" = some a.correlationId) :
    Payloads a (⟨o, r⟩ :: calls) := by
  intro model r' hmem
  rcases List.mem_cons.1 hmem with heq | hmem
  · exact ho model (Sigma.mk.inj heq).1.symm
  · exact h model r' hmem

theorem Uncommitted.cons (h : Uncommitted a calls) (hcommit : o ≠ .commit)
    (ho : ∀ model, o = .insertOutboxEvent model → model.payload.get "correlation_id" = some a.correlationId) :
    Uncommitted a (⟨o, r⟩ :: calls) := by
  refine ⟨h.payloads.cons ho, fun hmem => ?_⟩
  rcases List.mem_cons.1 hmem with heq | hmem
  · exact hcommit (Sigma.mk.inj heq).1.symm
  · exact h.commit hmem

theorem Uncommitted.error (h : Uncommitted a calls) : Done a (.error exc) calls :=
  ⟨h.payloads, nofun, nofun⟩

/-- Awaiting an operation that is no commit and inserts no other event. -/
theorem total_uncommitted {f : Op.Resp o → Prog α} {Q : Except Exc α → List (effects.Call Exc) → Prop}
    (h : Uncommitted a calls) (hcommit : o ≠ .commit)
    (ho : ∀ model, o = .insertOutboxEvent model → model.payload.get "correlation_id" = some a.correlationId)
    (herror : ∀ exc later, Uncommitted a later → Q (.error exc) later)
    (hok : ∀ v later, Uncommitted a later → later = ⟨o, .ok v⟩ :: calls → Total Records (f v) later Q) :
    Total Records (await o >>= f) calls Q := by
  have : Nonempty Exc := ⟨.integrityError⟩
  simp only [await, Prog.await_eq, Prog.op_bind]
  refine total_records.2 fun r => ?_
  rcases r with exc | v
  · exact herror exc _ (h.cons hcommit ho)
  · exact hok v _ (h.cons hcommit ho) rfl

/-- The transaction of `_create_order_with_outbox` stores the event, or it is not committed. -/
theorem total_createOrderWithOutbox (h : Uncommitted a calls) :
    Total Records (OrderService.createOrderWithOutbox a) calls fun result calls' =>
      match result with
      | .ok _ => Payloads a calls' ∧ ∃ model, Stored calls' model
      | .error _ => Uncommitted a calls' := by
  have : Nonempty Exc := ⟨.integrityError⟩
  unfold OrderService.createOrderWithOutbox OrderRepository.create OutboxRepository.create
  refine total_uncommitted h (by simp) (by simp) (fun _ _ h => h) fun orderId _ h _ => ?_
  refine total_uncommitted h (by simp) (by simp) (fun _ _ h => h) fun now _ h _ => ?_
  refine total_uncommitted h (by simp) (by simp) (fun _ _ h => h) fun eventId _ h _ => ?_
  rw [total_bind]
  refine total_uncommitted h (by simp) (by simp) (fun _ _ h => h) fun createdAt _ h _ => ?_
  refine total_uncommitted h (by simp) (by simp) (fun _ _ h => h) fun _ _ h _ => ?_
  simp only [Prog.pure_eq, total_ret]
  rw [total_bind]
  refine total_uncommitted h (by simp) (by simp) (fun _ _ h => h) fun eventCreatedAt _ h _ => ?_
  have hpayload : (OrderService.newEvent a orderId now eventId).payload.get "correlation_id" =
    some a.correlationId := rfl
  refine total_uncommitted h (by simp) (by rintro model ⟨⟩; exact hpayload) (fun _ _ h => h) fun _ later h hlater => ?_
  -- from here on there is an event to be committed
  have hinsert : ∃ model, (⟨.insertOutboxEvent model, .ok ()⟩ : effects.Call Exc) ∈ later := by
    rw [hlater]
    exact ⟨_, List.mem_cons_self⟩
  simp only [total_ret, await, Prog.await_eq, Prog.op_bind]
  refine total_records.2 fun r => ?_
  rcases r with exc | _
  · refine ⟨h.payloads.cons (by simp), fun hmem => ?_⟩
    rcases List.mem_cons.1 hmem with heq | hmem
    · cases heq
    · exact h.commit hmem
  · obtain ⟨model, hinsert⟩ := hinsert
    exact ⟨h.payloads.cons (by simp), model, List.mem_cons_of_mem _ hinsert, List.mem_cons_self⟩

theorem total_find {Q : Except Exc (Option Order) → List (effects.Call Exc) → Prop} {key : String}
    (h : Uncommitted a calls) (hQ : ∀ result later, Uncommitted a later → Q result later) :
    Total Records (OrderRepository.findByExternalId key) calls Q :=
  total_uncommitted h nofun nofun (fun exc => hQ (.error exc)) fun _ later h _ => hQ (.ok _) later h

theorem total_onInsertError (h : Uncommitted a calls) (exc : Exc) :
    Total Records (OrderService.onInsertError a exc) calls (Done a) := by
  unfold OrderService.onInsertError
  split
  · refine total_uncommitted h nofun nofun (fun _ _ h => h.error) fun _ _ h _ => ?_
    rw [total_bind]
    refine total_find h fun result later h => ?_
    rcases result with exc | found
    · exact h.error
    · cases found with
      | none => exact h.error
      | some existing => exact ⟨h.payloads, fun _ _ => h.commit, nofun⟩
  · exact h.error

theorem total_createOrder (h : Uncommitted a calls) :
    Total Records (OrderService.createOrder a) calls (Done a) := by
  have : Nonempty Exc := ⟨.integrityError⟩
  unfold OrderService.createOrder
  rw [RequesterClient.validateRequester_eq, Prog.op_bind]
  refine total_records.2 fun got => ?_
  have h := h.cons (o := .get a.client.baseUrl (RequesterClient.path a.requesterId)) (r := got) nofun nofun
  cases a.client.classify a.requesterId got with
  | error exc => exact h.error
  | ok _ =>
    simp only [Prog.ofExcept_ok, Prog.ret_bind]
    rw [total_bind]
    refine total_find h fun result later h => ?_
    rcases result with exc | found
    · exact h.error
    · cases found with
      | some existing => exact ⟨h.payloads, fun _ _ => h.commit, nofun⟩
      | none =>
        simp only
        rw [total_tryCatch, total_bind]
        refine (total_createOrderWithOutbox h).mono fun result later hdone => ?_
        rcases result with exc | ⟨order, event⟩
        · exact total_onInsertError hdone exc
        · exact ⟨hdone.1, nofun, fun _ _ => hdone.2⟩

/-- Closing the session changes nothing of what was done. -/
theorem total_request (h : Uncommitted a calls) :
    Total Records (OrderService.request a) calls (Done a) := by
  have : Nonempty Exc := ⟨.integrityError⟩
  unfold OrderService.request withSession
  rw [total_ensuring]
  refine (total_createOrder h).mono fun result later hdone => ?_
  simp only [await, Prog.await_eq, Prog.op_bind]
  refine total_records.2 fun r => ?_
  have hpayloads : Payloads a (⟨.close, r⟩ :: later) := hdone.payloads.cons nofun
  rcases r with exc | _
  · exact ⟨hpayloads, nofun, nofun⟩
  · rcases result with exc | value
    · exact ⟨hpayloads, nofun, nofun⟩
    · refine ⟨hpayloads, fun order ho hmem => ?_, fun order ho => ?_⟩
      · rcases List.mem_cons.1 hmem with heq | hmem
        · cases heq
        · exact hdone.existing order ho hmem
      · obtain ⟨model, hinsert, hcommit⟩ := hdone.created order ho
        exact ⟨model, List.mem_cons_of_mem _ hinsert, List.mem_cons_of_mem _ hcommit⟩

end Calls

/-! ## One id -/

theorem str_ne_empty (u : UUID) : u.str ≠ "" := by
  intro he
  have hlist := String.ofList_injective (he.trans (String.ofList_nil).symm)
  simp at hlist

/-- The id that the middleware sets is the request's own, unless that is absent. -/
theorem currentCorrelationId_eq {correlationId : String} (h : correlationId ≠ "") :
    currentCorrelationId (some correlationId) = correlationId := if_neg h

/-- An unexpected exception leaves `call_next`, any other ending is answered inside. -/
theorem handled_iff {ending : Ending} : ending.Handled ↔
    ∃ response, ending.answer context = .ok response := by
  rcases ending with errors | exc | value
  · exact iff_of_true trivial ⟨_, rfl⟩
  · simp only [Ending.Handled, Ending.answer]
    split
    · next hreg => exact iff_of_true hreg ⟨_, rfl⟩
    · next hreg => exact iff_of_false hreg fun ⟨_, hr⟩ => nomatch hr
  · exact iff_of_true trivial ⟨_, rfl⟩

/-- The error bodies have the current correlation id. -/
theorem answer_correlationId {ending : Ending} {response : HttpResponse}
    (h : ending.answer context = .ok response) :
    response.body.correlationId = none ∧ (∃ value, ending = .ok (.ok value)) ∨
      response.body.correlationId = some (currentCorrelationId context) := by
  rcases ending with errors | exc | value
  · cases h
    exact .inr rfl
  · simp only [Ending.answer] at h
    split at h
    · cases h
      cases exc <;> exact .inr rfl
    · cases h
  · cases h
    exact .inl ⟨rfl, value, rfl⟩

/-- What a request has stored when its route has ended. -/
theorem RouteEnds.stored {fresh : UUID} {ending : Ending} {calls : List (effects.Call Exc)}
    (h : RouteEnds Records client context body [⟨.uuid4, .ok fresh⟩] ending calls) :
    (∀ model, Stored calls model → model.payload.get "correlation_id" = some (currentCorrelationId context)) ∧
      (ending.Existing → ∀ model, ¬ Stored calls model) ∧
      ∀ order, ending = .ok (.ok (order, false)) → ∃ model, Stored calls model := by
  rcases body with errors | request
  · obtain ⟨rfl, rfl⟩ := h
    exact ⟨fun model hstored => by simp [Stored] at hstored, nofun, nofun⟩
  · obtain ⟨result, rfl, hx⟩ := h
    have hstart : Uncommitted (callArgs client context request) [⟨.uuid4, .ok fresh⟩] :=
      ⟨fun model r hmem => by simp at hmem, by simp⟩
    have hdone := (total_request hstart).executes.2 _ _ hx
    refine ⟨fun model hstored => hdone.payloads model _ hstored.1, fun hexisting model hstored => ?_, ?_⟩
    · rcases result with exc | ⟨order, existing⟩
      · exact hexisting.elim
      · have hexisting : existing = true := hexisting
        exact hdone.existing order (by rw [hexisting]) hstored.2
    · exact fun order horder => hdone.created order (Except.ok.inj horder)

/-- With an empty header the bodies and the event have `unknown`. -/
theorem correlated_empty_iff {fresh : UUID} {ending : Ending} {calls : List (effects.Call Exc)}
    {response : HttpResponse}
    (hends : RouteEnds Records client (some "") body [⟨.uuid4, .ok fresh⟩] ending calls)
    (hanswer : ending.answer (some "") = .ok response) :
    Correlated (some "") ⟨response, some ""⟩ calls ↔ ending.Existing := by
  obtain ⟨hpayload, hexisting, hcreated⟩ := hends.stored
  constructor
  · rintro ⟨id, hid, hbody, hstored, -⟩
    obtain rfl := Option.some.inj hid
    rcases answer_correlationId hanswer with ⟨-, ⟨order, existing⟩, rfl⟩ | hsome
    -- a created order has an event with `unknown`, an existing one has none
    · cases existing with
      | true => exact rfl
      | false =>
        obtain ⟨model, hmodel⟩ := hcreated order rfl
        exact nomatch (hpayload model hmodel).symm.trans (hstored model hmodel)
    · exact nomatch hbody _ hsome
  · intro hex
    have hown : ∀ own, some "" = some own → own ≠ "" → "" = own :=
      fun own howm _ => Option.some.inj howm
    refine ⟨"", rfl, ?_, fun model hmodel => absurd hmodel (hexisting hex model), hown⟩
    rcases ending with errors | exc | value
    · exact hex.elim
    · exact hex.elim
    · cases hanswer
      nofun

/-- Any other header is the one id, as is the fresh one without a header. -/
theorem correlated_of_ne_empty {fresh : UUID} {ending : Ending} {calls : List (effects.Call Exc)}
    {response : HttpResponse} (hheader : header ≠ some "")
    (hends : RouteEnds Records client (some (header.getD fresh.str)) body [⟨.uuid4, .ok fresh⟩] ending calls)
    (hanswer : ending.answer (some (header.getD fresh.str)) = .ok response) :
    Correlated header ⟨response, some (header.getD fresh.str)⟩ calls := by
  have hne : header.getD fresh.str ≠ "" := by
    rcases header with - | own
    · exact str_ne_empty fresh
    · exact fun h => hheader (congrArg some h)
  refine ⟨_, rfl, ?_, ?_, fun own howm _ => by rw [howm]; rfl⟩
  · intro id hid
    rcases answer_correlationId hanswer with ⟨hnone, -⟩ | hsome
    · exact nomatch hnone.symm.trans hid
    · rw [currentCorrelationId_eq hne] at hsome
      exact Option.some.inj (hid.symm.trans hsome)
  · intro model hmodel
    rw [hends.stored.1 model hmodel, currentCorrelationId_eq hne]

/-- **One correlation id per request**: whatever the operations of a request to
`POST /orders` give, there is one id everywhere if and only if no unexpected exception
leaves the route, and an empty header comes only with an order that is there already. -/
theorem one_correlation_id {reply : Reply} {calls : List (effects.Call Exc)}
    (h : Prog.Executes (S := effects) Records (serve client header body) [] (.ok reply) calls) :
    ∃ fresh ending, RouteEnds Records client (some (header.getD fresh.str)) body [⟨.uuid4, .ok fresh⟩] ending calls ∧
      (Correlated header reply calls ↔ ending.Handled ∧ (header = some "" → ending.Existing)) := by
  obtain ⟨fresh, s₁, ending, rfl, hends, rfl⟩ := serve_executes.1 h
  refine ⟨fresh, ending, hends, ?_⟩
  rcases hanswer : ending.answer (some (header.getD fresh.str)) with exc | response
  · -- `generic_error_handler` replies, and sets no header
    refine iff_of_false (fun ⟨_, hnone, _⟩ => nomatch hnone) fun hcond => ?_
    obtain ⟨response, hresponse⟩ := handled_iff.1 hcond.1
    exact nomatch hanswer.symm.trans hresponse
  · rw [and_iff_right (handled_iff.2 ⟨response, hanswer⟩)]
    by_cases hheader : header = some ""
    · subst hheader
      rw [imp_iff_right rfl]
      exact correlated_empty_iff hends hanswer
    · exact iff_of_true (correlated_of_ne_empty hheader hends hanswer) fun he => absurd he hheader

section Sample

def sampleServe (header : String) : Prog Reply :=
  serve ⟨"http://requesters:8080", "3.0"⟩ (some header)
    (.ok ⟨"ORD-1", "REQ-1", "desc", by decide, by decide, by decide⟩)

/-- The lookup of the order fails. -/
def sampleCalls : List (effects.Call Exc) :=
  [⟨.close, .ok ()⟩, ⟨.selectOrder "ORD-1", .error .databaseError⟩,
    ⟨.get "http://requesters:8080" "/requesters/REQ-1", .ok ⟨200, ""⟩⟩, ⟨.uuid4, .ok ⟨0⟩⟩]

def sampleReply : Reply := ⟨⟨500, .error "Erro interno do servidor." "abc-123"⟩, none⟩

theorem sample_fails :
    Prog.Executes (S := effects) Records (sampleServe "abc-123") [] (.ok sampleReply) sampleCalls := by
  refine Prog.executes_op.2 ⟨.ok (⟨0⟩ : UUID), _, rfl, ?_⟩
  refine Prog.executes_op.2 ⟨.ok (⟨200, ""⟩ : Response), _, rfl, ?_⟩
  refine Prog.executes_op.2 ⟨.error .databaseError, _, rfl, ?_⟩
  refine Prog.executes_op.2 ⟨.ok (), _, rfl, ?_⟩
  exact .ret _ _

/-- Here the reply of `generic_error_handler` has no header. -/
theorem one_correlation_id_sample : ∃ fresh ending,
    RouteEnds Records ⟨"http://requesters:8080", "3.0"⟩ (some ((some "abc-123").getD (UUID.str fresh)))
      (.ok ⟨"ORD-1", "REQ-1", "desc", by decide, by decide, by decide⟩)
      [⟨.uuid4, .ok fresh⟩] ending sampleCalls ∧
    (Correlated (some "abc-123") sampleReply sampleCalls ↔
      ending.Handled ∧ ((some "abc-123") = some "" → ending.Existing)) :=
  one_correlation_id sample_fails

/-- **Not one id**: an unexpected exception drops the header, and with an empty header
the error body says `unknown`. -/
theorem correlation_id_lost :
    (Prog.Executes (S := effects) Records (sampleServe "abc-123") [] (.ok sampleReply) sampleCalls ∧
      ¬ Correlated (some "abc-123") sampleReply sampleCalls) ∧
    ∃ reply calls, Prog.Executes (S := effects) Records
      (serve ⟨"http://requesters:8080", "3.0"⟩ (some "") (.error [])) [] (.ok reply) calls ∧
      ¬ Correlated (some "") reply calls := by
  refine ⟨⟨sample_fails, ?_⟩, ⟨⟨400, .invalid "Dados da requisição inválidos." [] "unknown"⟩, some ""⟩,
    [⟨.uuid4, .ok ⟨0⟩⟩], Prog.executes_op.2 ⟨.ok (⟨0⟩ : UUID), _, rfl, .ret _ _⟩, ?_⟩
  · rintro ⟨id, hid, -⟩
    cases hid
  · rintro ⟨id, hid, hbody, -⟩
    cases hid
    exact absurd (hbody "unknown" rfl) (by decide)

end Sample

end OrdersApi
