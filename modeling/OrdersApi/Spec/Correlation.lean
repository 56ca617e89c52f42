import OrdersApi.Spec.Api

/-!
# The correlation id (`app/observability/middleware.py`, `app/main.py`)

`serve` is `POST /orders` with the middleware. The handlers of the domain exceptions and
of a refused body run inside it, `generic_error_handler` runs outside. The context
variable is what `dispatch` passes on and leaves behind.
-/

namespace OrdersApi

/-- A response with the value of its `X-Correlation-ID` header. -/
structure Reply where
  response : HttpResponse
  correlationId : Option String
deriving DecidableEq

/-- The exception has a handler of its own, not that of `Exception`. -/
def Exc.registered : Exc → Bool
  | requesterNotFound _ | requesterServiceUnavailable _ _ | duplicateOrder _ => true
  | _ => false

section Serve

variable (client : RequesterClient) (header : Option String)
  (body : Except (List ValidationError) CreateOrderRequest)

/-- What `call_next` runs: the route, and the handlers inside the middleware. -/
def callNext (context : Option String) : Prog HttpResponse :=
  match body with
  | .error errors => return validationErrorHandler context errors
  | .ok request => Effect.Prog.tryCatch
      (do
        let value ← OrderService.request (callArgs client context request)
        return created value)
      fun exc => if exc.registered then return handle context exc else throw exc

/-- `CorrelationIdMiddleware.dispatch`: the context variable afterwards, and what it
returns or raises. A UUID is drawn whether or not the header is there. -/
def dispatch (next : Option String → Prog HttpResponse) : Prog (Option String × Except Exc Reply) := do
  let fresh ← await .uuid4
  let correlationId := header.getD fresh.str
  Effect.Prog.tryCatch
    (do
      let response ← next (some correlationId)
      return (some correlationId, .ok ⟨response, some correlationId⟩))
    fun exc => return (some correlationId, .error exc)

/-- The application. -/
def serve : Prog Reply := do
  match ← dispatch header (callNext client body) with
  | (_, .ok reply) => return reply
  | (context, .error _) => return ⟨genericErrorHandler context, none⟩

end Serve

/-! ## One id everywhere -/

/-- The `correlation_id` of an error body. -/
def Body.correlationId : Body → Option String
  | order _ => none
  | error _ correlationId | invalid _ _ correlationId => some correlationId

/-- The request has stored the event: the insert and the commit after it went through. -/
def Stored (calls : List (effects.Call Exc)) (model : OutboxEventModel) : Prop :=
  ⟨.insertOutboxEvent model, .ok ()⟩ ∈ calls ∧ ⟨.commit, .ok ()⟩ ∈ calls

/-- The reply to a request with the header `header` carries an id, the same as the error
body and the stored event, and the request's own if that has one that is not empty. -/
def Correlated (header : Option String) (reply : Reply) (calls : List (effects.Call Exc)) : Prop :=
  ∃ correlationId, reply.correlationId = some correlationId ∧
    (∀ id, reply.response.body.correlationId = some id → id = correlationId) ∧
    (∀ model, Stored calls model → model.payload.get "correlation_id" = some correlationId) ∧
    (∀ own, header = some own → own ≠ "" → correlationId = own)

/-! ## Outcomes -/

/-- How the route ends: with the errors of the body, or with a result of `create_order`. -/
abbrev Ending := Except (List ValidationError) (Except Exc (Order × Bool))

/-- No unexpected exception. -/
def Ending.Handled : Ending → Prop
  | .ok (.error exc) => exc.registered
  | _ => True

/-- An order that was there before (the idempotent case). -/
def Ending.Existing : Ending → Prop
  | .ok (.ok value) => value.2
  | _ => False

/-- What `call_next` returns or raises. -/
def Ending.answer (context : Option String) : Ending → Except Exc HttpResponse
  | .error errors => .ok (validationErrorHandler context errors)
  | .ok (.ok value) => .ok (created value)
  | .ok (.error exc) => if exc.registered then .ok (handle context exc) else .error exc

/-- The reply of the application when `call_next` returns or raises that. -/
def replyTo (correlationId : String) : Except Exc HttpResponse → Reply
  | .ok response => ⟨response, some correlationId⟩
  | .error _ => ⟨genericErrorHandler (some correlationId), none⟩

/-- The route ends with `ending`, in an environment of operations. -/
def RouteEnds {σ : Type} (env : σ → (o : Op) → Except Exc (Op.Resp o) → σ → Prop)
    (client : RequesterClient)
    (context : Option String) : Except (List ValidationError) CreateOrderRequest → σ → Ending → σ → Prop
  | .error errors, s, ending, s' => ending = .error errors ∧ s' = s
  | .ok request, s, ending, s' => ∃ result, ending = .ok result ∧
      Effect.Prog.Executes (S := effects) env (OrderService.request (callArgs client context request)) s result s'

end OrdersApi
