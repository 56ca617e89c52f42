import OrdersApi.Spec.Service

/-!
# The HTTP API (`app/api`, `app/main.py`)

`postOrders` is the route `POST /orders` with the exception handlers of the
application around it. `respond` is the response to a result of `create_order`
(`postOrders_executes`). The correlation id is the value of the context variable that
the middleware sets.
-/

namespace OrdersApi

/-- A request body that Pydantic has accepted. -/
structure CreateOrderRequest where
  externalOrderId : String
  requesterId : String
  description : String
  externalOrderId_length : 1 ≤ externalOrderId.length ∧ externalOrderId.length ≤ 255
  requesterId_length : 1 ≤ requesterId.length ∧ requesterId.length ≤ 255
  description_length : 1 ≤ description.length ∧ description.length ≤ 2000

structure OrderResponse where
  id : UUID
  externalOrderId : String
  requesterId : String
  description : String
  status : String
  createdAt : DateTime
deriving DecidableEq

/-- The `OrderResponse` of the route. -/
def Order.response (order : Order) : OrderResponse where
  id := order.id
  externalOrderId := order.externalOrderId
  requesterId := order.requesterId
  description := order.description
  status := order.status
  createdAt := order.createdAt

/-- An entry of `RequestValidationError.errors()`. -/
structure ValidationError where
  loc : List String
  msg : String
deriving DecidableEq

structure FieldError where
  field : String
  message : String
deriving DecidableEq

inductive Body
  | order (order : OrderResponse)
  | error (detail correlationId : String)
  | invalid (detail : String) (errors : List FieldError) (correlationId : String)
deriving DecidableEq

structure HttpResponse where
  statusCode : ℕ
  body : Body
deriving DecidableEq

def HttpResponse.IsSuccess (response : HttpResponse) : Prop :=
  200 ≤ response.statusCode ∧ response.statusCode < 300

/-- `get_correlation_id() or "unknown"`. -/
def currentCorrelationId (context : Option String) : String :=
  match context with
  | some correlationId => if correlationId = "" then "unknown" else correlationId
  | none => "unknown"

/-! ## Exception handlers -/

section Handlers

variable (context : Option String)

def requesterNotFoundHandler (requesterId : String) : HttpResponse :=
  ⟨422, .error ("Solicitante não encontrado: " ++ requesterId) (currentCorrelationId context)⟩

def requesterUnavailableHandler : HttpResponse :=
  ⟨503, .error "Serviço de solicitantes temporariamente indisponível. Tente novamente."
    (currentCorrelationId context)⟩

def duplicateOrderHandler : HttpResponse :=
  ⟨200, .error "Ordem já existente (idempotência)." (currentCorrelationId context)⟩

def validationErrorHandler (errors : List ValidationError) : HttpResponse :=
  ⟨400, .invalid "Dados da requisição inválidos."
    (errors.map fun err => ⟨".".intercalate err.loc, err.msg⟩) (currentCorrelationId context)⟩

def genericErrorHandler : HttpResponse :=
  ⟨500, .error "Erro interno do servidor." (currentCorrelationId context)⟩

/-- The handlers registered in `app/main.py`, by exception class. -/
def handle : Exc → HttpResponse
  | .requesterNotFound requesterId => requesterNotFoundHandler context requesterId
  | .requesterServiceUnavailable _ _ => requesterUnavailableHandler context
  | .duplicateOrder _ => duplicateOrderHandler context
  | _ => genericErrorHandler context

end Handlers

/-! ## The route -/

section Route

variable (client : RequesterClient) (context : Option String)

/-- The call of `service.create_order` in the route. -/
def callArgs (request : CreateOrderRequest) : CallArgs where
  client := client
  externalOrderId := request.externalOrderId
  requesterId := request.requesterId
  description := request.description
  correlationId := currentCorrelationId context

/-- The end of the route `create_order`: 201, or 200 for an idempotent hit. -/
def created (value : Order × Bool) : HttpResponse :=
  ⟨if value.2 then 200 else 201, .order value.1.response⟩

/-- The response to a result of `create_order`. -/
def respond : Except Exc (Order × Bool) → HttpResponse
  | .ok value => created value
  | .error exc => handle context exc

/-- `POST /orders`. -/
def postOrders : Except (List ValidationError) CreateOrderRequest → Prog HttpResponse
  | .error errors => return validationErrorHandler context errors
  | .ok request => Effect.Prog.tryCatch
      (do
        let value ← OrderService.request (callArgs client context request)
        return created value)
      fun exc => return handle context exc

/-- The route answers a result of the service with `respond`. -/
theorem postOrders_executes {σ : Type}
    {env : σ → (o : Op) → Except Exc (Op.Resp o) → σ → Prop} {s s' : σ}
    {request : CreateOrderRequest} {res : Except Exc HttpResponse} :
    Effect.Prog.Executes (S := effects) env (postOrders client context (.ok request)) s res s' ↔
      ∃ result, Effect.Prog.Executes (S := effects) env
        (OrderService.request (callArgs client context request)) s result s' ∧
        res = .ok (respond context result) := by
  unfold postOrders
  refine Effect.Prog.executes_handled.trans (exists_congr fun result => and_congr_right fun _ => ?_)
  cases result <;> rfl

end Route

end OrdersApi
