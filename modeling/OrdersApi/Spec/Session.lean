import OrdersApi.Lib.Run
import OrdersApi.Spec.Columns
import OrdersApi.Spec.Correlation

/-!
# Requests one after the other

A client that posts orders to an API that nothing disturbs (as `dev.py orders` does): each
request is answered before the next one, and the database refuses only what it has to
(`Serves`). `Shop` is what the client may rely on: a catalog of orders by their
`external_order_id`, in which an order is entered once and then only looked up.
-/

namespace OrdersApi

open Trace

/-- A request: what validation makes of its body, the correlation id of its context, and what
the requester service answers to it. -/
structure Post where
  body : Except (List ValidationError) CreateOrderRequest
  context : Option String
  response : Response

/-- The `external_order_id` that a request says. -/
def Post.key (post : Post) : Option String :=
  match post.body with
  | .ok request => some request.externalOrderId
  | .error _ => none

/-- What `validate_requester` says of the request. -/
def Post.verdict (post : Post) (client : RequesterClient) (request : CreateOrderRequest) :
    Except Exc Bool :=
  client.classify request.requesterId (httpGet (RequesterClient.path request.requesterId) (.ok post.response))

variable {P : Type} [DecidableEq P]

/-- The route answers a request. -/
def Serves (client : RequesterClient) (p : P) (db : Db P) (x : Post × HttpResponse)
    (db' : Db P) : Prop :=
  Effect.Prog.Executes (S := effects) (Typed x.1.response p) (postOrders client x.1.context x.1.body) db
    (.ok x.2) db'

/-- No session is open, and the unique constraints hold. -/
structure Calm (db : Db P) : Prop where
  idle : ∀ q, db.session q = .idle
  unique : db.committed.keys.Nodup

/-- There are more UUIDs than keys. -/
def Roomy (db : Db P) : Prop := db.committed.keys.length < 2 ^ 128

/-! ## What the client sees -/

abbrev Catalog := String → Option OrderResponse

def Tables.catalog (t : Tables) : Catalog :=
  fun key => (t.findOrder key).map fun model => model.toEntity.response

/-- A new order for the request. -/
structure CreateOrderRequest.Ordered (request : CreateOrderRequest) (order : OrderResponse) : Prop where
  externalOrderId : order.externalOrderId = request.externalOrderId
  requesterId : order.requesterId = request.requesterId
  description : order.description = request.description
  status : order.status = "pending"

/-- How a request is answered from the catalog, and the catalog afterwards. -/
inductive Shop (client : RequesterClient) (catalog : Catalog) : Post × HttpResponse → Catalog → Prop
  | invalid {post : Post} {errors : List ValidationError} (body : post.body = .error errors) :
      Shop client catalog (post, validationErrorHandler post.context errors) catalog
  | refused {post : Post} {request : CreateOrderRequest} {e : Exc} (body : post.body = .ok request)
      (requester : post.verdict client request = .error e) :
      Shop client catalog (post, handle post.context e) catalog
  | unreadable {post : Post} {request : CreateOrderRequest} (body : post.body = .ok request)
      (requester : post.verdict client request = .ok true)
      (key : storable request.externalOrderId = false) :
      Shop client catalog (post, genericErrorHandler post.context) catalog
  | existing {post : Post} {request : CreateOrderRequest} {order : OrderResponse}
      (body : post.body = .ok request) (requester : post.verdict client request = .ok true)
      (key : storable request.externalOrderId = true)
      (found : catalog request.externalOrderId = some order) :
      Shop client catalog (post, ⟨200, .order order⟩) catalog
  | unwritable {post : Post} {request : CreateOrderRequest} (body : post.body = .ok request)
      (requester : post.verdict client request = .ok true)
      (key : storable request.externalOrderId = true)
      (absent : catalog request.externalOrderId = none)
      (texts : (storable request.description && storable (currentCorrelationId post.context)) = false) :
      Shop client catalog (post, genericErrorHandler post.context) catalog
  | created {post : Post} {request : CreateOrderRequest} {order : OrderResponse}
      (body : post.body = .ok request) (requester : post.verdict client request = .ok true)
      (key : storable request.externalOrderId = true) (absent : catalog request.externalOrderId = none)
      (texts : (storable request.description && storable (currentCorrelationId post.context)) = true)
      (ordered : request.Ordered order) :
      Shop client catalog (post, ⟨201, .order order⟩) (Function.update catalog request.externalOrderId (some order))

end OrdersApi
