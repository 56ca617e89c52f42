import OrdersApi.Spec.Correlation
import OrdersApi.Spec.Observe

/-!
# The metrics of the API (`app/observability/metrics.py`)

What the route `create_order`, the exception handlers and the middleware count when a
request ends, and what they have counted of the requests that a list of parties served.
-/

namespace OrdersApi

/-- The counters of the API, with their labels. -/
inductive ApiCounter
  | ordersCreatedTotal
  | ordersIdempotentTotal
  | ordersFailedTotal (errorType : String)
deriving DecidableEq

/-- The status code that goes with a counter, if its requests are observed. -/
def ApiCounter.statusCode : ApiCounter → Option ℕ
  | ordersCreatedTotal => some 201
  | ordersIdempotentTotal => some 200
  | ordersFailedTotal "requester_not_found" => some 422
  | ordersFailedTotal "requester_unavailable" => some 503
  | ordersFailedTotal "validation_error" => some 400
  | ordersFailedTotal _ => none

namespace Ending

/-- The end of the route `create_order`. -/
def routeCounts (value : Order × Bool) : List ApiCounter :=
  if value.2 then [.ordersIdempotentTotal] else [.ordersCreatedTotal]

/-- The handlers of `app/api/exception_handlers.py`, by exception class. -/
def handlerCounts : Exc → List ApiCounter
  | .requesterNotFound _ => [.ordersFailedTotal "requester_not_found"]
  | .requesterServiceUnavailable _ _ => [.ordersFailedTotal "requester_unavailable"]
  | .duplicateOrder _ => []
  | _ => [.ordersFailedTotal "internal_error"]

/-- What a request counts. -/
def counts : Ending → List ApiCounter
  | .error _ => [.ordersFailedTotal "validation_error"]
  | .ok (.ok value) => routeCounts value
  | .ok (.error exc) => handlerCounts exc

/-- The `status_code` under which `CorrelationIdMiddleware.dispatch` observes a duration:
only when `call_next` returns. -/
def observes (context : Option String) (ending : Ending) : List ℕ :=
  match ending.answer context with
  | .ok response => [response.statusCode]
  | .error _ => []

end Ending

/-! ## Totals -/

variable {P : Type}

/-- How the request that `p` serves has ended, once its session is closed and its answer made. -/
def World.ended (w : World P) (p : P) : Option (Except Exc (Order × Bool)) :=
  match w.procs p with
  | .call _ (.done result) => some result
  | _ => none

/-- How the requests of some parties have ended. -/
def World.endings (w : World P) (served : List P) : List Ending := (served.filterMap w.ended).map .ok

/-- What these requests have counted. -/
def World.requestCounts (w : World P) (served : List P) : List ApiCounter :=
  (w.endings served).flatMap Ending.counts

/-- Every request that has ended is one of these. -/
def World.AllServed (w : World P) (served : List P) : Prop := ∀ p, w.ended p ≠ none → p ∈ served

/-- And every request in which `create_order` has returned or raised, and that has not ended, is
one of these; its process may be dead. -/
def World.AllClosing (w : World P) (closing : List P) : Prop :=
  ∀ p a result, w.procs p = .call a (.close result) → p ∈ closing

end OrdersApi
