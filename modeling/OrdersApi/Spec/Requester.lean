import OrdersApi.Lib.Uri
import OrdersApi.Spec.Ops
import Mathlib.Tactic.SplitIfs

/-!
# The requester client (`app/clients/requester_client.py`)

`validateRequester` is the source's `try` block with its three `except` clauses.
`classify` is the same as a function of what `client.get` returned or raised
(`validateRequester_eq`).
-/

namespace OrdersApi

/-- `RequesterClient`; the timeout is kept as it is printed. -/
structure RequesterClient where
  baseUrl : String
  timeout : String
deriving DecidableEq

/-- `response.raise_for_status()`: every status outside 200–299 raises. -/
def Response.raiseForStatus (response : Response) : Except Exc Unit :=
  if 200 ≤ response.statusCode ∧ response.statusCode < 300 then .ok ()
  else .error (.httpx ⟨.httpStatusError, response.errorText⟩)

namespace RequesterClient

variable (client : RequesterClient) (requesterId : String)

/-- The path that `client.get` is given. -/
def path : String := "/requesters/" ++ requesterId

/-- What that path addresses at the requester service. -/
def target (S : Uri.SafeSet) (requesterId : String) : Uri.Target :=
  Uri.parse S (path requesterId).toList

/-- The three `except` clauses of `validate_requester`. -/
def translate : Exc → Exc
  | .requesterNotFound r => .requesterNotFound r
  | .requesterServiceUnavailable r reason => .requesterServiceUnavailable r reason
  | .httpx e =>
    if e.kind.isTimeout then
      .requesterServiceUnavailable requesterId ("Timeout after " ++ client.timeout ++ "s")
    else if e.kind.isHTTPError then .requesterServiceUnavailable requesterId e.message
    else .httpx e
  | e => e

/-- The status tests of `validate_requester`. -/
def checkResponse (response : Response) : Except Exc Bool := do
  if response.statusCode = 404 then throw (.requesterNotFound requesterId)
  if response.statusCode ≥ 500 then
    throw (.requesterServiceUnavailable requesterId ("HTTP " ++ toString response.statusCode))
  response.raiseForStatus
  return true

/-- `RequesterClient.validate_requester`. -/
def validateRequester : Prog Bool :=
  Effect.Prog.tryCatch
    (do
      let response ← await (.get client.baseUrl (path requesterId))
      .ofExcept (checkResponse requesterId response))
    fun exc => throw (client.translate requesterId exc)

/-- The status tests in closed form. -/
theorem checkResponse_eq (response : Response) : checkResponse requesterId response =
    if response.statusCode = 404 then .error (.requesterNotFound requesterId)
    else if response.statusCode ≥ 500 then
      .error (.requesterServiceUnavailable requesterId ("HTTP " ++ toString response.statusCode))
    else if 200 ≤ response.statusCode ∧ response.statusCode < 300 then .ok true
    else .error (.httpx ⟨.httpStatusError, response.errorText⟩) := by
  unfold checkResponse Response.raiseForStatus
  split_ifs <;> rfl

/-- The result of `validate_requester` from what `client.get` returned or raised. -/
def classify (got : Except Exc Response) : Except Exc Bool :=
  (got.bind (checkResponse requesterId)).mapError (client.translate requesterId)

theorem validateRequester_eq : client.validateRequester requesterId =
    .op (.get client.baseUrl (path requesterId)) fun got => .ofExcept (client.classify requesterId got) := by
  unfold validateRequester classify
  simp only [Effect.Prog.await_eq, Effect.Prog.op_bind, Effect.Prog.op_tryCatch]
  congr 1
  funext got
  rcases got with e | response
  · rfl
  · show (Effect.Prog.ofExcept (checkResponse requesterId response)).tryCatch _ =
      .ofExcept ((checkResponse requesterId response).mapError _)
    rcases checkResponse requesterId response with e | b <;> rfl

end RequesterClient

end OrdersApi
