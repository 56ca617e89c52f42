import OrdersApi.Proof.Points
import OrdersApi.Spec.Observe

/-!
# The requester check

* The request is addressed to the requester exactly when its id is a path segment as it
  stands, as the id is put into the path without encoding (`addressed_iff`).
* `classify_ok` and `classify_error` are the outcomes of the check, and `post_error` is
  the whole request when the check raises.
-/

namespace OrdersApi

open TxStore

/-! ## What the request addresses -/

section Target

variable {S : Uri.SafeSet} {requesterId requesterId' : String}

theorem path_toList (requesterId : String) :
    (RequesterClient.path requesterId).toList = '/' :: "requesters".toList ++ '/' :: requesterId.toList := by
  unfold RequesterClient.path
  rw [String.toList_append]
  rfl

theorem requesters_isAlpha : ∀ c ∈ "requesters".toList, c.isAlpha = true :=
  List.all_eq_true.1 (by decide)

theorem addressed_iff : Addressed S requesterId ↔ PlainId requesterId := by
  unfold Addressed PlainId RequesterClient.target
  rw [path_toList]
  exact imp_congr_right fun _ => Uri.addresses_iff requesters_isAlpha

/-- Requests that are addressed to their requesters have different targets. -/
theorem target_injective
    (h : Uri.Addresses (RequesterClient.target S requesterId) "requesters".toList requesterId.toList)
    (h' : Uri.Addresses (RequesterClient.target S requesterId') "requesters".toList requesterId'.toList)
    (he : RequesterClient.target S requesterId = RequesterClient.target S requesterId') :
    requesterId = requesterId' := by
  obtain ⟨-, -, s, hs, hdec⟩ := h
  obtain ⟨-, -, s', hs', hdec'⟩ := h'
  rw [he, hs'] at hs
  have hseg : s' = s := by simpa using hs
  rw [← hseg, hdec'] at hdec
  exact (String.toList_inj.1 (Uri.utf8_injective hdec)).symm

/-- **The requester that is validated is the one that is stored**, exactly when the id is a
path segment as it stands; and such ids have different targets. -/
theorem requester_addressed (request request' : CreateOrderRequest) :
    (Addressed S request.requesterId ↔ PlainId request.requesterId) ∧
      (printableUrl (RequesterClient.path request.requesterId) = true →
        printableUrl (RequesterClient.path request'.requesterId) = true →
        PlainId request.requesterId → PlainId request'.requesterId →
        RequesterClient.target S request.requesterId = RequesterClient.target S request'.requesterId →
        request.requesterId = request'.requesterId) := by
  refine ⟨addressed_iff, fun hp hp' hplain hplain' he => ?_⟩
  exact target_injective (addressed_iff.2 hplain hp) (addressed_iff.2 hplain' hp') he

def sampleRequest (requesterId : String) (h : 1 ≤ requesterId.length ∧ requesterId.length ≤ 255) :
    CreateOrderRequest where
  externalOrderId := "ORD-2024-001"
  requesterId := requesterId
  description := "Preventive maintenance on equipment X"
  externalOrderId_length := by decide
  requesterId_length := h
  description_length := by decide

/-- An id with characters that are encoded. -/
theorem requester_addressed_sample :
    RequesterClient.target Uri.pchar "50 % é" = ⟨["requesters".toList, "50%20%25%20%C3%A9".toList], none, none⟩ ∧
      Addressed Uri.pchar "50 % é" := by
  refine ⟨by decide, ?_⟩
  exact (requester_addressed (sampleRequest "50 % é" (by decide)) (sampleRequest "REQ-002" (by decide))).1.2
    fun _ => ⟨by decide, by decide, by decide, by decide, by decide, by decide⟩

/-- The id `../health` reaches the health check of the requester service. -/
theorem other_endpoint : ∃ request : CreateOrderRequest,
    RequesterClient.target Uri.pchar request.requesterId = ⟨["health".toList], none, none⟩ ∧
    ¬ Addressed Uri.pchar request.requesterId := by
  refine ⟨sampleRequest "../health" (by decide), by decide, fun h => ?_⟩
  exact absurd (addressed_iff.1 h (by decide)).slash (by decide)

end Target

/-! ## The outcomes of the check -/

section Check

variable (client : RequesterClient) (context : Option String) (request : CreateOrderRequest)
  (requesterId : String)

theorem HttpxKind.isHTTPError_of_isTimeout {kind : HttpxKind} (h : kind.isTimeout = true) :
    kind.isHTTPError = true := by
  cases kind <;> first | rfl | cases h

/-- `validate_requester` on a response. -/
theorem classify_ok (response : Response) : client.classify requesterId (.ok response) =
    if response.statusCode = 404 then .error (.requesterNotFound requesterId)
    else if response.statusCode ≥ 500 then
      .error (.requesterServiceUnavailable requesterId ("HTTP " ++ toString response.statusCode))
    else if 200 ≤ response.statusCode ∧ response.statusCode < 300 then .ok true
    else .error (.requesterServiceUnavailable requesterId response.errorText) := by
  show (RequesterClient.checkResponse requesterId response).mapError _ = _
  rw [RequesterClient.checkResponse_eq]
  split_ifs <;> rfl

/-- `validate_requester` on an exception of `httpx`. -/
theorem classify_error (e : HttpxError) : ∃ reason, client.classify requesterId (.error (.httpx e)) =
    if e.kind.isHTTPError then .error (.requesterServiceUnavailable requesterId reason)
    else .error (.httpx e) := by
  show ∃ reason, Except.error (client.translate requesterId (.httpx e)) = _
  unfold RequesterClient.translate
  by_cases ht : e.kind.isTimeout
  · refine ⟨"Timeout after " ++ client.timeout ++ "s", ?_⟩
    simp only [ht, HttpxKind.isHTTPError_of_isTimeout ht, if_true]
  · refine ⟨e.message, ?_⟩
    simp only [ht, Bool.false_eq_true, if_false]
    split_ifs <;> rfl

theorem httpGet_not_duplicate {key : String} (path : String) (outcome : Except HttpxError Response) :
    httpGet path outcome ≠ .error (.duplicateOrder key) := by
  unfold httpGet
  split_ifs
  · rcases outcome with e | response <;> exact nofun
  · exact nofun

/-- What `validate_requester` raises is its own exception or the one it was given. -/
theorem classify_duplicate {client : RequesterClient} {requesterId key : String}
    {got : Except Exc Response}
    (h : client.classify requesterId got = .error (.duplicateOrder key)) :
    got = .error (.duplicateOrder key) := by
  rcases got with exc | response
  · have h : client.translate requesterId exc = .duplicateOrder key := Except.error.inj h
    cases exc with
    | httpx e =>
      unfold RequesterClient.translate at h
      dsimp only at h
      split_ifs at h
    | duplicateOrder k => exact congrArg Except.error h
    | _ => cases h
  · rw [classify_ok] at h
    split_ifs at h <;> cases h

theorem classified_ok (response : Response) : Classified client requesterId (.ok response) := by
  have hvalid : IsValid (.ok response) ↔ 200 ≤ response.statusCode ∧ response.statusCode < 300 :=
    ⟨fun ⟨r, hr, h⟩ => by cases hr; exact h, fun h => ⟨response, rfl, h⟩⟩
  have hnot : IsNotFound (.ok response) ↔ response.statusCode = 404 :=
    ⟨fun ⟨r, hr, h⟩ => by cases hr; exact h, fun h => ⟨response, rfl, h⟩⟩
  refine ⟨?_, ?_, ?_⟩
  · rw [hvalid, classify_ok]
    split_ifs <;> simp <;> omega
  · rw [hnot, classify_ok]
    split_ifs <;> simp <;> omega
  · rw [hvalid, hnot, classify_ok]
    intro hv hn
    split_ifs
    · exact ⟨_, rfl⟩
    · exact ⟨_, rfl⟩

theorem classified_error (e : HttpxError) :
    Classified client requesterId (.error (.httpx e)) ↔ e.kind.isHTTPError = true := by
  have hvalid : ¬ IsValid (.error (.httpx e)) := fun ⟨_, h, _⟩ => nomatch h
  have hnot : ¬ IsNotFound (.error (.httpx e)) := fun ⟨_, h, _⟩ => nomatch h
  obtain ⟨reason, hc⟩ := classify_error client requesterId e
  constructor
  · intro h
    obtain ⟨reason', hr⟩ := h.unavailable hvalid hnot
    by_contra hk
    rw [hc, if_neg hk] at hr
    cases hr
  · intro hk
    rw [if_pos hk] at hc
    refine ⟨?_, ?_, fun _ _ => ⟨reason, hc⟩⟩
    · rw [hc]; exact ⟨nofun, fun h => absurd h hvalid⟩
    · rw [hc]; exact ⟨nofun, fun h => absurd h hnot⟩

variable {P : Type} [DecidableEq P] {p : P} {db db' : Db P} {outcome : Except HttpxError Response}
  {response : HttpResponse}

/-- The whole request when the requester check raises: the session is closed, and the
handler of the exception answers. -/
theorem post_error {exc : Exc}
    (hc : client.classify request.requesterId
      (httpGet (RequesterClient.path request.requesterId) outcome) = .error exc) :
    PostAnswers client context request outcome p db response db' ↔
      response = handle context exc ∧ db' = db.rollback p := by
  have hcode := CallPoint.call_implements (callArgs client context request) .validate
  rw [CallPoint.call_code_start] at hcode
  have hc' : (callArgs client context request).client.classify (callArgs client context request).requesterId
      (httpGet (RequesterClient.path request.requesterId) outcome) = .error exc := hc
  simp only [PostAnswers, postOrders, hcode, CallPoint.node, Effect.Node.prog, Effect.Prog.op_bind,
    Effect.Prog.op_tryCatch, Effect.Prog.op.injEq, heq_eq_eq]
  constructor
  · rintro ⟨k, ⟨-, rfl⟩, hrun⟩
    simp only [hc', CallPoint.code, withSession, Effect.Prog.ofExcept_error, Effect.Prog.raise_ensuring,
      Effect.Prog.await_eq, Effect.Prog.op_bind, Effect.Prog.op_tryCatch,
      Effect.Prog.executes_op] at hrun
    obtain ⟨r, db₁, hx, hrest⟩ := hrun
    cases hx with
    | failed hst => cases hst
    | close =>
      simp only [Effect.Prog.ofExcept_ok, Effect.Prog.ret_bind, Effect.Prog.raise_bind,
        Effect.Prog.raise_tryCatch, Effect.Prog.pure_eq, Effect.Prog.executes_ret] at hrest
      exact ⟨Except.ok.inj hrest.1, hrest.2⟩
  · rintro ⟨rfl, rfl⟩
    refine ⟨_, ⟨rfl, rfl⟩, ?_⟩
    simp only [hc', CallPoint.code, withSession, Effect.Prog.ofExcept_error, Effect.Prog.raise_ensuring,
      Effect.Prog.await_eq, Effect.Prog.op_bind, Effect.Prog.op_tryCatch]
    exact .op .close (.ret _ _)

/-- **The requester check fails closed**, exactly when the URL can be built and `httpx`
raises nothing but an `HTTPError`. -/
theorem requester_check_fails_closed : FailsClosed client context request outcome p ↔
    printableUrl (RequesterClient.path request.requesterId) = true ∧
      ∀ e, outcome = .error e → e.kind.isHTTPError = true := by
  constructor
  · intro h
    have hc := h.classified
    unfold httpGet at hc
    split_ifs at hc with hp
    · refine ⟨hp, ?_⟩
      rintro e rfl
      exact (classified_error client request.requesterId e).1 hc
    · exact absurd ((classified_error client request.requesterId _).1 hc) (by decide)
  · rintro ⟨hp, hkind⟩
    have hgot : Classified client request.requesterId
        (httpGet (RequesterClient.path request.requesterId) outcome) := by
      unfold httpGet
      rw [if_pos hp]
      rcases outcome with e | answer
      · exact (classified_error client request.requesterId e).2 (hkind e rfl)
      · exact classified_ok client request.requesterId answer
    have hraise : ¬ IsValid (httpGet (RequesterClient.path request.requesterId) outcome) →
        ∃ exc, client.classify request.requesterId
          (httpGet (RequesterClient.path request.requesterId) outcome) = .error exc := by
      intro hv
      by_cases hn : IsNotFound (httpGet (RequesterClient.path request.requesterId) outcome)
      · exact ⟨_, hgot.notFound.2 hn⟩
      · exact ⟨_, (hgot.unavailable hv hn).choose_spec⟩
    refine ⟨hgot, fun db hv => ?_, fun db response db' hpost hn => ?_, fun db response db' hpost hv hn => ?_,
      fun db response db' hpost hv => ?_⟩
    · obtain ⟨exc, hexc⟩ := hraise hv
      exact ⟨_, _, (post_error client context request hexc).2 ⟨rfl, rfl⟩⟩
    · rw [((post_error client context request (hgot.notFound.2 hn)).1 hpost).1]; rfl
    · obtain ⟨reason, hr⟩ := hgot.unavailable hv hn
      rw [((post_error client context request hr).1 hpost).1]; rfl
    · obtain ⟨exc, hexc⟩ := hraise hv
      rw [((post_error client context request hexc).1 hpost).2]; rfl

/-- An id with a line feed makes `httpx` raise `InvalidURL`, which is answered with 500. -/
theorem check_raises_invalidURL : ∃ (client : RequesterClient) (request : CreateOrderRequest),
    (∀ db, ∃ db', PostAnswers client none request (.ok ⟨200, ""⟩) () db (genericErrorHandler none) db') ∧
    ¬ FailsClosed client none request (.ok ⟨200, ""⟩) () := by
  let client : RequesterClient := ⟨"http://requester-service:8080", "3.0"⟩
  let request := sampleRequest "REQ\n001" (by decide)
  have hgot : httpGet (RequesterClient.path request.requesterId) (.ok ⟨200, ""⟩) =
      .error (.httpx ⟨.invalidURL, "Invalid non-printable ASCII character in URL"⟩) :=
    if_neg (by decide)
  have hc : client.classify request.requesterId
      (httpGet (RequesterClient.path request.requesterId) (.ok ⟨200, ""⟩)) =
      .error (.httpx ⟨.invalidURL, "Invalid non-printable ASCII character in URL"⟩) := by
    rw [hgot]; rfl
  refine ⟨client, request, fun db => ⟨_, (post_error client none request hc).2 ⟨rfl, rfl⟩⟩, fun h => ?_⟩
  have hclass := h.classified
  rw [hgot] at hclass
  exact absurd ((classified_error client request.requesterId _).1 hclass) (by decide)

end Check

end OrdersApi
