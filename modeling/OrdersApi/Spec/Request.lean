import OrdersApi.Spec.Correlation

/-!
# The request body (`app/api/schemas.py`)

The schema of `CreateOrderRequest`, a model of text fields. FastAPI reads what is posted and
Pydantic validates it; both are a parameter here (`BodyReader`), and `BodyReader.Documented`
says what they document for any such model.
-/

namespace OrdersApi

/-- The texts of a JSON object, by key. -/
abbrev Texts := String → Option String

/-- A required text field of a model, with `min_length` and `max_length`. -/
structure Field where
  name : String
  minLength : ℕ
  maxLength : ℕ
deriving DecidableEq

namespace Field

/-- The texts that a field takes. -/
def Text (f : Field) : Type := {s : String // f.minLength ≤ s.length ∧ s.length ≤ f.maxLength}

/-- The text of the field in an object, if it is there and of a length that the field takes. -/
def read (f : Field) (texts : Texts) : Option f.Text :=
  (texts f.name).bind fun s =>
    if h : f.minLength ≤ s.length ∧ s.length ≤ f.maxLength then some ⟨s, h⟩ else none

end Field

/-- The fields of a model, under different names. -/
structure Model where
  fields : List Field
  names : (fields.map Field.name).Nodup

namespace Model

variable (model : Model)

/-- An instance of the model. -/
def Instance : Type := (i : Fin model.fields.length) → (model.fields.get i).Text

/-- The fields of an object that are at fault. -/
def faults (texts : Texts) : List String :=
  (model.fields.filter fun f => (f.read texts).isNone).map Field.name

end Model

/-! ## The body -/

/-- What FastAPI and Pydantic make of a body: its texts, if it is a JSON object, and the body as
a parameter that is declared with a model. There is no result (`none`) when FastAPI raises an
`HTTPException` of its own instead of a `RequestValidationError`. -/
structure BodyReader (B : Type) where
  texts : B → Option Texts
  validate : (model : Model) → B → Option (Except (List ValidationError) model.Instance)

variable {B : Type}

/-- What is documented of the two. -/
structure BodyReader.Documented (reader : BodyReader B) : Prop where
  /-- An instance has the texts of a JSON object; further members are ignored. -/
  accepted : ∀ model b x, reader.validate model b = some (.ok x) →
    ∃ texts, reader.texts b = some texts ∧ ∀ i, (model.fields.get i).read texts = some (x i)
  /-- A refusal has errors, all of the body. -/
  refused : ∀ model b errs, reader.validate model b = some (.error errs) →
    errs ≠ [] ∧ ∀ err ∈ errs, err.loc.head? = some "body"
  /-- For an object these are one for each field at fault, in the order of the model. -/
  errors : ∀ model b texts errs, reader.texts b = some texts →
    reader.validate model b = some (.error errs) →
    errs.map ValidationError.loc = (model.faults texts).map fun name => ["body", name]

/-! ## `CreateOrderRequest` -/

namespace CreateOrderRequest

def model : Model where
  fields := [⟨"external_order_id", 1, 255⟩, ⟨"requester_id", 1, 255⟩, ⟨"description", 1, 2000⟩]
  names := by decide

def ofInstance (x : model.Instance) : CreateOrderRequest where
  externalOrderId := (x ⟨0, by decide⟩).val
  requesterId := (x ⟨1, by decide⟩).val
  description := (x ⟨2, by decide⟩).val
  externalOrderId_length := (x ⟨0, by decide⟩).property
  requesterId_length := (x ⟨1, by decide⟩).property
  description_length := (x ⟨2, by decide⟩).property

/-- The request has the texts of the object. -/
structure Reads (texts : Texts) (request : CreateOrderRequest) : Prop where
  externalOrderId : texts "external_order_id" = some request.externalOrderId
  requesterId : texts "requester_id" = some request.requesterId
  description : texts "description" = some request.description

end CreateOrderRequest

namespace BodyReader

variable (reader : BodyReader B) (b : B)

/-- The body parameter of the route `create_order`. -/
def request : Option (Except (List ValidationError) CreateOrderRequest) :=
  (reader.validate CreateOrderRequest.model b).map fun result => result.map CreateOrderRequest.ofInstance

/-- The call of `create_order` that the body leads to. -/
def Calls (client : RequesterClient) (context : Option String) (a : CallArgs) : Prop :=
  ∃ request, reader.request b = some (.ok request) ∧ a = callArgs client context request

end BodyReader

end OrdersApi
