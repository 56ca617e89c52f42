import OrdersApi.Lib.Text
import Mathlib.Data.Nat.Basic

/-!
# Entities, table rows and exceptions

The domain entities (`app/domain/entities.py`), the rows of the two tables
(`app/repositories/models.py`), and the exceptions of the domain, of the database
driver and of `httpx`. A `UUID` is its 128 bits, and a `DateTime` is an aware UTC
`datetime`; `str` and `isoformat` are Python's texts of them.
-/

namespace OrdersApi

open Text

structure UUID where
  bits : BitVec 128
deriving DecidableEq, Repr

/-- `str(uuid)`: 32 hexadecimal digits in groups of 8, 4, 4, 4 and 12. -/
def UUID.str (u : UUID) : String :=
  let hex := numeral 16 32 u.bits.toNat
  String.ofList (hex.take 8 ++ '-' :: ((hex.drop 8).take 4 ++ '-' :: ((hex.drop 12).take 4 ++
    '-' :: ((hex.drop 16).take 4 ++ '-' :: hex.drop 20))))

/-- The text of a UUID determines it. -/
theorem UUID.str_injective {u v : UUID} (h : u.str = v.str) : u = v := by
  have hundash : ∀ hex : List Char, '-' ∉ hex →
      (hex.take 8 ++ '-' :: ((hex.drop 8).take 4 ++ '-' :: ((hex.drop 12).take 4 ++
        '-' :: ((hex.drop 16).take 4 ++ '-' :: hex.drop 20)))).filter (· ≠ '-') = hex := by
    intro hex hd
    have hk : ∀ l : List Char, l ⊆ hex → l.filter (· ≠ '-') = l := by
      intro l hl
      refine List.filter_eq_self.2 fun c hc => ?_
      have : c ≠ '-' := fun e => hd (e ▸ hl hc)
      simpa using this
    have ht : ∀ i k, ((hex.drop i).take k).filter (· ≠ '-') = (hex.drop i).take k := fun i k =>
      hk _ fun _ hc => List.drop_subset i hex (List.take_subset k _ hc)
    simp only [List.filter_append, List.filter_cons, ne_eq, not_true_eq_false, decide_false,
      Bool.false_eq_true, if_false]
    have h0 := ht 0 8
    simp only [List.drop_zero, ne_eq] at h0
    have h8 := ht 8 4
    have h12 := ht 12 4
    have h16 := ht 16 4
    have h20 := hk _ (List.drop_subset 20 hex)
    simp only [ne_eq] at h8 h12 h16 h20
    rw [h0, h8, h12, h16, h20]
    rw [show hex.drop 20 = (hex.drop 16).drop 4 by rw [List.drop_drop], List.take_append_drop,
      show hex.drop 16 = (hex.drop 12).drop 4 by rw [List.drop_drop], List.take_append_drop,
      show hex.drop 12 = (hex.drop 8).drop 4 by rw [List.drop_drop], List.take_append_drop,
      List.take_append_drop]
  have hnd : ∀ n, '-' ∉ numeral 16 32 n := fun n => not_mem_numeral (by omega) le_rfl (by decide)
  have hlist := String.ofList_injective h
  have hnum : numeral 16 32 u.bits.toNat = numeral 16 32 v.bits.toNat := by
    rw [← hundash _ (hnd u.bits.toNat), ← hundash _ (hnd v.bits.toNat)]
    exact congrArg _ hlist
  have hlt : ∀ w : UUID, w.bits.toNat < 16 ^ 32 := fun w => w.bits.isLt
  have hnat := numeral_injective (by omega) le_rfl (hlt u) (hlt v) hnum
  cases u; cases v
  exact congrArg UUID.mk (BitVec.eq_of_toNat_eq hnat)

/-- An aware UTC `datetime`. -/
structure DateTime where
  year : ℕ
  month : ℕ
  day : ℕ
  hour : ℕ
  minute : ℕ
  second : ℕ
  microsecond : ℕ
  year_lt : year < 10000
  month_lt : month < 13
  day_lt : day < 32
  hour_lt : hour < 24
  minute_lt : minute < 60
  second_lt : second < 60
  microsecond_lt : microsecond < 1000000
deriving DecidableEq, Repr

namespace DateTime

/-- The fields in mixed radix: the order of points in time. -/
def key (t : DateTime) : ℕ :=
  (((((t.year * 13 + t.month) * 32 + t.day) * 24 + t.hour) * 60 + t.minute) * 60 + t.second) * 1000000 +
    t.microsecond

instance : LE DateTime := ⟨fun a b => a.key ≤ b.key⟩
instance : LT DateTime := ⟨fun a b => a.key < b.key⟩
instance : DecidableLE DateTime := fun a b => inferInstanceAs (Decidable (a.key ≤ b.key))
instance : DecidableLT DateTime := fun a b => inferInstanceAs (Decidable (a.key < b.key))

/-- `isoformat()`: the fraction is left out when it is zero. -/
def isoformat (t : DateTime) : String :=
  String.ofList (numeral 10 4 t.year ++ '-' :: (numeral 10 2 t.month ++ '-' :: (numeral 10 2 t.day ++
    'T' :: (numeral 10 2 t.hour ++ ':' :: (numeral 10 2 t.minute ++ ':' :: (numeral 10 2 t.second ++
      ((if t.microsecond = 0 then [] else '.' :: numeral 10 6 t.microsecond) ++ "+00:00".toList)))))))

end DateTime

/-! ## Entities -/

structure Order where
  id : UUID
  externalOrderId : String
  requesterId : String
  description : String
  status : String
  createdAt : DateTime
deriving DecidableEq

/-- The lifecycle of an outbox event: `pending -> processed | failed`. -/
inductive OutboxStatus
  | pending
  | processed
  | failed
deriving DecidableEq, Repr

/-- A `dict` with string keys and values; JSONB keeps both. -/
abbrev Payload := List (String × String)

/-- `payload.get(key)`. -/
def Payload.get (p : Payload) (key : String) : Option String := p.lookup key

structure OutboxEvent where
  id : UUID
  eventType : String
  payload : Payload
  status : OutboxStatus
  createdAt : DateTime
deriving DecidableEq

/-! ## Table rows -/

/-- A row of `orders`. -/
structure OrderModel where
  id : UUID
  externalOrderId : String
  requesterId : String
  description : Option String
  status : String
  createdAt : DateTime
deriving DecidableEq

/-- A row of `outbox_events`. -/
structure OutboxEventModel where
  id : UUID
  eventType : String
  payload : Payload
  status : OutboxStatus
  createdAt : DateTime
deriving DecidableEq

/-- `OrderRepository._to_entity`. -/
def OrderModel.toEntity (model : OrderModel) : Order where
  id := model.id
  externalOrderId := model.externalOrderId
  requesterId := model.requesterId
  description := model.description.getD ""
  status := model.status
  createdAt := model.createdAt

/-- `OutboxRepository._to_entity`. -/
def OutboxEventModel.toEntity (model : OutboxEventModel) : OutboxEvent where
  id := model.id
  eventType := model.eventType
  payload := model.payload
  status := model.status
  createdAt := model.createdAt

/-! ## Exceptions -/

/-- The exception classes of `httpx`. -/
inductive HttpxKind
  | httpError | requestError | transportError
  | timeoutException | connectTimeout | readTimeout | writeTimeout | poolTimeout
  | networkError | connectError | readError | writeError | closeError
  | protocolError | localProtocolError | remoteProtocolError
  | proxyError | unsupportedProtocol | decodingError | tooManyRedirects
  | httpStatusError
  | invalidURL | cookieConflict
  | streamError | streamConsumed | streamClosed | responseNotRead | requestNotRead
deriving DecidableEq, Repr

/-- `isinstance(exc, httpx.TimeoutException)`. -/
def HttpxKind.isTimeout : HttpxKind → Bool
  | timeoutException | connectTimeout | readTimeout | writeTimeout | poolTimeout => true
  | _ => false

/-- `isinstance(exc, httpx.HTTPError)`. -/
def HttpxKind.isHTTPError : HttpxKind → Bool
  | invalidURL | cookieConflict
  | streamError | streamConsumed | streamClosed | responseNotRead | requestNotRead => false
  | _ => true

/-- An exception of `httpx` with its `str(exc)`. -/
structure HttpxError where
  kind : HttpxKind
  message : String
deriving DecidableEq

/-- What can be raised while a request or a worker runs. -/
inductive Exc
  | requesterNotFound (requesterId : String)
  | requesterServiceUnavailable (requesterId reason : String)
  | duplicateOrder (externalOrderId : String)
  /-- `sqlalchemy.exc.IntegrityError`. -/
  | integrityError
  /-- Any other database error. -/
  | databaseError
  | httpx (e : HttpxError)
  /-- `publish` failed, before or after the message was handed to SQS. -/
  | publishError (handed : Bool)
deriving DecidableEq

end OrdersApi
