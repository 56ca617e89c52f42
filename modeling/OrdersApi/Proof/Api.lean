import OrdersApi.Proof.Agreement
import OrdersApi.Proof.Requester

/-!
# Responses

A 2xx response shows a committed order, except after a second lookup that finds none:
`DuplicateOrderException` is then answered with 200. With fresh UUIDs that lookup finds
the order (`Reached.refindOk`).
-/

namespace OrdersApi

open TxStore Trace

variable {P : Type} {tr : List (Event P)} {l : Event P} {p : P} {a : CallArgs}

/-- Every exception but `DuplicateOrderException` is answered with an error. -/
theorem handle_error (context : Option String) {exc : Exc} (h : ∀ key, exc ≠ .duplicateOrder key) :
    400 ≤ (handle context exc).statusCode := by
  cases exc with
  | duplicateOrder key => exact absurd rfl (h key)
  | requesterNotFound => exact (by decide : 400 ≤ 422)
  | requesterServiceUnavailable => exact (by decide : 400 ≤ 503)
  | _ => exact (by decide : 400 ≤ 500)

theorem ResultInv.durable {tab : Tables} {result : Except Exc (Order × Bool)}
    (h : ResultInv tr tab p a result)
    (hdup : ∀ key, result ≠ .error (.duplicateOrder key)) (context : Option String) :
    Durable tab a.externalOrderId (respond context result) := by
  rcases result with exc | ⟨order, idempotent⟩
  · have herr : 400 ≤ (handle context exc).statusCode :=
      handle_error context fun key he => hdup key (congrArg Except.error he)
    exact ⟨fun hs => absurd hs.2 (by show ¬ (handle context exc).statusCode < 300; omega), fun _ => herr⟩
  · obtain ⟨m, hm, hk, rfl, -⟩ := h
    exact ⟨fun _ => ⟨m, hm, hk, rfl⟩, fun habs => absurd hk (habs m hm)⟩

variable [DecidableEq P] {db db' : Db P} {o : Op} {r : Except Exc (Op.Resp o)} {pt : CallPoint}
  {k : Except Exc (Op.Resp o) → CallPoint} {t : ValidTables} {role : P → Role} {w w' : World P}
  {key : String}

theorem insertError_result {exc x : Exc} (h : (CallPoint.insertError exc).result = some (.error x)) :
    exc = x := by
  cases exc with
  | integrityError => cases h
  | _ => exact Except.error.inj (Option.some.inj h)

/-- Only the second lookup ends in `DuplicateOrderException`, if no operation raises it. -/
theorem CallPoint.duplicate_source (hn : pt.node a = .op o k) (hr : r ≠ .error (.duplicateOrder key))
    (h : (k r).result = some (.error (.duplicateOrder key))) :
    pt.result = some (.error (.duplicateOrder key)) ∨ pt = .refind := by
  cases pt with
  | validate =>
    cases hn
    dsimp only at h
    split at h
    · cases h
    · rename_i e he
      rw [Except.error.inj (Option.some.inj h)] at he
      exact absurd (classify_duplicate he) hr
  | find =>
    cases hn
    -- the first lookup can only pass on what it was answered
    rcases r with e | _ | m
    · exact absurd (congrArg Except.error (Except.error.inj (Option.some.inj h))) hr
    · cases h
    · cases h
  | refind => exact .inr rfl
  | rollback =>
    cases hn
    rcases r with e | u
    · exact absurd (congrArg Except.error (Except.error.inj (Option.some.inj h))) hr
    · cases h
  | commit created event =>
    cases hn
    rcases r with e | u
    · exact absurd (congrArg Except.error (insertError_result h)) hr
    · cases h
  | close res =>
    cases hn
    rcases r with e | u
    · exact absurd (congrArg Except.error (Except.error.inj (Option.some.inj h))) hr
    · exact .inl h
  | done res => rcases res with e | v <;> cases hn
  -- the operations of the creation: `insertError` passes on every exception but its own
  | _ =>
    cases hn
    rcases r with e | u
    · exact absurd (congrArg Except.error (insertError_result h)) hr
    · cases h

theorem Exec.not_duplicate (hx : Exec db p o r db') : r ≠ .error (.duplicateOrder key) := by
  cases hx with
  | get b path outcome => exact httpGet_not_duplicate path outcome
  | _ => exact nofun

/-- No request ends in `DuplicateOrderException` while each second lookup that is
answered finds the order. -/
theorem no_duplicate (h : Run (Guarded Step RefindOk) (World.init t role) tr w)
    (hp : w.procs p = .call a pt) : pt.result ≠ some (.error (.duplicateOrder key)) := by
  refine Reached.local
    (Φ := fun _ _ _ x _ => ∀ a pt, x = .call a pt → pt.result ≠ some (.error (.duplicateOrder key)))
    ?_ ?_ ?_ ?_ ?_ h p a pt hp
  · intro p a pt he
    cases hr : role p with
    | call a' => rw [hr] at he; cases he; exact nofun
    | worker W polls => rw [hr] at he; cases he
  · intro _ _ _ _ _ _ _ _ _ hI
    exact hI
  · intro _ _ _ _ _ hI
    exact hI
  · intro tr w p a pt o k r db' hreach hok hp hn hx hI a' pt' he hres
    cases he
    rcases CallPoint.duplicate_source hn hx.not_duplicate hres with hbefore | rfl
    · exact hI a pt rfl hbefore
    · have hs := (Reached.callInv hreach hp).2.1
      cases hn
      cases hx with
      | failed => cases hres
      | selectOrder _ hu =>
        -- the condition gives a committed order, so the lookup does not return `None`
        obtain ⟨m, hm, hk⟩ := hok p a _ hp rfl
        rw [view_of_nil hs] at hres
        cases hfind : w.db.committed.findOrder a.externalOrderId with
        | none => exact findOrder_none hfind m hm hk
        | some m => rw [hfind] at hres; cases hres
  · intro tr w p W pt o k r db' _ _ _ _ _ _ a' pt' he
    cases he

/-- With fresh UUIDs each second lookup that is answered finds the order. -/
theorem Reached.refindOk (h : Reached t role tr w) (hfresh : FreshUuids t tr) : RefindOk w l := by
  intro p a found hp _
  obtain ⟨hfound, -, hnc⟩ := h.callInv hp
  exact hfound.resolve_right (h.not_collided hfresh hnc)

/-- So fresh UUIDs are enough for the condition on the second lookups. -/
theorem Reached.guarded (h : Reached t role tr w) (hfresh : FreshUuids t tr) :
    Run (Guarded Step RefindOk) (World.init t role) tr w := by
  refine Run.invariant
    (I := fun tr w => FreshUuids t tr → Run (Guarded Step RefindOk) (World.init t role) tr w)
    (fun _ => .init) ?_ h hfresh
  intro tr w l w' hrun ih hs hfresh
  exact (ih hfresh.tail).step ⟨hs, Reached.refindOk hrun hfresh.tail⟩

/-- **Success means a durable order**, exactly as long as each second lookup that is
answered finds the order. -/
theorem success_is_durable :
    (Run (Guarded Step RefindOk) (World.init t role) tr w → w.Answered) ∧
      ∀ l w', Reached t role tr w → Step w l w' → ¬ RefindOk w l → ¬ w'.Answered := by
  refine ⟨fun h p a result context hres => ?_, fun l w' h hs hno hall => ?_⟩
  · refine (Reached.result h.forget hres).durable ?_ context
    rintro key rfl
    obtain ⟨pt, hp, hpt⟩ := hres
    exact no_duplicate h hp hpt
  · simp only [RefindOk, not_forall, not_exists, not_and] at hno
    obtain ⟨p, a, found, hp, hl, habs⟩ := hno
    subst hl
    have hI := h.callInv hp
    cases hs with
    | @call _ a' pt _ k _ db' _ hp' hn hx =>
      rw [hp] at hp'
      cases hp'
      cases hn
      cases hx with
      | selectOrder _ hu =>
        rw [view_of_nil hI.2.1] at hall
        have hnone : w.db.committed.findOrder a.externalOrderId = none := by
          cases hfind : w.db.committed.findOrder a.externalOrderId with
          | none => rfl
          | some m => exact absurd (findOrder_some hfind).2 (habs m (findOrder_some hfind).1)
        -- the request would say that the order is there already, and it is not
        have hdur := hall p a (.error (.duplicateOrder a.externalOrderId)) none
          ⟨_, Function.update_self .., by rw [hnone]; rfl⟩
        exact absurd (hdur.absent habs) (by decide : ¬ 400 ≤ 200)
    | @worker _ W pt _ k _ db' _ hp' => rw [hp] at hp'; cases hp'

theorem success_is_durable_race : ∃ tr w order, Reached .empty (fun _ : Bool => .call sampleCall) tr w ∧
    w.Result false sampleCall (.ok (order, true)) ∧
    ∃ m ∈ w.db.committed.orders, (respond none (.ok (order, true))).body = .order m.toEntity.response := by
  obtain ⟨-, tr, w, h, hdraws, -, order, hp⟩ := sample_race
  have hfresh : FreshUuids .empty tr := ⟨by rw [hdraws]; decide, fun _ _ => List.not_mem_nil⟩
  have hr : w.Result false sampleCall (.ok (order, true)) := ⟨_, hp, rfl⟩
  have hall : w.Answered := success_is_durable.1 (h.guarded hfresh)
  obtain ⟨m, hm, -, hbody⟩ := (hall false sampleCall _ none hr).success
    ⟨(by decide : 200 ≤ 200), (by decide : 200 < 300)⟩
  exact ⟨tr, w, order, h, hr, m, hm, hbody⟩

/-- Tables in which a UUID is taken by the order of another request. -/
def takenUuid : ValidTables where
  val := { orders := [⟨sampleUuid 0, "ORD-2024-000", "REQ-001", some "", "pending", sampleTime 0⟩] }
  property := by decide

/-- A request that draws a UUID that is taken is answered with 200, and its order is
not stored. -/
theorem success_without_order :
    ∃ tr w result, Reached takenUuid (fun _ : Unit => .call sampleCall) tr w ∧
    w.Result () sampleCall result ∧ (respond none result).IsSuccess ∧
    (∀ m ∈ w.db.committed.orders, m.externalOrderId ≠ sampleCall.externalOrderId) ∧ ¬ w.Answered := by
  have h0 : Reached takenUuid (fun _ : Unit => .call sampleCall) [] _ := .init
  have h1 := h0.step (.call (p := ()) trivial rfl rfl (.get _ _ (.ok ⟨200, ""⟩)))
  have h2 := h1.step (.call (p := ()) trivial rfl rfl (.selectOrder _ trivial))
  have h3 := h2.step (.call (p := ()) trivial rfl rfl (.uuid4 (sampleUuid 0)))
  have h4 := h3.step (.call (p := ()) trivial rfl rfl (.now (sampleTime 1)))
  have h5 := h4.step (.call (p := ()) trivial rfl rfl (.uuid4 (sampleUuid 1)))
  have h6 := h5.step (.call (p := ()) trivial rfl rfl (.now (sampleTime 1)))
  have h7 := h6.step (.call (p := ()) trivial rfl rfl (.insertOrderConflict _ trivial
    (.orderId (sampleUuid 0)) (by decide) (by decide)))
  have h8 := h7.step (.call (p := ()) trivial rfl rfl .rollback)
  have h9 := h8.step (.call (p := ()) trivial rfl rfl (.selectOrder _ trivial))
  have hres : ∀ w : World Unit, w.Result () sampleCall (.error (.duplicateOrder sampleCall.externalOrderId)) →
      (∀ m ∈ w.db.committed.orders, m.externalOrderId ≠ sampleCall.externalOrderId) → ¬ w.Answered :=
    fun w hr habs hall => absurd ((hall () sampleCall _ none hr).absent habs) (by decide)
  exact ⟨_, _, _, h9, ⟨_, rfl, rfl⟩, ⟨by decide, by decide⟩, by decide, hres _ ⟨_, rfl, rfl⟩ (by decide)⟩

end OrdersApi
