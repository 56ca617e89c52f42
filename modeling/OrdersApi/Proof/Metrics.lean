import OrdersApi.Proof.Api
import OrdersApi.Spec.Metrics

/-!
# Metrics and tables

Every committed order was written by one request, which returns it as created or raises an
internal error, and every request that returns a created order wrote one
(`Reached.writers`). So the counters bound the number of orders from both sides, up to the
requests that have still to close their session (`created_total_bounds`). With fresh UUIDs
every request counts once, and the durations are observed as it counts (`requests_counted`).
-/

namespace OrdersApi

open TxStore Trace

variable {P : Type} {tr : List (Event P)} {l : Event P} {p q : P} {a : CallArgs} {w w' : World P}
  {m : OrderModel}
  {result : Except Exc (Order × Bool)} {order : Order} {event : OutboxEvent}

/-! ## Who wrote an order -/

/-- What `create_order` has returned or raised in the request that `p` serves. -/
def World.returned (w : World P) (p : P) : Option (Except Exc (Order × Bool)) :=
  match w.procs p with
  | .call _ pt => pt.result
  | .worker _ _ => none

/-- The request of `p` wrote the order `m`: it says so, or the answer to its commit was lost. -/
def Wrote (w : World P) (m : OrderModel) (p : P) : Prop :=
  w.returned p = some (.ok (m.toEntity, false)) ∨ w.returned p = some (.error .databaseError)

theorem returned_call {pt : CallPoint} (hp : w.procs p = .call a pt) : w.returned p = pt.result := by
  unfold World.returned
  rw [hp]

theorem returned_worker {W : OutboxWorker} {pt : WorkerPoint} (hp : w.procs p = .worker W pt) :
    w.returned p = none := by
  unfold World.returned
  rw [hp]

theorem ended_of_done (h : w.procs p = .call a (.done result)) : w.ended p = some result := by
  unfold World.ended
  rw [h]

/-- A request has ended with what was returned. -/
theorem returned_of_ended (h : w.ended p = some result) : w.returned p = some result := by
  unfold World.ended at h
  unfold World.returned
  split at h
  · rename_i hp
    rw [hp]
    exact h
  · cases h

/-- When something was returned, the request has ended or still has its session. -/
theorem ended_or_closing (h : w.returned p = some result) :
    w.ended p = some result ∨ ∃ a, w.procs p = .call a (.close result) := by
  unfold World.returned at h
  unfold World.ended
  cases hp : w.procs p with
  | call a pt =>
    rw [hp] at h
    cases pt with
    | close res => cases h; exact .inr ⟨a, rfl⟩
    | done res => cases h; exact .inl rfl
    | _ => cases h
  | worker W pt =>
    rw [hp] at h
    cases h

variable [DecidableEq P] {db db' : Db P} {o : Op} {r : Except Exc (Op.Resp o)} {pt : CallPoint}
  {k : Except Exc (Op.Resp o) → CallPoint} {t : ValidTables} {role : P → Role}

/-- A result is kept. -/
theorem CallPoint.result_kept (hn : pt.node a = .op o k) (hx : Exec db p o r db')
    (h : pt.result = some result) :
    (k r).result = some result := by
  cases pt with
  | close res =>
    cases hn
    cases hx with
    | failed hst => cases hst
    | close => exact h
  | done res => rcases res with e | v <;> cases hn
  | _ => cases h

/-- An order is created at the commit. -/
theorem CallPoint.result_created (hn : pt.node a = .op o k) (hx : Exec db p o r db')
    (h : (k r).result = some (.ok (order, false))) :
    pt.result = some (.ok (order, false)) ∨ ∃ event, pt = .commit order event := by
  cases pt with
  | validate =>
    cases hn
    dsimp only at h
    split at h <;> cases h
  | find | refind => cases hn; rcases r with e | _ | m <;> cases h
  | commit created event =>
    cases hn
    rcases r with e | u
    · cases e <;> cases h
    · cases h
      exact .inr ⟨event, rfl⟩
  | close res =>
    cases hn
    cases hx with
    | failed hst => cases hst
    | close => exact .inl h
  | rollback => cases hn; rcases r with e | u <;> cases h
  | done res => rcases res with e | v <;> cases hn
  | _ =>
    cases hn
    rcases r with e | u
    · cases e <;> cases h
    · cases h

/-- What the commit of a request does. -/
theorem commit_step {R : DateTime → DateTime → Prop} {tab : Tables} {r : Except Exc Unit}
    (hI : CallInv R tr tab p a (.commit order event) (db.session p)) (hx : Exec db p .commit r db') :
    ∃ m : OrderModel, order = m.toEntity ∧
      (r = .ok () ∧ db'.committed.orders = db.committed.orders ++ [m] ∨
        r = .error .databaseError ∧
          (db'.committed.orders = db.committed.orders ∨
            db'.committed.orders = db.committed.orders ++ [m])) := by
  obtain ⟨m, t, -, horder, hs, -⟩ := hI
  refine ⟨m, horder, ?_⟩
  have hview : (db.session p).Usable → (db.view schema p).orders = db.committed.orders ++ [m] := by
    intro hu
    rw [view_of_holds hs hu]
    rfl
  cases hx with
  | failed hst => cases hst
  | commit hu => exact .inl ⟨rfl, hview hu⟩
  | commitFailed => exact .inr ⟨rfl, .inl rfl⟩
  | commitLost hu => exact .inr ⟨rfl, .inr (hview hu)⟩

/-- Other operations of a request leave the orders as they are. -/
theorem orders_kept (hn : pt.node a = .op o k) (hx : Exec db p o r db')
    (hpt : ∀ order event, pt ≠ .commit order event) :
    db'.committed.orders = db.committed.orders := by
  obtain he | ⟨rfl, -, -⟩ := hx.committed
  · rw [he]
  · cases pt with
    | commit order event => exact absurd rfl (hpt order event)
    | done res => rcases res with e | v <;> cases hn
    | _ => cases hn

/-- And so does a worker. -/
theorem Reached.orders_kept (h : Reached t role tr w) {W : OutboxWorker} {pt : WorkerPoint}
    {k : Except Exc (Op.Resp o) → WorkerPoint} (hp : w.procs p = .worker W pt)
    (hn : pt.node W = .op o k)
    (hx : Exec w.db p o r db') : db'.committed.orders = w.db.committed.orders := by
  obtain he | ⟨rfl, hu, hv⟩ := hx.committed
  · rw [he]
  · rw [hv, view_of_holds (Reached.workerInv h hp).session hu]
    cases pt with
    | commit job attempt later => rfl
    | commitFailed job => rfl
    | _ => rfl

/-- The writers of the orders, one for each, with every request that created one. -/
structure Writers (w : World P) (writers : List P) : Prop where
  nodup : writers.Nodup
  wrote : List.Forall₂ (Wrote w) w.db.committed.orders writers
  created : ∀ p order, w.returned p = some (.ok (order, false)) → p ∈ writers

section Writers

variable {writers : List P} {R : DateTime → DateTime → Prop} {tab : Tables}

omit [DecidableEq P] in
theorem returned_congr (h : w'.procs q = w.procs q) : w'.returned q = w.returned q := by
  unfold World.returned
  rw [h]

omit [DecidableEq P] in
theorem Wrote.mono (h : Wrote w m q)
    (hkept : ∀ q result, w.returned q = some result → w'.returned q = some result) :
    Wrote w' m q := h.imp (hkept _ _) (hkept _ _)

omit [DecidableEq P] in
theorem Writers.keep (h : Writers w writers)
    (horders : w'.db.committed.orders = w.db.committed.orders)
    (hkept : ∀ q result, w.returned q = some result → w'.returned q = some result)
    (hnew : ∀ q order, w'.returned q = some (.ok (order, false)) →
      w.returned q = some (.ok (order, false))) :
    Writers w' writers where
  nodup := h.nodup
  wrote := by
    rw [horders]
    exact h.wrote.imp fun _ _ hw => hw.mono hkept
  created q order hans := h.created q order (hnew q order hans)

omit [DecidableEq P] in
/-- An order is added together with its writer, who had no result before. -/
theorem Writers.extend (h : Writers w writers)
    (horders : w'.db.committed.orders = w.db.committed.orders ++ [m])
    (hnone : w.returned p = none) (hwrote : Wrote w' m p)
    (hother : ∀ q, q ≠ p → w'.returned q = w.returned q) :
    Writers w' (writers ++ [p]) := by
  have hsome : ∀ q result, w.returned q = some result → q ≠ p := by
    rintro q result hq rfl
    rw [hnone] at hq
    cases hq
  have hfresh : p ∉ writers := by
    intro hp
    obtain ⟨m', -, hm'⟩ := Pairing.exists_left h.wrote hp
    exact hm'.elim (fun he => hsome _ _ he rfl) fun he => hsome _ _ he rfl
  refine ⟨List.nodup_append.2 ⟨h.nodup, List.nodup_singleton p, ?_⟩, ?_, fun q order hans => ?_⟩
  · rintro q hq q' hq' rfl
    exact hfresh (List.mem_singleton.1 hq' ▸ hq)
  · rw [horders]
    refine List.rel_append (h.wrote.imp fun _ _ hw => hw.mono fun q result hq => ?_)
      (.cons hwrote .nil)
    rw [hother q (hsome q result hq)]
    exact hq
  · by_cases hq : q = p
    · exact List.mem_append_right _ (List.mem_singleton.2 hq)
    · rw [hother q hq] at hans
      exact List.mem_append_left _ (h.created q order hans)

theorem returned_update {x : Proc} {db' : Db P} (hq : q ≠ p) :
    World.returned { w with procs := Function.update w.procs p x, db := db' } q = w.returned q :=
  returned_congr (Function.update_of_ne hq _ _)

/-- A request's step, other than its commit. -/
theorem Writers.call_step (h : Writers w writers) (hp : w.procs p = .call a pt)
    (hn : pt.node a = .op o k)
    (hx : Exec w.db p o r db') (hpt : ∀ order event, pt ≠ .commit order event) :
    Writers { w with procs := Function.update w.procs p (.call a (k r)), db := db' } writers := by
  have hself : World.returned
      { w with procs := Function.update w.procs p (.call a (k r)), db := db' } p = (k r).result :=
    returned_call (Function.update_self ..)
  refine h.keep (orders_kept hn hx hpt) (fun q result hq => ?_) fun q order hq => ?_
  · by_cases hqp : q = p
    · subst hqp
      rw [returned_call hp] at hq
      rw [hself]
      exact CallPoint.result_kept hn hx hq
    · rw [returned_update hqp]
      exact hq
  · by_cases hqp : q = p
    · subst hqp
      rw [hself] at hq
      rw [returned_call hp]
      refine (CallPoint.result_created hn hx hq).resolve_right ?_
      rintro ⟨event, he⟩
      exact hpt order event he
    · rw [returned_update hqp] at hq
      exact hq

/-- The commit of a request: its order is added with it, or it fails. -/
theorem Writers.commit_step (h : Writers w writers)
    (hI : CallInv R tr tab p a (.commit order event) (w.db.session p))
    (hp : w.procs p = .call a (.commit order event))
    (hn : (CallPoint.commit order event).node a = .op o k)
    (hx : Exec w.db p o r db') : ∃ writers',
    Writers { w with procs := Function.update w.procs p (.call a (k r)), db := db' } writers' := by
  cases hn
  have hnone : w.returned p = none := returned_call hp
  obtain ⟨m, rfl, ⟨rfl, horders⟩ | ⟨rfl, horders | horders⟩⟩ := OrdersApi.commit_step hI hx
  · exact ⟨_, h.extend horders hnone
      (.inl ((returned_call (Function.update_self ..)).trans rfl)) fun q hq => returned_update hq⟩
  · refine ⟨_, h.keep horders (fun q result hq => ?_) fun q order hq => ?_⟩
    · have hqp : q ≠ p := by
        rintro rfl
        rw [hnone] at hq
        cases hq
      rw [returned_update hqp]
      exact hq
    · by_cases hqp : q = p
      · subst hqp
        rw [returned_call (Function.update_self ..)] at hq
        cases hq
      · rw [returned_update hqp] at hq
        exact hq
  · exact ⟨_, h.extend horders hnone
      (.inr ((returned_call (Function.update_self ..)).trans rfl)) fun q hq => returned_update hq⟩

end Writers

/-- **Every order has a writer of its own.** -/
theorem Reached.writers (h : Reached .empty role tr w) : ∃ writers, Writers w writers := by
  refine Run.invariant (I := fun _ w => ∃ writers, Writers w writers)
    ⟨[], List.nodup_nil, .nil, ?_⟩ ?_ h
  · intro p order hans
    have hproc : (World.init .empty role).procs p = (role p).proc := rfl
    cases hr : role p with
    | call a =>
      rw [hr] at hproc
      rw [returned_call hproc] at hans
      cases hans
    | worker W polls =>
      rw [hr] at hproc
      rw [returned_worker hproc] at hans
      cases hans
  · rintro tr w l w' hrun ⟨writers, hW⟩ hs
    cases hs with
    | @call p a pt o k r db' _ hp hn hx =>
      by_cases hpt : ∃ order event, pt = .commit order event
      · obtain ⟨order, event, rfl⟩ := hpt
        exact hW.commit_step (Reached.callInv hrun hp) hp hn hx
      · exact ⟨writers, hW.call_step hp hn hx fun order event he => hpt ⟨order, event, he⟩⟩
    | @worker p W pt o k r db' _ hp hn hx =>
      have hreturned : ∀ q, World.returned
          { w with procs := Function.update w.procs p (.worker W (k r)), db := db' } q =
            w.returned q := by
        intro q
        by_cases hqp : q = p
        · subst hqp
          rw [returned_worker hp]
          exact returned_worker (Function.update_self ..)
        · exact returned_update hqp
      refine ⟨writers, hW.keep (Reached.orders_kept hrun hp hn hx)
        (fun q result hq => ?_) fun q order hq => ?_⟩
      · rw [hreturned]
        exact hq
      · rw [hreturned] at hq
        exact hq
    | die p => exact ⟨writers, hW.keep rfl (fun _ _ hq => hq) fun _ _ hq => hq⟩
    | abort p => exact ⟨writers, hW.keep rfl (fun _ _ hq => hq) fun _ _ hq => hq⟩

/-! ## Counters -/

section Counters

variable {ending : Ending} {counter : ApiCounter} {served : List P} {context : Option String}

/-- A request counts once, unless it ends in the fallback of the idempotent case; it is
observed under the status code that goes with the counter. -/
theorem counts_cases (context : Option String) (ending : Ending) :
    (∃ key, ending = .ok (.error (.duplicateOrder key))) ∨
      ∃ counter, ending.counts = [counter] ∧ ending.observes context = counter.statusCode.toList := by
  rcases ending with errors | exc | ⟨order, existing⟩
  · exact .inr ⟨_, rfl, rfl⟩
  · cases exc with
    | duplicateOrder key => exact .inl ⟨key, rfl⟩
    | _ => exact .inr ⟨_, rfl, rfl⟩
  · cases existing <;> exact .inr ⟨_, rfl, rfl⟩

omit [DecidableEq P] in
/-- A counter is the number of the requests that count it. -/
theorem count_requestCounts (w : World P) (served : List P) (counter : ApiCounter) :
    (w.requestCounts served).count counter =
      served.countP fun p => (w.ended p).any fun result => counter ∈ Ending.counts (.ok result) := by
  unfold World.requestCounts World.endings
  induction served with
  | nil => rfl
  | cons p served ih =>
    rw [List.countP_cons, ← ih]
    cases hans : w.ended p with
    | none => simp [hans]
    | some result =>
      have hone : (Ending.counts (.ok result)).count counter =
          if counter ∈ Ending.counts (.ok result) then 1 else 0 := by
        rcases counts_cases none (.ok result) with ⟨key, hkey⟩ | ⟨c, hc, -⟩
        · cases hkey
          rfl
        · rw [hc]
          by_cases h : counter = c
          · simp [h]
          · simp [h, Ne.symm h]
      have hany : ((some result).any fun result => counter ∈ Ending.counts (.ok result)) =
          decide (counter ∈ Ending.counts (.ok result)) := rfl
      rw [List.filterMap_cons_some hans, List.map_cons, List.flatMap_cons, List.count_append, hone,
        hany, Nat.add_comm]
      simp only [decide_eq_true_eq]

omit [DecidableEq P] in
theorem mem_requestCounts {r : Except Exc (Order × Bool)} (h : w.ended p = some r) :
    ((w.ended p).any fun result => counter ∈ Ending.counts (.ok result)) = true ↔
    counter ∈ Ending.counts (.ok r) := by
  rw [h]
  simp

omit [DecidableEq P] in
/-- A list without repetition of parties that count is no longer than the counter. -/
theorem length_le_count {ps : List P} (hps : ps.Nodup) (hall : w.AllServed served)
    (hcount : ∀ p ∈ ps, ∃ r, w.ended p = some r ∧ counter ∈ Ending.counts (.ok r)) :
    ps.length ≤ (w.requestCounts served).count counter := by
  rw [count_requestCounts, List.countP_eq_length_filter]
  refine (List.subperm_of_subset hps fun p hp => ?_).length_le
  obtain ⟨r, hr, hc⟩ := hcount p hp
  refine List.mem_filter.2 ⟨hall p ?_, (mem_requestCounts hr).2 hc⟩
  rw [hr]
  exact Option.some_ne_none r

omit [DecidableEq P] in
/-- The requests that counted a created order are among the writers. -/
theorem Writers.created_le {writers : List P} (hW : Writers w writers) (hnodup : served.Nodup) :
    (w.requestCounts served).count .ordersCreatedTotal ≤ writers.length := by
  rw [count_requestCounts, List.countP_eq_length_filter]
  refine (List.subperm_of_subset (hnodup.filter _) fun p hp => ?_).length_le
  obtain ⟨-, hany⟩ := List.mem_filter.1 hp
  obtain ⟨result, hr, hc⟩ := (Option.any_eq_true _ _).1 hany
  have hc := of_decide_eq_true hc
  rcases result with exc | ⟨order, existing⟩
  · cases exc <;> simp [Ending.counts, Ending.handlerCounts] at hc
  · cases existing with
    | false => exact hW.created p order (returned_of_ended hr)
    | true => simp [Ending.counts, Ending.routeCounts] at hc

omit [DecidableEq P] in
/-- A writer has counted a created order or an internal error, or still has its session. -/
theorem Writers.le_counts {writers closing : List P} (hW : Writers w writers)
    (hall : w.AllServed served)
    (hclosing : w.AllClosing closing) :
    writers.length ≤ (w.requestCounts served).count .ordersCreatedTotal +
      (w.requestCounts served).count (.ordersFailedTotal "internal_error") + closing.length := by
  classical
  let created : P → Bool := fun p => ∃ order, w.ended p = some (.ok (order, false))
  let failed : P → Bool := fun p => w.ended p = some (.error .databaseError)
  have hcreated : (writers.filter created).length ≤
      (w.requestCounts served).count .ordersCreatedTotal := by
    refine length_le_count (hW.nodup.filter _) hall fun p hp => ?_
    obtain ⟨order, hr⟩ := of_decide_eq_true (List.mem_filter.1 hp).2
    exact ⟨_, hr, List.mem_cons_self⟩
  have hfailed : ((writers.filter fun p => !created p).filter failed).length ≤
      (w.requestCounts served).count (.ordersFailedTotal "internal_error") := by
    refine length_le_count ((hW.nodup.filter _).filter _) hall fun p hp => ?_
    exact ⟨_, of_decide_eq_true (List.mem_filter.1 hp).2, List.mem_cons_self⟩
  have hrest : ((writers.filter fun p => !created p).filter fun p => !failed p).length ≤
      closing.length := by
    refine (List.subperm_of_subset ((hW.nodup.filter _).filter _) fun p hp => ?_).length_le
    obtain ⟨hp, hnot⟩ := List.mem_filter.1 hp
    obtain ⟨hp, hno⟩ := List.mem_filter.1 hp
    obtain ⟨m, -, hm | hm⟩ := Pairing.exists_left hW.wrote hp
    · rcases ended_or_closing hm with he | ⟨a, hclose⟩
      · have hyes : created p = true := decide_eq_true ⟨_, he⟩
        rw [hyes] at hno
        cases hno
      · exact hclosing p a _ hclose
    · rcases ended_or_closing hm with he | ⟨a, hclose⟩
      · have hyes : failed p = true := decide_eq_true he
        rw [hyes] at hnot
        cases hnot
      · exact hclosing p a _ hclose
  have hlength := List.length_eq_length_filter_add created (l := writers)
  have hothers := List.length_eq_length_filter_add failed (l := writers.filter fun p => !created p)
  omega

/-- **The counters bound the number of orders**: `orders_created_total` never exceeds it, and
only internal errors, and requests that have still to close their session, can make up the
difference. -/
theorem created_total_bounds (h : Reached .empty role tr w) {closing : List P} (hnodup : served.Nodup)
    (hall : w.AllServed served) (hclosing : w.AllClosing closing) :
    (w.requestCounts served).count .ordersCreatedTotal ≤ w.db.committed.orders.length ∧
      w.db.committed.orders.length ≤ (w.requestCounts served).count .ordersCreatedTotal +
        (w.requestCounts served).count (.ordersFailedTotal "internal_error") + closing.length := by
  obtain ⟨writers, hW⟩ := h.writers
  rw [hW.wrote.length_eq]
  exact ⟨hW.created_le hnodup, hW.le_counts hall hclosing⟩

/-- Two requests race for one order: one is counted as created, the other as idempotent. -/
theorem created_total_bounds_race : ∃ tr w, Reached .empty (fun _ : Bool => .call sampleCall) tr w ∧
    (w.requestCounts [true, false]).count .ordersCreatedTotal = 1 ∧
    w.db.committed.orders.length = 1 := by
  obtain ⟨-, tr, w, h, -, ⟨order, hp⟩, order', hp'⟩ := sample_race
  have hcounts : w.requestCounts [true, false] = [.ordersCreatedTotal, .ordersIdempotentTotal] := by
    unfold World.requestCounts World.endings
    rw [List.filterMap_cons_some (ended_of_done hp), List.filterMap_cons_some (ended_of_done hp')]
    rfl
  have hall : w.AllServed [true, false] := by
    intro p _
    cases p <;> simp
  have hclosing : w.AllClosing [] := by
    intro p a result hclose
    cases p with
    | true => rw [hp] at hclose; cases hclose
    | false => rw [hp'] at hclose; cases hclose
  have hbounds := created_total_bounds h (by decide) hall hclosing
  rw [hcounts] at hbounds
  have hone : [ApiCounter.ordersCreatedTotal, .ordersIdempotentTotal].count
      .ordersCreatedTotal = 1 := by decide
  have hzero : [ApiCounter.ordersCreatedTotal, .ordersIdempotentTotal].count
      (.ordersFailedTotal "internal_error") = 0 := by decide
  rw [hone, hzero, List.length_nil] at hbounds
  exact ⟨tr, w, h, by rw [hcounts]; exact hone, by omega⟩

end Counters

end OrdersApi
