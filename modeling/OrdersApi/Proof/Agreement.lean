import OrdersApi.Proof.Atomicity
import Mathlib.Data.List.Pairwise

/-!
# Concurrent calls agree

Every primary key in the committed tables was there before the run or was drawn by a
request that has reached its commit (`Reached.ids_origin`). With fresh UUIDs a request
that has not reached its commit therefore never collides, so its second lookup finds
the order of the request that it lost against.
-/

namespace OrdersApi

open TxStore Trace

variable {P : Type} {tr : List (Event P)} {p q : P} {u : UUID} {t : ValidTables}

theorem mem_ids {tab : Tables} : u ∈ tab.ids ↔
    (∃ m ∈ tab.orders, m.id = u) ∨ ∃ e ∈ tab.outboxEvents, e.id = u := by
  simp [Tables.ids]

theorem ids_setStatus (tab : Tables) (e : UUID) (status : OutboxStatus) :
    (tab.apply (.setStatus e status)).ids = tab.ids := by
  simp [Tables.ids, Tables.apply, Function.comp_def]

theorem Drawn.mem_draws (h : Drawn tr p u) : u ∈ draws tr := List.mem_filterMap.2 ⟨_, h, rfl⟩

theorem FreshUuids.tail {l : Event P} (h : FreshUuids t (l :: tr)) : FreshUuids t tr := by
  have hsub : (draws tr).Sublist (draws (l :: tr)) := (List.sublist_cons_self l tr).filterMap _
  exact ⟨h.1.sublist hsub, fun u hu => h.2 u (hsub.subset hu)⟩

/-- A fresh UUID is drawn by one party. -/
theorem drawn_unique (hfresh : (draws tr).Nodup) (hp : Drawn tr p u) (hq : Drawn tr q u) : p = q := by
  by_contra hne
  have hpair := List.pairwise_filterMap.1 hfresh
  have hsymm : Std.Symm fun l l' : Event P => ∀ b, l.draw = some b → ∀ b', l'.draw = some b' → b ≠ b' :=
    ⟨fun l l' h b hb b' hb' he => h b' hb' b hb he.symm⟩
  have hlab : (Event.exec p .uuid4 (.ok u) : Event P) ≠ .exec q .uuid4 (.ok u) :=
    fun he => hne (Event.exec.inj he).1
  exact hpair.forall hp hq hlab u rfl u rfl rfl

section Reach

variable [DecidableEq P] {role : P → Role} {w : World P}

/-- Where the primary keys come from. -/
theorem Reached.ids_origin (h : Reached t role tr w) : ∀ u ∈ w.db.committed.ids,
    u ∈ t.1.ids ∨ ∃ p r, Drawn tr p u ∧ .exec p .commit r ∈ tr := by
  refine Run.invariant (I := fun tr w => ∀ u ∈ w.db.committed.ids,
    u ∈ t.1.ids ∨ ∃ p r, Drawn tr p u ∧ .exec p .commit r ∈ tr) ?_ ?_ h
  · exact fun u hu => .inl hu
  · intro tr w l w' hrun hI hs u hu
    have hkeep : u ∈ w.db.committed.ids →
        u ∈ t.1.ids ∨ ∃ p r, Drawn (l :: tr) p u ∧ .exec p .commit r ∈ l :: tr := by
      intro hu
      refine (hI u hu).imp_right ?_
      rintro ⟨p, r, hd, hc⟩
      exact ⟨p, r, hd.cons l, List.mem_cons_of_mem _ hc⟩
    cases Reached.commits hrun hs with
    | same ht => exact hkeep (ht ▸ hu)
    | settled p W pt e status r _ _ _ _ _ ht => exact hkeep (ids_setStatus _ e status ▸ ht ▸ hu)
    | created p a m event t r hl _ hm ht =>
      rw [ht, mem_ids] at hu
      simp only [List.mem_append, List.mem_singleton] at hu
      rcases hu with ⟨m', hm' | rfl, rfl⟩ | ⟨e, he | rfl, rfl⟩
      · exact hkeep (mem_ids.2 (.inl ⟨m', hm', rfl⟩))
      -- the two new rows have the UUIDs that the committing request drew
      · exact .inr ⟨p, r, hm.orderDrawn.cons l, hl ▸ List.mem_cons_self⟩
      · exact hkeep (mem_ids.2 (.inr ⟨e, he, rfl⟩))
      · exact .inr ⟨p, r, hm.eventDrawn.cons l, hl ▸ List.mem_cons_self⟩

/-- **No collisions.** With fresh UUIDs, a request that has not reached its commit has
drawn no UUID that a committed row uses. -/
theorem Reached.not_collided (h : Reached t role tr w) (hfresh : FreshUuids t tr)
    (hnc : NotCommitted tr p) :
    ¬ Collided tr w.db.committed p := by
  rintro ⟨u, hd, hu⟩
  rcases h.ids_origin u hu with ht | ⟨q, r, hq, hc⟩
  · exact hfresh.2 u hd.mem_draws ht
  · rw [← drawn_unique hfresh.1 hd hq] at hc
    exact hnc r hc

theorem Reached.result (h : Reached t role tr w) {a : CallArgs} {r : Except Exc (Order × Bool)}
    (hr : w.Result p a r) : ResultInv tr w.db.committed p a r := by
  obtain ⟨pt, hp, hres⟩ := hr
  have hI := h.callInv hp
  cases pt with
  | close res => cases hres; exact hI.1
  | done res => cases hres; exact hI.1
  | _ => cases hres

/-- Two calls look the same order up before either inserts it: the second one waits, at
first, and then loses. Both come to their end. -/
theorem sample_race : (∃ tr w, Reached .empty (fun _ : Bool => .call sampleCall) tr w ∧
      draws tr = [sampleUuid 3, sampleUuid 2, sampleUuid 1, sampleUuid 0] ∧ w.alive = (fun _ => True) ∧
      w.WaitsFor false true) ∧
    ∃ tr w, Reached .empty (fun _ : Bool => .call sampleCall) tr w ∧
      draws tr = [sampleUuid 3, sampleUuid 2, sampleUuid 1, sampleUuid 0] ∧
      (∃ order, w.procs true = .call sampleCall (.done (.ok (order, false)))) ∧
      ∃ order, w.procs false = .call sampleCall (.done (.ok (order, true))) := by
  have h0 : Reached .empty (fun _ : Bool => .call sampleCall) [] _ := .init
  have h1 := h0.step (.call (p := true) trivial rfl rfl (.get _ _ (.ok ⟨200, ""⟩)))
  have h2 := h1.step (.call (p := false) trivial rfl rfl (.get _ _ (.ok ⟨200, ""⟩)))
  have h3 := h2.step (.call (p := true) trivial rfl rfl (.selectOrder _ trivial))
  have h4 := h3.step (.call (p := false) trivial rfl rfl (.selectOrder _ trivial))
  have h5 := h4.step (.call (p := true) trivial rfl rfl (.uuid4 (sampleUuid 0)))
  have h6 := h5.step (.call (p := false) trivial rfl rfl (.uuid4 (sampleUuid 1)))
  have h7 := h6.step (.call (p := true) trivial rfl rfl (.now (sampleTime 0)))
  have h8 := h7.step (.call (p := false) trivial rfl rfl (.now (sampleTime 0)))
  have h9 := h8.step (.call (p := true) trivial rfl rfl (.uuid4 (sampleUuid 2)))
  have h10 := h9.step (.call (p := false) trivial rfl rfl (.uuid4 (sampleUuid 3)))
  have h11 := h10.step (.call (p := true) trivial rfl rfl (.now (sampleTime 1)))
  have h12 := h11.step (.call (p := false) trivial rfl rfl (.now (sampleTime 1)))
  have h13 := h12.step (.call (p := true) trivial rfl rfl (.insertOrder _ trivial
    (fun k _ => free_of_other rfl k) fun _ _ => List.not_mem_nil))
  -- the second call is at its insert, and the first one has not committed
  refine ⟨⟨_, _, h13, rfl, rfl, .insertOrder _, ⟨_, rfl⟩, trivial, nofun,
    .externalOrderId sampleCall.externalOrderId, ?_, ?_⟩, ?_⟩
  · exact List.mem_cons_of_mem _ List.mem_cons_self
  · exact List.mem_cons_of_mem _ List.mem_cons_self
  have h14 := h13.step (.call (p := true) trivial rfl rfl (.now (sampleTime 1)))
  have h15 := h14.step (.call (p := true) trivial rfl rfl (.insertOutboxEvent _ trivial
    (fun k _ => free_of_other rfl k)
    (by rintro k (_ | ⟨_, ⟨⟩⟩) (_ | ⟨_, _ | ⟨_, ⟨⟩⟩⟩))))
  have h16 := h15.step (.call (p := true) trivial rfl rfl (.commit trivial))
  -- the insert of the second call has waited for that commit
  have h17 := h16.step (.call (p := false) trivial rfl rfl (.insertOrderConflict _ trivial
    (.externalOrderId sampleCall.externalOrderId) (by decide) (by decide)))
  have h18 := h17.step (.call (p := false) trivial rfl rfl .rollback)
  have h19 := h18.step (.call (p := false) trivial rfl rfl (.selectOrder _ trivial))
  have h20 := h19.step (.call (p := true) trivial rfl rfl .close)
  have h21 := h20.step (.call (p := false) trivial rfl rfl .close)
  exact ⟨_, _, h21, rfl, ⟨_, rfl⟩, _, rfl⟩

/-- **Agreement.** The calls for one `external_order_id` that return normally return the
committed order; at most one says that it created it, and none raises
`DuplicateOrderException`. -/
theorem create_order_agreement (h : Reached t role tr w) (hfresh : FreshUuids t tr) :
    (∀ p a key, ¬ w.Result p a (.error (.duplicateOrder key))) ∧
    (∀ p a order idempotent, w.Result p a (.ok (order, idempotent)) →
      ∃ m ∈ w.db.committed.orders, m.externalOrderId = a.externalOrderId ∧ order = m.toEntity) ∧
    ∀ p q a b order order' idempotent idempotent', w.Result p a (.ok (order, idempotent)) →
      w.Result q b (.ok (order', idempotent')) → a.externalOrderId = b.externalOrderId →
      order = order' ∧ (idempotent = false → idempotent' = false → p = q) := by
  refine ⟨fun p a key hr => ?_, fun p a order idempotent hr => ?_, ?_⟩
  · obtain ⟨hcol, hnc⟩ := h.result hr key rfl
    exact h.not_collided hfresh hnc hcol
  · obtain ⟨m, hm, hk, ho, -⟩ := h.result hr
    exact ⟨m, hm, hk, ho⟩
  · intro p q a b order order' idempotent idempotent' hp hq hab
    obtain ⟨m, hm, hk, rfl, hd⟩ := h.result hp
    obtain ⟨m', hm', hk', rfl, hd'⟩ := h.result hq
    obtain rfl := Tables.order_of_externalOrderId h.keys_nodup hm hm' (by rw [hk, hk', hab])
    exact ⟨rfl, fun hi hi' => drawn_unique hfresh.1 (hd hi) (hd' hi')⟩

theorem create_order_agreement_race : ∃ tr w order order',
    Reached .empty (fun _ : Bool => .call sampleCall) tr w ∧
    w.Result true sampleCall (.ok (order, false)) ∧ w.Result false sampleCall (.ok (order', true)) ∧
    order = order' := by
  obtain ⟨-, tr, w, h, hdraws, ⟨order, hp⟩, order', hp'⟩ := sample_race
  have hfresh : FreshUuids .empty tr := ⟨by rw [hdraws]; decide, fun _ _ => List.not_mem_nil⟩
  have hr : w.Result true sampleCall (.ok (order, false)) := ⟨_, hp, rfl⟩
  have hr' : w.Result false sampleCall (.ok (order', true)) := ⟨_, hp', rfl⟩
  exact ⟨tr, w, order, order', h, hr, hr',
    ((create_order_agreement h hfresh).2.2 true false _ _ _ _ _ _ hr hr' rfl).1⟩

end Reach

end OrdersApi
