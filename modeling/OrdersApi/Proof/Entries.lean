import OrdersApi.Proof.Delivery
import OrdersApi.Spec.History

/-!
# The entries of the ledger

The committed tables hold each order with its event (`Paired`), so that an order's entry
is read off the tables and the trace. How the entries change by a step: a commit of an
order is a new entry, a message that is handed over is one more for its entry, and a
commit of a status settles the entry.
-/

namespace OrdersApi

open TxStore Trace Pairing

variable {P : Type} {tr : List (Event P)} {l : Event P} {p : P} {tab : Tables}
  {R : DateTime → DateTime → Prop}
  {m : OrderModel} {e : OutboxEventModel} {event : OutboxEvent} {x : OrderModel × OutboxEventModel}

/-! ## Orders with their events -/

section Pairs

variable (hpair : Paired R tab)
include hpair

theorem Paired.pairs_fst : tab.pairs.map Prod.fst = tab.orders :=
  List.map_fst_zip (le_of_eq hpair.length_eq)

theorem Paired.pairs_snd : tab.pairs.map Prod.snd = tab.outboxEvents :=
  List.map_snd_zip (le_of_eq hpair.length_eq.symm)

theorem Paired.matches_pair (hx : x ∈ tab.pairs) : Matches R x.1 x.2 := List.forall₂_zip hpair hx

theorem Paired.exists_pair (he : e ∈ tab.outboxEvents) : ∃ m, (m, e) ∈ tab.pairs := by
  rw [← hpair.pairs_snd] at he
  obtain ⟨⟨m, e⟩, hx, rfl⟩ := List.mem_map.1 he
  exact ⟨m, hx⟩

theorem Paired.exists_pair_order (hm : m ∈ tab.orders) : ∃ e, (m, e) ∈ tab.pairs := by
  rw [← hpair.pairs_fst] at hm
  obtain ⟨⟨m, e⟩, hx, rfl⟩ := List.mem_map.1 hm
  exact ⟨e, hx⟩

theorem Paired.pairs_key_nodup (hk : tab.keys.Nodup) :
    (tab.pairs.map fun x => x.1.externalOrderId).Nodup := by
  have hkeys := Tables.externalOrderIds_nodup hk
  rw [← hpair.pairs_fst, List.map_map] at hkeys
  exact hkeys

theorem Paired.pairs_id_nodup (hk : tab.keys.Nodup) : (tab.pairs.map fun x => x.2.id).Nodup := by
  have hids := Tables.eventIds_nodup hk
  rw [← hpair.pairs_snd, List.map_map] at hids
  exact hids

omit hpair in
theorem Matches.key (h : Matches R m e) : e.payload.key = m.externalOrderId := by
  unfold Payload.key
  rw [h.eventOf.2.2]
  rfl

/-- The pair of an event that was read from the tables. -/
theorem Paired.pair_of_copy (hcopy : CopyIn tab event) : ∃ x ∈ tab.pairs, x.2.id = event.id ∧
    x.2.payload = event.payload ∧ x.1.externalOrderId = event.payload.key := by
  obtain ⟨s, hs⟩ := hcopy
  obtain ⟨m, hx⟩ := hpair.exists_pair hs
  exact ⟨_, hx, rfl, rfl, (hpair.matches_pair hx).key.symm⟩

/-- The entry of a committed order. -/
theorem Paired.entries_pair (hk : tab.keys.Nodup) (hx : x ∈ tab.pairs) :
    tab.entries tr x.1.externalOrderId = some (entryOf tr x) := by
  unfold Tables.entries
  rw [find_key (hpair.pairs_key_nodup hk) hx]
  rfl

end Pairs

theorem entries_none {key : String} (h : ∀ m ∈ tab.orders, m.externalOrderId ≠ key) :
    tab.entries tr key = none := by
  unfold Tables.entries
  rw [Option.map_eq_none_iff, List.find?_eq_none]
  intro x hx hkey
  exact h x.1 (List.of_mem_zip hx).1 (by simpa using hkey)

/-! ## The entries after a step -/

theorem handings_cons (e : UUID) (l : Event P) (tr : List (Event P)) :
    handings e (l :: tr) = handings e tr + if l.hands = some e then 1 else 0 := by
  unfold handings
  rw [List.filterMap_cons]
  cases l.hands with
  | none => rfl
  | some e' => simp [List.count_cons]

theorem entryOf_quiet (hl : l.hands ≠ some x.2.id) : entryOf (l :: tr) x = entryOf tr x := by
  unfold entryOf
  rw [handings_cons, if_neg hl]
  rfl

theorem entries_quiet (hl : l.hands = none) : tab.entries (l :: tr) = tab.entries tr := by
  funext key
  unfold Tables.entries
  refine congrArg (fun f => Option.map f _) (funext fun x => entryOf_quiet ?_)
  rw [hl]
  nofun

/-- A committed order is a new entry. -/
theorem entries_created (hlen : tab.orders.length = tab.outboxEvents.length)
    (hk : Tables.keys ⟨tab.orders ++ [m], tab.outboxEvents ++ [e]⟩ |>.Nodup) (hl : l.hands = none)
    (hsent : handings e.id tr = 0) (hst : e.status = .pending) :
    tab.entries tr m.externalOrderId = none ∧
      Tables.entries (l :: tr) ⟨tab.orders ++ [m], tab.outboxEvents ++ [e]⟩ =
        Function.update (tab.entries tr) m.externalOrderId
          (some ⟨m.toEntity, Json.dumps e.payload, 0, none⟩) := by
  have hnew : ∀ m' ∈ tab.orders, m'.externalOrderId ≠ m.externalOrderId := by
    have hnd := Tables.externalOrderIds_nodup hk
    rw [List.map_append, List.nodup_append'] at hnd
    exact fun m' hm' he => hnd.2.2 (List.mem_map_of_mem hm') (by simp [he])
  have hnone : tab.pairs.find? (fun x => x.1.externalOrderId = m.externalOrderId) = none := by
    rw [List.find?_eq_none]
    intro x hx hkey
    exact hnew x.1 (List.of_mem_zip hx).1 (by simpa using hkey)
  have hpairs : Tables.pairs ⟨tab.orders ++ [m], tab.outboxEvents ++ [e]⟩ = tab.pairs ++ [(m, e)] :=
    List.zip_append hlen
  refine ⟨entries_none hnew, ?_⟩
  rw [entries_quiet hl]
  funext key
  unfold Tables.entries
  rw [hpairs, List.find?_append]
  by_cases hkey : key = m.externalOrderId
  · subst hkey
    rw [hnone, Function.update_self]
    simp [entryOf, hsent, hst, OutboxStatus.outcome]
  · have hne : m.externalOrderId ≠ key := fun he => hkey he.symm
    rw [Function.update_of_ne hkey, List.find?_cons_of_neg (by simpa using hne), List.find?_nil, Option.or_none]

/-- A message that is handed over is one more for its entry. -/
theorem entries_sent (hpair : Paired R tab) (hk : tab.keys.Nodup) (hx : x ∈ tab.pairs)
    (hl : l.hands = some x.2.id) : tab.entries (l :: tr) =
      Function.update (tab.entries tr) x.1.externalOrderId
        (some { entryOf tr x with sent := (entryOf tr x).sent + 1 }) := by
  funext key
  by_cases hkey : key = x.1.externalOrderId
  · subst hkey
    rw [Function.update_self, hpair.entries_pair hk hx]
    unfold entryOf
    rw [handings_cons, if_pos hl]
  · rw [Function.update_of_ne hkey]
    unfold Tables.entries
    refine Option.map_congr fun y hy => entryOf_quiet ?_
    have hykey : y.1.externalOrderId = key := by simpa using List.find?_some hy
    rw [hl]
    intro he
    have hxy := List.inj_on_of_nodup_map (hpair.pairs_id_nodup hk) hx (List.mem_of_find?_eq_some hy)
      (Option.some.inj he)
    exact hkey (by rw [← hykey, hxy])

/-- A status that is committed settles the entry of its event. -/
theorem entries_settled (hpair : Paired R tab) (hk : tab.keys.Nodup) (hx : x ∈ tab.pairs)
    (hl : l.hands = none)
    (status : OutboxStatus) : (tab.apply (.setStatus x.2.id status)).entries (l :: tr) =
      Function.update (tab.entries tr) x.1.externalOrderId
        (some { entryOf tr x with outcome := status.outcome }) := by
  rw [entries_quiet hl]
  have hpairs : (tab.apply (.setStatus x.2.id status)).pairs =
      tab.pairs.map fun y => (y.1, y.2.setStatus x.2.id status) := List.zip_map_right ..
  have hfind : ∀ key, (tab.apply (.setStatus x.2.id status)).entries tr key =
      (tab.pairs.find? fun y => y.1.externalOrderId = key).map
        fun y => entryOf tr (y.1, y.2.setStatus x.2.id status) := by
    intro key
    unfold Tables.entries
    rw [hpairs, List.find?_map, Option.map_map]
    rfl
  funext key
  rw [hfind]
  by_cases hkey : key = x.1.externalOrderId
  · rw [hkey, find_key (hpair.pairs_key_nodup hk) hx, Function.update_self]
    simp [entryOf, OutboxEventModel.setStatus]
  · rw [Function.update_of_ne hkey]
    refine Option.map_congr fun y hy => ?_
    have hykey : y.1.externalOrderId = key := by simpa using List.find?_some hy
    have hid : y.2.id ≠ x.2.id := by
      intro he
      have hxy := List.inj_on_of_nodup_map (hpair.pairs_id_nodup hk) (List.mem_of_find?_eq_some hy) hx he
      exact hkey (by rw [← hykey, hxy])
    unfold OutboxEventModel.setStatus
    rw [if_neg hid]

end OrdersApi
