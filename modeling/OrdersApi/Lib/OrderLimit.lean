import Mathlib.Data.Set.Card

/-!
# `SELECT … WHERE … ORDER BY … LIMIT`

`Selected table elig key n rows`: `rows` are the first `n` eligible rows of `table` by
`key`, in any order among equal keys. A row is selected when fewer than `n` others come
no later (`Selected.mem`), and only if fewer than `n` come strictly earlier
(`Selected.reach`). Selecting again from what is left gives the first rows of the whole
(`Oldest.append`).
-/

namespace OrderLimit

variable {α K : Type*} [LinearOrder K] {table rows : List α} {elig : α → Prop} {key : α → K}
  {n : ℕ} {row : α}

structure Selected (table : List α) (elig : α → Prop) (key : α → K) (n : ℕ) (rows : List α) : Prop where
  sub : rows.Subperm table
  eligible : ∀ row ∈ rows, elig row
  sorted : rows.Pairwise fun x y => key x ≤ key y
  limit : rows.length ≤ n
  first : ∀ row ∈ table, elig row → row ∉ rows → rows.length = n ∧ ∀ x ∈ rows, key x ≤ key row

/-- In a sorted table whose eligible rows fit into the limit, these are selected. -/
theorem selected_filter {f : α → Bool} (hf : ∀ row ∈ table, f row = true ↔ elig row)
    (hsorted : table.Pairwise fun x y => key x ≤ key y) (hlen : (table.filter f).length ≤ n) :
    Selected table elig key n (table.filter f) where
  sub := List.filter_sublist.subperm
  eligible row hrow := (hf row (List.mem_of_mem_filter hrow)).1 (List.mem_filter.1 hrow).2
  sorted := hsorted.filter f
  limit := hlen
  first row hrow he hno := absurd (List.mem_filter.2 ⟨hrow, (hf row hrow).2 he⟩) hno

/-- Nothing is selected when nothing is eligible. -/
theorem selected_nil (h : ∀ row ∈ table, ¬ elig row) : Selected table elig key n [] where
  sub := List.nil_subperm
  eligible _ hrow := absurd hrow List.not_mem_nil
  sorted := .nil
  limit := Nat.zero_le n
  first row hrow he _ := absurd he (h row hrow)

/-- Whatever the table and the limit, there is a result. -/
theorem exists_selected (table : List α) (elig : α → Prop) (key : α → K) (n : ℕ) :
    ∃ rows, Selected table elig key n rows := by
  classical
  let le : α → α → Bool := fun x y => key x ≤ key y
  let sorted := (table.filter fun x => elig x).mergeSort le
  have hperm : sorted.Perm (table.filter fun x => elig x) := List.mergeSort_perm _ _
  have hsorted : sorted.Pairwise fun x y => key x ≤ key y := by
    have : sorted.Pairwise fun x y => le x y := List.pairwise_mergeSort (fun a b c hab hbc => by
      simp only [le, decide_eq_true_eq] at hab hbc ⊢; exact hab.trans hbc)
      (fun a b => by simpa [le] using le_total (key a) (key b)) (table.filter fun x => elig x)
    exact this.imp fun h => by simpa [le] using h
  refine ⟨sorted.take n, ?_, ?_, hsorted.sublist (List.take_sublist _ _), List.length_take_le _ _, ?_⟩
  · exact (List.take_sublist n sorted).subperm.trans (hperm.subperm.trans List.filter_sublist.subperm)
  · intro row hrow
    simpa using (List.mem_filter.1 (hperm.mem_iff.1 (List.take_subset _ _ hrow))).2
  · intro row hrow he hno
    -- what is not taken comes after all that is
    have hmem : row ∈ sorted := hperm.mem_iff.2 (List.mem_filter.2 ⟨hrow, by simpa using he⟩)
    rw [← List.take_append_drop n sorted] at hmem hsorted
    have hdrop := (List.mem_append.1 hmem).resolve_left hno
    refine ⟨?_, fun x hx => (List.pairwise_append.1 hsorted).2.2 x hx row hdrop⟩
    have hlen := List.length_pos_of_mem hdrop
    rw [List.length_drop] at hlen
    rw [List.length_take]; omega

theorem Selected.nodup (h : Selected table elig key n rows) (htable : table.Nodup) : rows.Nodup := by
  obtain ⟨l, hperm, hsub⟩ := h.sub
  exact hperm.nodup_iff.1 (htable.sublist hsub)

/-- A set of eligible rows that contains some given rows has at least as many. -/
theorem length_le_ncard (hrows : rows.Nodup) {s : Set α} (hs : ∀ x ∈ s, x ∈ table)
    (hsub : ∀ x ∈ rows, x ∈ s) :
    rows.length ≤ s.ncard := by
  classical
  have hfin : s.Finite := (List.finite_toSet table).subset hs
  have hcard := Set.ncard_le_ncard (s := rows.toFinset) (fun x hx => hsub x (by simpa using hx)) hfin
  rwa [Set.ncard_coe_finset, List.toFinset_card_of_nodup hrows] at hcard

/-- **A row is selected** when fewer than `n` other eligible rows come no later. -/
theorem Selected.mem (h : Selected table elig key n rows) (htable : table.Nodup) (hrow : row ∈ table)
    (helig : elig row) (hfew : {x | x ∈ table ∧ elig x ∧ x ≠ row ∧ key x ≤ key row}.ncard < n) :
    row ∈ rows := by
  by_contra hno
  obtain ⟨hlen, hfirst⟩ := h.first row hrow helig hno
  have hle : rows.length ≤ {x | x ∈ table ∧ elig x ∧ x ≠ row ∧ key x ≤ key row}.ncard := by
    refine length_le_ncard (h.nodup htable) (fun x hx => hx.1) fun x hx => ?_
    exact ⟨h.sub.subset hx, h.eligible x hx, fun he => hno (he ▸ hx), hfirst x hx⟩
  omega

/-- **A selected row** has fewer than `n` eligible rows strictly before it. -/
theorem Selected.reach (h : Selected table elig key n rows) (htable : table.Nodup) (hrow : row ∈ rows) :
    {x | x ∈ table ∧ elig x ∧ key x < key row}.ncard < n := by
  classical
  -- an earlier row that was not selected would come after the selected ones
  have hall : {x | x ∈ table ∧ elig x ∧ key x < key row} ⊆ (rows.toFinset.erase row : Finset α) := by
    rintro x ⟨hx, he, hlt⟩
    have hmem : x ∈ rows := by
      by_contra hno
      exact absurd ((h.first x hx he hno).2 row hrow) (not_le.2 hlt)
    have hne : x ≠ row := fun e => absurd (e ▸ hlt) (lt_irrefl _)
    simpa [hne] using hmem
  have hcard := Set.ncard_le_ncard hall (Finset.finite_toSet _)
  have hrow' : row ∈ rows.toFinset := by simpa using hrow
  rw [Set.ncard_coe_finset, Finset.card_erase_of_mem hrow',
    List.toFinset_card_of_nodup (h.nodup htable)] at hcard
  have hpos : 0 < rows.length := List.length_pos_of_mem hrow
  have hlimit := h.limit
  omega

/-! ## Selecting again and again -/

/-- `rows` are the first `n` of the rows in `pool`, or all of them. -/
structure Oldest (pool : List α) (key : α → K) (n : ℕ) (rows : List α) : Prop where
  sub : rows.Subperm pool
  length : rows.length = min pool.length n
  sorted : rows.Pairwise fun x y => key x ≤ key y
  first : ∀ x ∈ rows, ∀ row ∈ pool, row ∉ rows → key x ≤ key row

variable {pool rows' : List α} {m : ℕ}

theorem Oldest.nil (pool : List α) (key : α → K) : Oldest pool key 0 [] where
  sub := List.nil_subperm
  length := by simp
  sorted := .nil
  first := nofun

/-- A result of the query is the beginning of the eligible rows. -/
theorem Selected.oldest (h : Selected table elig key n rows) {f : α → Bool} (htable : table.Nodup)
    (hf : ∀ row ∈ table, f row = true ↔ elig row) : Oldest (table.filter f) key n rows := by
  have hmem : ∀ x ∈ rows, x ∈ table.filter f := fun x hx =>
    List.mem_filter.2 ⟨h.sub.subset hx, (hf x (h.sub.subset hx)).2 (h.eligible x hx)⟩
  have hsub : rows.Subperm (table.filter f) := (h.nodup htable).subperm hmem
  refine ⟨hsub, ?_, h.sorted, fun x hx row hrow hno => ?_⟩
  · have hle := hsub.length_le
    have hlimit := h.limit
    by_cases hall : ∀ row ∈ table.filter f, row ∈ rows
    · have := ((htable.filter f).subperm hall).length_le
      omega
    · push Not at hall
      obtain ⟨row, hrow, hno⟩ := hall
      obtain ⟨hrow, helig⟩ := List.mem_filter.1 hrow
      have := (h.first row hrow ((hf row hrow).1 helig) hno).1
      omega
  · obtain ⟨hrow, helig⟩ := List.mem_filter.1 hrow
    exact (h.first row hrow ((hf row hrow).1 helig) hno).2 x hx

theorem Oldest.nodup (h : Oldest pool key n rows) (hpool : pool.Nodup) : rows.Nodup := by
  obtain ⟨l, hperm, hsub⟩ := h.sub
  exact hperm.nodup_iff.1 (hpool.sublist hsub)

/-- How many rows are left. -/
theorem Oldest.length_left [DecidableEq α] (h : Oldest pool key n rows) (hpool : pool.Nodup) :
    (pool.filter fun row => row ∉ rows).length + rows.length = pool.length := by
  have hperm : (pool.filter fun row => row ∈ rows).Perm rows := by
    refine (List.perm_ext_iff_of_nodup (hpool.filter _) (h.nodup hpool)).2 fun x => ?_
    simpa using fun hx => h.sub.subset hx
  have hadd := List.length_eq_length_filter_add (l := pool) fun row => decide (row ∈ rows)
  simp only [← decide_not] at hadd
  rw [hperm.length_eq] at hadd
  omega

/-- **Selecting from what is left** goes on with the first rows of the whole. -/
theorem Oldest.append [DecidableEq α] (h : Oldest pool key n rows) (hpool : pool.Nodup)
    (h' : Oldest (pool.filter fun row => row ∉ rows) key m rows') :
    Oldest pool key (n + m) (rows ++ rows') := by
  have hrest : ∀ x ∈ rows', x ∈ pool ∧ x ∉ rows := fun x hx => by simpa using h'.sub.subset hx
  have hnodup : (rows ++ rows').Nodup :=
    List.nodup_append'.2 ⟨h.nodup hpool, h'.nodup (hpool.filter _), fun x hx hx' => (hrest x hx').2 hx⟩
  refine ⟨hnodup.subperm ?_, ?_, ?_, ?_⟩
  · intro x hx
    rcases List.mem_append.1 hx with hx | hx
    · exact h.sub.subset hx
    · exact (hrest x hx).1
  · have hleft := h.length_left hpool
    rw [List.length_append, h'.length, h.length]
    have := h.length
    omega
  · refine List.pairwise_append.2 ⟨h.sorted, h'.sorted, fun x hx y hy => ?_⟩
    -- the second selection is of rows that the first one passed over
    exact h.first x hx y (hrest y hy).1 (hrest y hy).2
  · intro x hx row hrow hno
    simp only [List.mem_append, not_or] at hno
    rcases List.mem_append.1 hx with hx | hx
    · exact h.first x hx row hrow hno.1
    · exact h'.first x hx row (List.mem_filter.2 ⟨hrow, by simpa using hno.1⟩) hno.2

end OrderLimit
