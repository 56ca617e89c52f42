import Mathlib.Data.List.Forall2
import Mathlib.Data.List.Nodup

/-!
# One-to-one correspondences between lists

`OneToOne r xs ys`: every entry of either list is related to exactly one entry of the
other. Two lists that are related entry by entry correspond one to one when no two
entries of the first are related to a common one (`oneToOne_of_forall₂`).
-/

namespace Pairing

variable {α β : Type*} {r : α → β → Prop} {xs : List α} {ys : List β}

/-- The entry with a key, when keys are distinct. -/
theorem find_key [DecidableEq β] {key : α → β} (h : (xs.map key).Nodup) {x : α} (hx : x ∈ xs) :
    xs.find? (fun y => key y = key x) = some x := by
  cases hfind : xs.find? fun y => key y = key x with
  | none => exact absurd (List.find?_eq_none.1 hfind x hx) (by simp)
  | some y =>
    have hkey : key y = key x := by simpa using List.find?_some hfind
    rw [List.inj_on_of_nodup_map h (List.mem_of_find?_eq_some hfind) hx hkey]

theorem exists_right (h : List.Forall₂ r xs ys) {x : α} (hx : x ∈ xs) : ∃ y ∈ ys, r x y := by
  induction h with
  | nil => cases hx
  | @cons a b _ _ hab _ ih =>
    rcases List.mem_cons.1 hx with rfl | hx
    · exact ⟨b, List.mem_cons_self, hab⟩
    · obtain ⟨y, hy, hr⟩ := ih hx
      exact ⟨y, List.mem_cons_of_mem _ hy, hr⟩

theorem exists_left (h : List.Forall₂ r xs ys) {y : β} (hy : y ∈ ys) : ∃ x ∈ xs, r x y :=
  exists_right h.flip hy

/-- Every entry of either list is related to exactly one entry of the other. -/
structure OneToOne (r : α → β → Prop) [∀ x y, Decidable (r x y)] (xs : List α)
    (ys : List β) : Prop where
  right : ∀ x ∈ xs, ys.countP (fun y => r x y) = 1
  left : ∀ y ∈ ys, xs.countP (fun x => r x y) = 1

variable [∀ x y, Decidable (r x y)]

/-- The partner of an entry of the first list is unique. -/
theorem OneToOne.right_unique (h : OneToOne r xs ys) {x : α} (hx : x ∈ xs) {y y' : β} (hy : y ∈ ys)
    (hy' : y' ∈ ys) (hr : r x y) (hr' : r x y') : y = y' := by
  have hlen : (ys.filter fun y => r x y).length = 1 := by
    rw [← List.countP_eq_length_filter]; exact h.right x hx
  obtain ⟨z, hz⟩ := List.length_eq_one_iff.1 hlen
  have hmem : ∀ y ∈ ys, r x y → y = z := fun y hy hr => by
    have : y ∈ ys.filter fun y => r x y := List.mem_filter.2 ⟨hy, by simpa using hr⟩
    rw [hz] at this
    exact List.mem_singleton.1 this
  rw [hmem y hy hr, hmem y' hy' hr']

/-- **Entrywise related lists correspond one to one** when related entries have no
common partner. -/
theorem oneToOne_of_forall₂ (h : List.Forall₂ r xs ys)
    (hsep : xs.Pairwise fun x x' => ∀ y, r x y → ¬ r x' y) : OneToOne r xs ys := by
  induction h with
  | nil => exact ⟨nofun, nofun⟩
  | @cons x y xs ys hxy hrest ih =>
    obtain ⟨hx, hxs⟩ := List.pairwise_cons.1 hsep
    have hrec := ih hxs
    -- the partners of `ys` are in `xs`, so `x` is none of them
    have hys : ∀ y' ∈ ys, ¬ r x y' := by
      intro y' hy' hr
      obtain ⟨x', hx', hr'⟩ := exists_left hrest hy'
      exact hx x' hx' y' hr hr'
    refine ⟨fun x' hx' => ?_, fun y' hy' => ?_⟩
    · rw [List.countP_cons]
      rcases List.mem_cons.1 hx' with rfl | hx'
      · have hzero : ys.countP (fun y => r x' y) = 0 := List.countP_eq_zero.2 (by simpa using hys)
        simp [hzero, hxy]
      · simp [hrec.right x' hx', hx x' hx' y hxy]
    · rw [List.countP_cons]
      rcases List.mem_cons.1 hy' with rfl | hy'
      · have hzero : xs.countP (fun x => r x y') = 0 :=
          List.countP_eq_zero.2 (by simpa using fun x' hx' => hx x' hx' y' hxy)
        simp [hzero, hxy]
      · simp [hrec.left y' hy', hys y' hy']

end Pairing
