import Mathlib.Data.List.Nodup
import Mathlib.Data.List.Induction

/-!
# The first of each key

A receiver that keeps an item only if it has kept none with its key. What it has kept
(`kept`) has distinct keys, and the keys of everything received; where a key determines
the item, what is kept depends on the items received alone, neither on how often nor on
the order in which they came (`kept_perm`).
-/

namespace Distinct

variable {α κ : Type*} [DecidableEq κ] (key : α → κ)

/-- The receiver takes in an item. -/
def receive (items : List α) (x : α) : List α :=
  if key x ∈ items.map key then items else items ++ [x]

/-- What is kept of the items `xs`, received in this order. -/
def kept (xs : List α) : List α := xs.foldl (receive key) []

variable {key} {xs ys items : List α} {x : α} {k : κ}

@[simp] theorem kept_nil : kept key ([] : List α) = [] := rfl

@[simp] theorem kept_concat : kept key (xs ++ [x]) = receive key (kept key xs) x := by simp [kept]

theorem receive_keys : k ∈ (receive key items x).map key ↔ k ∈ items.map key ∨ k = key x := by
  unfold receive
  split
  · rename_i hmem
    exact ⟨.inl, fun h => h.elim id (· ▸ hmem)⟩
  · simp

/-- **Everything received is represented**, by an item with its key. -/
theorem mem_map_kept : k ∈ (kept key xs).map key ↔ k ∈ xs.map key := by
  induction xs using List.reverseRecOn with
  | nil => rfl
  | append_singleton xs x ih =>
    rw [kept_concat, receive_keys, ih, List.map_append, List.mem_append, List.map_singleton, List.mem_singleton]

theorem map_kept_nodup : ((kept key xs).map key).Nodup := by
  induction xs using List.reverseRecOn with
  | nil => exact List.nodup_nil
  | append_singleton xs x ih =>
    rw [kept_concat]
    unfold receive
    split
    · exact ih
    · rename_i hnew
      rw [List.map_append, List.map_singleton, List.nodup_append']
      exact ⟨ih, List.nodup_singleton _, List.disjoint_singleton.2 hnew⟩

theorem mem_of_mem_kept (h : x ∈ kept key xs) : x ∈ xs := by
  induction xs using List.reverseRecOn with
  | nil => exact h
  | append_singleton xs y ih =>
    rw [kept_concat] at h
    unfold receive at h
    split at h
    · exact List.mem_append_left _ (ih h)
    · rcases List.mem_append.1 h with h | h
      · exact List.mem_append_left _ (ih h)
      · exact List.mem_append_right _ h

/-- Where a key determines the item, every item is kept. -/
theorem mem_kept (hkey : ∀ x ∈ xs, ∀ y ∈ xs, key x = key y → x = y) : x ∈ kept key xs ↔ x ∈ xs := by
  refine ⟨mem_of_mem_kept, fun hx => ?_⟩
  obtain ⟨y, hy, hxy⟩ := List.mem_map.1 (mem_map_kept.2 (List.mem_map_of_mem (f := key) hx))
  rw [hkey x hx y (mem_of_mem_kept hy) hxy.symm]
  exact hy

/-- **Repetitions and order do not matter** where a key determines the item. -/
theorem kept_perm (hkey : ∀ x ∈ xs, ∀ y ∈ xs, key x = key y → x = y) (hsame : ∀ x, x ∈ xs ↔ x ∈ ys) :
    (kept key xs).Perm (kept key ys) := by
  have hkey' : ∀ x ∈ ys, ∀ y ∈ ys, key x = key y → x = y := fun x hx y hy =>
    hkey x ((hsame x).2 hx) y ((hsame y).2 hy)
  refine (List.perm_ext_iff_of_nodup map_kept_nodup.of_map map_kept_nodup.of_map).2 fun x => ?_
  rw [mem_kept hkey, mem_kept hkey', hsame]

end Distinct
