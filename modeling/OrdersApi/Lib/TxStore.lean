import Mathlib.Data.List.Perm.Basic
import Mathlib.Data.List.Nodup
import Mathlib.Logic.Function.Basic
import Mathlib.Logic.Relation

/-!
# Transactions over a committed state, with locks and unique keys

A `Store` is a committed state and one session per party. A session is idle, has an
open transaction (a redo log of writes and the locks it holds), or is aborted: it
then holds nothing and only a rollback makes it usable again. Readers see the
committed state and their own writes (`view`).

A `Schema` says what a write does to the state and which unique keys it uses up. An
inserting transaction locks its new keys, and only writes keys that neither the
committed state nor itself has used. `Trans.consistent`: then no two sessions ever
hold one lock, and the keys of the committed state stay distinct, whatever the order
of the sessions' transitions.

A statement `Waits` for the sessions that hold a lock it needs. When every waiting
session is without locks, nobody waits in a circle (`not_waiting_in_circle`).
-/

namespace TxStore

variable {P τ ω κ : Type}

/-- An open transaction. -/
structure Tx (ω κ : Type) where
  writes : List ω := []
  locks : List κ := []

inductive Session (ω κ : Type)
  | idle
  | active (tx : Tx ω κ)
  | aborted

namespace Session

def writes : Session ω κ → List ω
  | active tx => tx.writes
  | _ => []

def locks : Session ω κ → List κ
  | active tx => tx.locks
  | _ => []

/-- A statement can succeed on the session. -/
def Usable : Session ω κ → Prop
  | aborted => False
  | _ => True

@[simp] theorem writes_idle : (idle : Session ω κ).writes = [] := rfl
@[simp] theorem writes_aborted : (aborted : Session ω κ).writes = [] := rfl
@[simp] theorem writes_active (tx : Tx ω κ) : (active tx).writes = tx.writes := rfl
@[simp] theorem locks_idle : (idle : Session ω κ).locks = [] := rfl
@[simp] theorem locks_aborted : (aborted : Session ω κ).locks = [] := rfl
@[simp] theorem locks_active (tx : Tx ω κ) : (active tx).locks = tx.locks := rfl
@[simp] theorem usable_idle : (idle : Session ω κ).Usable := trivial
@[simp] theorem usable_active (tx : Tx ω κ) : (active tx).Usable := trivial
@[simp] theorem not_usable_aborted : ¬ (aborted : Session ω κ).Usable := id

/-- The session's transaction, unless aborted, has written exactly `ws`. -/
def Holds (s : Session ω κ) (ws : List ω) : Prop := s = aborted ∨ s.writes = ws

theorem Holds.writes {s : Session ω κ} {ws : List ω} (h : s.Holds ws) (hu : s.Usable) :
    s.writes = ws := by
  rcases h with rfl | h
  · exact absurd hu not_usable_aborted
  · exact h

/-- A session that holds no write has none, aborted or not. -/
theorem Holds.nil {s : Session ω κ} (h : s.Holds []) : s.writes = [] := by
  rcases h with rfl | h
  · rfl
  · exact h

end Session

structure Store (P τ ω κ : Type) where
  committed : τ
  session : P → Session ω κ

/-- What writes do to the state, and the unique keys that they use up. -/
structure Schema (τ ω κ : Type) where
  app : τ → ω → τ
  keys : τ → List κ
  newKeys : ω → List κ
  keys_app : ∀ t w, (keys (app t w)).Perm (keys t ++ newKeys w)

theorem Schema.keys_foldl (D : Schema τ ω κ) :
    ∀ (ws : List ω) (t : τ), (D.keys (ws.foldl D.app t)).Perm (D.keys t ++ ws.flatMap D.newKeys) := by
  intro ws
  induction ws with
  | nil => intro t; simp
  | cons w ws ih =>
    intro t
    simp only [List.foldl_cons, List.flatMap_cons, ← List.append_assoc]
    exact (ih (D.app t w)).trans ((D.keys_app t w).append_right _)

namespace Store

variable (D : Schema τ ω κ) (s : Store P τ ω κ) (p q : P)

/-- What session `p` reads: the committed state and its own writes. -/
def view : τ := (s.session p).writes.foldl D.app s.committed

/-- The keys that the open transaction of `p` would add. -/
def pendingKeys : List κ := (s.session p).writes.flatMap D.newKeys

/-- No other session holds the lock `k`. -/
def Free (k : κ) : Prop := ∀ q, q ≠ p → k ∉ (s.session q).locks

variable [DecidableEq P]

def set (x : Session ω κ) : Store P τ ω κ := { s with session := Function.update s.session p x }

/-- A statement that writes `ws` and takes the locks `ks`; it begins a transaction on
an idle session. -/
def extend (ws : List ω) (ks : List κ) : Store P τ ω κ :=
  s.set p (.active ⟨(s.session p).writes ++ ws, (s.session p).locks ++ ks⟩)

def commit : Store P τ ω κ := { committed := s.view D p, session := Function.update s.session p .idle }

/-- The commit is applied, and its session is told that it failed. -/
def commitLost : Store P τ ω κ :=
  { committed := s.view D p, session := Function.update s.session p .aborted }

def rollback : Store P τ ω κ := s.set p .idle

def abort : Store P τ ω κ := s.set p .aborted

section Frame

variable {s p q} {ws : List ω} {ks : List κ} {x : Session ω κ}

@[simp] theorem set_committed : (s.set p x).committed = s.committed := rfl
@[simp] theorem extend_committed : (s.extend p ws ks).committed = s.committed := rfl
@[simp] theorem rollback_committed : (s.rollback p).committed = s.committed := rfl
@[simp] theorem abort_committed : (s.abort p).committed = s.committed := rfl
@[simp] theorem commit_committed : (s.commit D p).committed = s.view D p := rfl
@[simp] theorem commitLost_committed : (s.commitLost D p).committed = s.view D p := rfl

@[simp] theorem set_self : (s.set p x).session p = x := by simp [set]
@[simp] theorem extend_self : (s.extend p ws ks).session p =
    .active ⟨(s.session p).writes ++ ws, (s.session p).locks ++ ks⟩ := by simp [extend]
@[simp] theorem rollback_self : (s.rollback p).session p = .idle := by simp [rollback]
@[simp] theorem abort_self : (s.abort p).session p = .aborted := by simp [abort]
@[simp] theorem commit_self : (s.commit D p).session p = .idle := by simp [commit]
@[simp] theorem commitLost_self : (s.commitLost D p).session p = .aborted := by simp [commitLost]

theorem set_other (h : q ≠ p) : (s.set p x).session q = s.session q := by simp [set, h]
theorem extend_other (h : q ≠ p) : (s.extend p ws ks).session q = s.session q := set_other h
theorem rollback_other (h : q ≠ p) : (s.rollback p).session q = s.session q := set_other h
theorem abort_other (h : q ≠ p) : (s.abort p).session q = s.session q := set_other h
theorem commit_other (h : q ≠ p) : (s.commit D p).session q = s.session q := by simp [commit, h]
theorem commitLost_other (h : q ≠ p) : (s.commitLost D p).session q = s.session q := by
  simp [commitLost, h]

end Frame

/-- **What a session can do to the store.** -/
inductive Trans : Store P τ ω κ → Prop
  | refl : Trans s
  | extend (ws : List ω) (ks : List κ) (usable : (s.session p).Usable)
      (free : ∀ k ∈ ks, s.Free p k)
      (locked : ∀ k ∈ ws.flatMap D.newKeys, k ∈ ks)
      (new : (D.keys (s.view D p) ++ ws.flatMap D.newKeys).Nodup) : Trans (s.extend p ws ks)
  | commit (usable : (s.session p).Usable) : Trans (s.commit D p)
  | commitLost (usable : (s.session p).Usable) : Trans (s.commitLost D p)
  | rollback : Trans (s.rollback p)
  | abort : Trans (s.abort p)

/-- Locks exclude each other, pending keys are locked, and keys are unique. -/
structure Consistent : Prop where
  excl : ∀ p q k, k ∈ (s.session p).locks → k ∈ (s.session q).locks → p = q
  locked : ∀ p, ∀ k ∈ s.pendingKeys D p, k ∈ (s.session p).locks
  unique : (D.keys s.committed).Nodup
  pending : ∀ p, (D.keys s.committed ++ s.pendingKeys D p).Nodup

variable {D s p q} {s' : Store P τ ω κ}

theorem Trans.other (h : Trans D s p s') (hq : q ≠ p) : s'.session q = s.session q := by
  cases h with
  | refl => rfl
  | extend => exact extend_other hq
  | commit => exact commit_other D hq
  | commitLost => exact commitLost_other D hq
  | rollback => exact rollback_other hq
  | abort => exact abort_other hq

/-- A transition keeps the committed state or applies the session's writes to it. -/
theorem Trans.committed (h : Trans D s p s') :
    s'.committed = s.committed ∨ s'.committed = s.view D p := by
  cases h <;> simp

omit [DecidableEq P] in
theorem view_keys : (D.keys (s.view D p)).Perm (D.keys s.committed ++ s.pendingKeys D p) :=
  D.keys_foldl _ _

/-- Dropping the transaction of `p` keeps a store consistent. -/
theorem Consistent.set (h : Consistent D s) {x : Session ω κ} (hw : x.writes = []) (hl : x.locks = []) :
    Consistent D (s.set p x) where
  excl a b k ha hb := by
    by_cases hap : a = p <;> by_cases hbp : b = p
    · rw [hap, hbp]
    · subst hap; simp [hl] at ha
    · subst hbp; simp [hl] at hb
    · rw [set_other hap] at ha; rw [set_other hbp] at hb; exact h.excl a b k ha hb
  locked a k hk := by
    by_cases hap : a = p
    · subst hap; simp [pendingKeys, hw] at hk
    · unfold pendingKeys at hk
      rw [set_other hap] at hk ⊢
      exact h.locked a k hk
  unique := h.unique
  pending a := by
    by_cases hap : a = p
    · subst hap; simpa [pendingKeys, hw] using h.unique
    · unfold pendingKeys; rw [set_other hap]; exact h.pending a

/-- Applying the transaction of `p` and dropping it keeps a store consistent: the new
keys were locked, so no other pending transaction uses them. -/
theorem Consistent.apply (h : Consistent D s) {x : Session ω κ} (hw : x.writes = [])
    (hl : x.locks = []) :
    Consistent D { committed := s.view D p, session := Function.update s.session p x } := by
  have hset := h.set (p := p) hw hl
  have huniq : (D.keys (s.view D p)).Nodup := view_keys.nodup_iff.2 (h.pending p)
  refine ⟨hset.excl, hset.locked, huniq, ?_⟩
  intro a
  show (D.keys (s.view D p) ++ (Function.update s.session p x a).writes.flatMap D.newKeys).Nodup
  by_cases hap : a = p
  · subst hap; simpa [hw] using huniq
  · rw [Function.update_of_ne hap]
    refine List.nodup_append'.2 ⟨huniq, ((List.nodup_append'.1 (h.pending a)).2).1, ?_⟩
    intro k hk hka
    rcases List.mem_append.1 (view_keys.mem_iff.1 hk) with hc | hp
    · exact (List.nodup_append'.1 (h.pending a)).2.2 hc hka
    · exact hap (h.excl a p k (h.locked a k hka) (h.locked p k hp))

/-- **Locks and unique keys survive every transition of every session.** -/
theorem Trans.consistent (ht : Trans D s p s') (h : Consistent D s) : Consistent D s' := by
  cases ht with
  | refl => exact h
  | commit => exact h.apply rfl rfl
  | commitLost => exact h.apply rfl rfl
  | rollback => exact h.set rfl rfl
  | abort => exact h.set rfl rfl
  | extend ws ks _ hfree hlock hnew =>
    refine ⟨?_, ?_, h.unique, ?_⟩
    -- a lock that `p` has just taken was free, all others were held before
    · intro a b k ha hb
      by_cases hap : a = p <;> by_cases hbp : b = p
      · rw [hap, hbp]
      · subst hap
        rw [extend_other hbp] at hb
        simp only [extend_self, Session.locks_active, List.mem_append] at ha
        rcases ha with ha | ha
        · exact h.excl _ _ k ha hb
        · exact absurd hb (hfree k ha b hbp)
      · subst hbp
        rw [extend_other hap] at ha
        simp only [extend_self, Session.locks_active, List.mem_append] at hb
        rcases hb with hb | hb
        · exact h.excl _ _ k ha hb
        · exact absurd ha (hfree k hb a hap)
      · rw [extend_other hap] at ha; rw [extend_other hbp] at hb; exact h.excl a b k ha hb
    · intro a k hk
      by_cases hap : a = p
      · subst hap
        simp only [pendingKeys, extend_self, Session.writes_active, Session.locks_active,
          List.flatMap_append, List.mem_append] at hk ⊢
        exact hk.imp (h.locked a k) (hlock k)
      · unfold pendingKeys at hk
        rw [extend_other hap] at hk ⊢
        exact h.locked a k hk
    · intro a
      by_cases hap : a = p
      · subst hap
        simp only [pendingKeys, extend_self, Session.writes_active, List.flatMap_append, extend_committed,
          ← List.append_assoc]
        exact (view_keys.append_right _).nodup_iff.1 hnew
      · unfold pendingKeys; rw [extend_other hap]; exact h.pending a

omit [DecidableEq P] in
/-- With every session idle, a store is consistent when its keys are distinct. -/
theorem consistent_idle {t : τ} (h : (D.keys t).Nodup) :
    Consistent D ({ committed := t, session := fun _ => .idle } : Store P τ ω κ) where
  excl p q k hp := by simp at hp
  locked p k hk := by simp [pendingKeys] at hk
  unique := h
  pending p := by simpa [pendingKeys] using h

/-! ## A session among others -/

section Among

variable {others : P → Session ω κ} {ws : List ω} {ks : List κ} {x : Session ω κ}

/-- The committed state and the session of `p`, the other sessions replaced. -/
def among (s : Store P τ ω κ) (p : P) (others : P → Session ω κ) : Store P τ ω κ :=
  { s with session := Function.update others p (s.session p) }

@[simp] theorem among_committed : (s.among p others).committed = s.committed := rfl

@[simp] theorem among_self : (s.among p others).session p = s.session p := by simp [among]

theorem among_other (hq : q ≠ p) : (s.among p others).session q = others q := by simp [among, hq]

@[simp] theorem among_view : (s.among p others).view D p = s.view D p := by simp [view]

/-- What another session is makes no difference. -/
theorem among_set_other (hq : q ≠ p) : (s.set q x).among p others = s.among p others := by
  unfold among
  rw [set_other fun h => hq h.symm]
  rfl

@[simp] theorem among_set :
    (s.among p others).set p x = (s.set p x).among p others := by simp [among, set]

@[simp] theorem among_extend :
    (s.among p others).extend p ws ks = (s.extend p ws ks).among p others := by
  unfold extend
  rw [among_self, among_set]

@[simp] theorem among_rollback : (s.among p others).rollback p = (s.rollback p).among p others :=
  among_set

@[simp] theorem among_abort : (s.among p others).abort p = (s.abort p).among p others := among_set

@[simp] theorem among_commit : (s.among p others).commit D p = (s.commit D p).among p others := by
  simp [among, commit, view]

@[simp] theorem among_commitLost :
    (s.among p others).commitLost D p = (s.commitLost D p).among p others := by
  simp [among, commitLost, view]

/-- No session but that of `p` holds a lock. -/
def Unlocked (s : Store P τ ω κ) (p : P) : Prop := ∀ q, q ≠ p → (s.session q).locks = []

omit [DecidableEq P] in
theorem Unlocked.free (h : s.Unlocked p) (k : κ) : s.Free p k := by
  intro q hq hk
  rw [h q hq] at hk
  exact absurd hk List.not_mem_nil

theorem Trans.unlocked (ht : Trans D s p s') (h : s.Unlocked p) : s'.Unlocked p := by
  intro q hq
  rw [ht.other hq]
  exact h q hq

theorem Unlocked.abort (h : s.Unlocked p) (q : P) : (s.abort q).Unlocked p := by
  intro r hr
  by_cases hq : r = q
  · rw [hq, abort_self]
    rfl
  · rw [abort_other hq]
    exact h r hr

theorem unlocked_among (h : ∀ q, q ≠ p → (others q).locks = []) : (s.among p others).Unlocked p := by
  intro q hq
  rw [among_other hq]
  exact h q hq

end Among

/-! ## Waiting -/

variable (s p q)

/-- A statement of `p` that needs the locks `ks` waits for `q`. -/
def Waits (ks : List κ) : Prop := (s.session p).Usable ∧ q ≠ p ∧ ∃ k ∈ ks, k ∈ (s.session q).locks

variable {s p q}

omit [DecidableEq P] in
theorem Waits.locks_ne_nil {ks : List κ} (h : s.Waits p q ks) : (s.session q).locks ≠ [] := by
  obtain ⟨-, -, k, -, hk⟩ := h
  exact List.ne_nil_of_mem hk

omit [DecidableEq P] in
/-- A statement waits for nobody when the locks it needs are free. -/
theorem not_waits_iff {ks : List κ} (hu : (s.session p).Usable) :
    (∀ q, ¬ s.Waits p q ks) ↔ ∀ k ∈ ks, s.Free p k := by
  refine ⟨fun h k hk q hq hlock => h q ⟨hu, hq, k, hk, hlock⟩, ?_⟩
  rintro h q ⟨-, hq, k, hk, hlock⟩
  exact h k hk q hq hlock

omit [DecidableEq P] in
/-- **No circles.** When a waiting session is without locks, and is waited for only when
it has some, the waits-for relation has no cycle. -/
theorem not_waiting_in_circle {waits : P → P → Prop}
    (hnone : ∀ p q, waits p q → (s.session p).locks = [])
    (hsome : ∀ p q, waits p q → (s.session q).locks ≠ []) (p : P) : ¬ Relation.TransGen waits p p := by
  intro hcycle
  obtain ⟨q, hpq, -⟩ := Relation.TransGen.head'_iff.1 hcycle
  obtain ⟨q', -, hqp⟩ := Relation.TransGen.tail'_iff.1 hcycle
  exact hsome q' p hqp (hnone p q hpq)

end Store

end TxStore
