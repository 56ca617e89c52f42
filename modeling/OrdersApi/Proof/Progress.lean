import OrdersApi.Proof.Deadlock

/-!
# Progress

A live party that has not finished can go on, or waits for a lock. The transaction that
holds the lock waits for nobody, so its party can go on, unless it is dead and the server
has still to end its transaction.
-/

namespace OrdersApi

open TxStore Trace

variable {P : Type} {tr : List (Event P)} {p q : P} {w : World P}

/-- A party that has not finished awaits an operation. -/
theorem exists_awaits (h : ¬ w.Finished p) : ∃ o, w.Awaits p o := by
  unfold World.Finished at h
  unfold World.Awaits
  cases hp : w.procs p with
  | call a pt =>
    rw [hp] at h
    cases pt with
    | done res => exact absurd trivial h
    | _ => exact ⟨_, _, rfl⟩
  | worker W pt =>
    rw [hp] at h
    cases pt with
    | stopped res => exact absurd trivial h
    | _ => exact ⟨_, _, rfl⟩

/-- And a party that awaits an operation has not finished. -/
theorem World.Awaits.not_finished {o : Op} (h : w.Awaits p o) : ¬ w.Finished p := by
  unfold World.Awaits at h
  unfold World.Finished
  cases hp : w.procs p with
  | call a pt =>
    rw [hp] at h
    obtain ⟨k, hn⟩ := h
    cases pt with
    | done res => rcases res with e | v <;> cases hn
    | _ => exact id
  | worker W pt =>
    rw [hp] at h
    obtain ⟨k, hn⟩ := h
    cases pt with
    | stopped res => rcases res with e | u <;> cases hn
    | _ => exact id

variable [DecidableEq P]

/-- In an aborted transaction every operation is answered, if only by an error. -/
theorem exec_of_aborted {db : Db P} (h : db.session p = .aborted) (o : Op) :
    ∃ r db', Exec db p o r db' := by
  have hopened : db.session p ≠ .idle := by rw [h]; nofun
  cases o with
  | get baseUrl path => exact ⟨_, _, .get baseUrl path (.ok ⟨200, ""⟩)⟩
  | uuid4 => exact ⟨_, _, .uuid4 (sampleUuid 0)⟩
  | now => exact ⟨_, _, .now (sampleTime 0)⟩
  | commit => exact ⟨_, _, .commitFailed hopened⟩
  | rollback => exact ⟨_, _, .rollback⟩
  | close => exact ⟨_, _, .close⟩
  | publish event body => exact ⟨_, _, .published event body⟩
  | sleep seconds => exact ⟨_, _, .sleep seconds⟩
  | inc counter => exact ⟨_, _, .inc counter⟩
  | _ => exact ⟨_, _, .failed rfl .aborted⟩

theorem step_of_exec (ha : w.alive p) {o : Op} (ho : w.Awaits p o) {r : Except Exc (Op.Resp o)}
    {db' : Db P}
    (hx : Exec w.db p o r db') : ∃ w', Step w (.exec p o r) w' := by
  unfold World.Awaits at ho
  cases hp : w.procs p with
  | call a pt =>
    rw [hp] at ho
    obtain ⟨k, hn⟩ := ho
    exact ⟨_, .call ha hp hn hx⟩
  | worker W pt =>
    rw [hp] at ho
    obtain ⟨k, hn⟩ := ho
    exact ⟨_, .worker ha hp hn hx⟩

section Reach

variable {t : ValidTables} {role : P → Role}

/-- A request that is done has closed its session. -/
theorem Reached.done_locks (h : Reached t role tr w) {a : CallArgs} {result : Except Exc (Order × Bool)}
    (hp : w.procs p = .call a (.done result)) : (w.db.session p).locks = [] := by
  refine Reached.of_call (Φ := fun _ pt s => ∀ result, pt = .done result → s.locks = []) ?_ ?_ ?_ h hp result rfl
  · exact fun _ _ _ => rfl
  · exact fun _ _ _ => rfl
  · intro tr w p a pt o k r db' _ _ hn hx _ result hr
    obtain ⟨-, rfl⟩ := CallPoint.close_of_done hn hx hr
    cases hx with
    | failed hst => cases hst
    | close => rw [Store.rollback_self]; rfl

/-- A party that has finished holds no lock. -/
theorem Reached.finished_locks (h : Reached t role tr w) (hf : w.Finished p) :
    (w.db.session p).locks = [] := by
  unfold World.Finished at hf
  split at hf
  · rename_i a result hp
    exact h.done_locks hp
  · rename_i W result hp
    have hlocks := h.locks p
    rw [hp] at hlocks
    exact WorkerLocks.locks_nil hlocks rfl
  · exact hf.elim

/-- **The service never gets stuck.** As long as a live party has not finished, some live
party can go on, without a fault unless its transaction is aborted, provided that the
server has ended the transactions of the dead. -/
theorem never_stuck (h : Reached t role tr w) (hfresh : FreshUuids t tr) (hreaped : w.Reaped)
    (ha : w.alive p)
    (hp : ¬ w.Finished p) : ∃ q o r w', w.alive q ∧ Step w (.exec q o r) w' ∧
      ((w.db.session q).Usable → ¬ (Event.exec q o r).Fault) := by
  obtain ⟨o, ho⟩ := exists_awaits hp
  by_cases hu : (w.db.session p).Usable
  swap
  · obtain ⟨r, db', hx⟩ := exec_of_aborted (aborted_of_not_usable hu) o
    obtain ⟨w', hs⟩ := step_of_exec ha ho hx
    exact ⟨p, o, r, w', ha, hs, fun hu' => absurd hu' hu⟩
  by_cases hw : ∃ q, w.WaitsFor p q
  · -- the party that is waited for holds a lock, so it waits for nobody and has not finished
    obtain ⟨q, hw⟩ := hw
    have hlocks : (w.db.session q).locks ≠ [] := by
      obtain ⟨o', -, hwait⟩ := hw
      exact hwait.locks_ne_nil
    have hq : w.alive q := by
      by_contra hdead
      cases hsess : w.db.session q with
      | active tx => exact hreaped q hdead tx hsess
      | _ => rw [hsess] at hlocks; exact hlocks rfl
    obtain ⟨o', ho'⟩ := exists_awaits fun hf => hlocks (h.finished_locks hf)
    have huq : (w.db.session q).Usable := by
      cases hsess : w.db.session q with
      | aborted => rw [hsess] at hlocks; exact absurd rfl hlocks
      | _ => trivial
    obtain ⟨r, w', hs, hf⟩ :=
      step_of_not_waiting hq ho' huq fun q' hw' => hlocks (h.waiting hfresh hw').1
    exact ⟨q, o', r, w', hq, hs, fun _ => hf⟩
  · push Not at hw
    obtain ⟨r, w', hs, hf⟩ := step_of_not_waiting ha ho hu hw
    exact ⟨p, o, r, w', ha, hs, fun _ => hf⟩

/-- A call waits for another one, which dies holding the locks; the server ends its transaction. -/
theorem never_stuck_sample : ∃ tr w, Reached .empty (fun _ : Bool => .call sampleCall) tr w ∧
    w.WaitsFor false true ∧ (∃ q o r w', w.alive q ∧ Step w (.exec q o r) w' ∧
      ((w.db.session q).Usable → ¬ (Event.exec q o r).Fault)) ∧
    ∃ tr' w', Reached .empty (fun _ : Bool => .call sampleCall) (tr' ++ tr) w' ∧ .abort true ∈ tr' ∧
      ¬ w'.alive true ∧ ∃ q o r w'', w'.alive q ∧ Step w' (.exec q o r) w'' ∧
        ((w'.db.session q).Usable → ¬ (Event.exec q o r).Fault) := by
  obtain ⟨⟨tr, w, h, hdraws, halive, hw⟩, -⟩ := sample_race
  have hfresh : FreshUuids .empty tr := ⟨by rw [hdraws]; decide, fun _ _ => List.not_mem_nil⟩
  have hp : ¬ w.Finished false := by
    obtain ⟨o, ho, -⟩ := hw
    exact ho.not_finished
  refine ⟨tr, w, h, hw, never_stuck h hfresh (fun p hdead => ?_) (p := false) ?_ hp, ?_⟩
  · exact absurd (halive ▸ trivial) hdead
  · rw [halive]
    trivial
  cases hsess : w.db.session true with
  | active tx =>
    have h1 := h.step (.die true)
    have h2 := h1.step (.abort true tx hsess)
    refine ⟨[_, _], _, h2, .head _, by simp, ?_⟩
    refine never_stuck h2 hfresh (fun p hdead tx' => ?_) (p := false) (by simp [halive]) hp
    cases p with
    | true =>
      intro htx
      rw [Store.abort_self] at htx
      cases htx
    | false => exact absurd (by simp [halive]) hdead
  | _ =>
    obtain ⟨o, -, hwait⟩ := hw
    exact absurd (by rw [hsess]; rfl) hwait.locks_ne_nil

end Reach

end OrdersApi
