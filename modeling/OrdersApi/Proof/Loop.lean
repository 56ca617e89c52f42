import OrdersApi.Proof.Effort
import OrdersApi.Spec.Loop

/-!
# The poll loop

The loop with its flag is the loop with a number of polls (`loop_is_start`): what it awaits
until it returns is what `start k` awaits, for the number `k` of polls it has begun, and
the flag can end it after any number of polls. Once `stop` has been called no poll begins,
and the worker returns after the rest of its batch (`stop_is_graceful`).
-/

namespace OrdersApi

open Trace Effect LoopEvent

variable {W : OutboxWorker} {tr tr' : List LoopEvent} {L L' : WorkerLoop} {pt : WorkerPoint}
  {l : List (effects.Call Exc)}

/-! ## One poll after the other -/

theorem start_succ (W : OutboxWorker) (n : ℕ) :
    W.start (n + 1) = W.start 1 >>= fun _ => W.start n := by
  have hone : ∀ n, W.start (n + 1) = (W.processBatch.tryCatch fun _ => pure ()) >>= fun _ =>
      await (.sleep W.pollInterval) >>= fun _ => W.start n := fun _ => rfl
  have hnone : (W.start 0 >>= fun _ => W.start n) = W.start n := rfl
  rw [hone n, hone 0]
  simp only [Prog.bind_assoc, hnone]

/-- The code at a point that awaits an operation. -/
theorem code_of_node {o : Op} {k : Except Exc (Op.Resp o) → WorkerPoint}
    (hn : pt.node W = .op o k) (n : ℕ) :
    (pt.code W >>= fun _ => W.start n) = .op o fun r => (k r).code W >>= fun _ => W.start n := by
  rw [WorkerPoint.worker_implements W, hn]
  rfl

/-- A run of the loop is on the way of the program text: the polls that have begun are
behind it, or under way. -/
theorem ran_of_loop (h : Run (WorkerLoop.Step W) .created tr L) :
    L.point = none ∧ calls tr = [] ∧ polls tr = 0 ∨
    ∃ pt, L.point = some pt ∧
    ∀ n, Ran (W.start (polls tr + n)) (calls tr) (pt.code W >>= fun _ => W.start n) := by
  refine h.invariant (I := fun tr L => L.point = none ∧ calls tr = [] ∧ polls tr = 0 ∨ ∃ pt, L.point = some pt ∧
    ∀ n, Ran (W.start (polls tr + n)) (calls tr) (pt.code W >>= fun _ => W.start n)) (.inl ⟨rfl, rfl, rfl⟩) ?_
  intro tr L l L' _ hI hs
  cases hs with
  | start running =>
    rcases hI with ⟨-, hcalls, hpolls⟩ | ⟨pt, hpt, -⟩
    · refine .inr ⟨_, rfl, fun n => ?_⟩
      show Ran (W.start (polls tr + n)) (calls tr) (W.start n)
      rw [hcalls, hpolls, Nat.zero_add]
      exact .nil
    · cases hpt
  | poll =>
    rcases hI with ⟨hpt, -⟩ | ⟨pt, hpt, hran⟩
    · cases hpt
    · cases hpt
      refine .inr ⟨_, rfl, fun n => ?_⟩
      -- the poll that begins is one of those that were to come
      have hnext := hran (n + 1)
      rw [← Nat.add_assoc, Nat.add_right_comm] at hnext
      show Ran (W.start (polls tr + 1 + n)) (calls tr) (W.start 1 >>= fun _ => W.start n)
      rw [← start_succ]
      exact hnext
  | @call running pt o k hn r =>
    rcases hI with ⟨hpt, -⟩ | ⟨pt', hpt, hran⟩
    · cases hpt
    · cases hpt
      refine .inr ⟨_, rfl, fun n => ?_⟩
      have hnow := hran n
      rw [code_of_node hn] at hnow
      exact hnow.step r
  | stop L => exact hI

/-- The program text is on the way of a run of the loop. -/
theorem loop_of_ran {k : ℕ} {p : Prog Unit} (h : Ran (W.start k) l p) :
    ∃ tr pt n, Run (WorkerLoop.Step W) .created tr ⟨true, some pt⟩ ∧ calls tr = l ∧ polls tr + n = k ∧
      p = pt.code W >>= fun _ => W.start n := by
  induction h with
  | nil => exact ⟨[.start], _, k, Run.init.step (.start false), rfl, Nat.zero_add k, rfl⟩
  | @step l o next r _ ih =>
    obtain ⟨tr, pt, n, hrun, hcalls, hpolls, hp⟩ := ih
    -- what is awaited is at the point reached, or at the start of the next poll
    have hnow : ∃ tr pt n, Run (WorkerLoop.Step W) .created tr ⟨true, some pt⟩ ∧ calls tr = l ∧
      polls tr + n = k ∧
        (∃ o k, pt.node W = .op o k) ∧ .op o next = pt.code W >>= fun _ => W.start n := by
      rcases WorkerPoint.stopped_or_node W pt with ⟨result, rfl⟩ | hn
      · rcases result with e | u
        · cases hp
        · cases n with
          | zero => cases hp
          | succ n =>
            refine ⟨.poll :: tr, .fetch 0, n, hrun.step .poll, hcalls, ?_, ⟨_, _, rfl⟩, ?_⟩
            · show polls tr + 1 + n = k
              omega
            · rw [hp]
              exact start_succ W n
      · exact ⟨tr, pt, n, hrun, hcalls, hpolls, hn, hp⟩
    obtain ⟨tr, pt, n, hrun, hcalls, hpolls, ⟨o', k', hn⟩, hp⟩ := hnow
    rw [code_of_node hn] at hp
    cases hp
    exact ⟨_, _, n, hrun.step (.call true hn r), congrArg _ hcalls, hpolls, rfl⟩

/-- **The flag is a number of polls**: what the loop has awaited when it returns is what
`start k` awaits for the number `k` of polls it has begun, and every `start k` is such a loop. -/
theorem loop_is_start (W : OutboxWorker) (k : ℕ) (l : List (effects.Call Exc)) :
    Ran (W.start k) l (.ret ()) ↔
    ∃ tr L, Run (WorkerLoop.Step W) .created tr L ∧ L.Returned ∧ calls tr = l ∧ polls tr = k := by
  constructor
  · intro h
    obtain ⟨tr, pt, n, hrun, hcalls, hpolls, hp⟩ := loop_of_ran h
    rcases WorkerPoint.stopped_or_node W pt with ⟨result, rfl⟩ | ⟨o, k', hn⟩
    · rcases result with e | u
      · cases hp
      · cases n with
        | zero => exact ⟨.stop :: tr, _, hrun.step (.stop _), rfl, hcalls, hpolls⟩
        | succ n => cases hp
    · rw [code_of_node hn] at hp
      cases hp
  · rintro ⟨tr, L, hrun, rfl, rfl, rfl⟩
    rcases ran_of_loop hrun with ⟨hpt, -⟩ | ⟨pt, hpt, hran⟩
    · cases hpt
    · cases hpt
      exact hran 0

/-! ## After `stop` -/

section Stop

variable {P : Type} [DecidableEq P]

/-- The calls since the flag was last tested, and where they lead. -/
def SinceTest (P : Type) [DecidableEq P] (W : OutboxWorker) (l : List (effects.Call Exc))
    (pt : WorkerPoint) : Prop :=
  ∃ polls ≤ 1, Path (WorkerPoint.node W) (May P) (.poll polls) l pt

section Raised

variable {job : Job} {attempt polls : ℕ} {later : List ℕ} {events : List OutboxEvent} {e : Exc}

@[simp] theorem nextAttempt_ne {result : Except Exc Unit} :
    WorkerPoint.nextAttempt job later ≠ .stopped result := by
  intro h
  cases later <;> cases h

@[simp] theorem attemptError_ne {result : Except Exc Unit} :
    WorkerPoint.attemptError job attempt later ≠ .stopped result := by
  unfold WorkerPoint.attemptError
  split
  · intro h
    cases h
  · exact nextAttempt_ne

@[simp] theorem nextEvent_ne {result : Except Exc Unit} :
    WorkerPoint.nextEvent polls events ≠ .stopped result := by
  cases events with
  | nil => intro h; cases h
  | cons event batch => exact @nextAttempt_ne ⟨event, batch, polls⟩ (List.range maxRetries) result

@[simp] theorem poll_ne : WorkerPoint.poll polls ≠ .stopped (.error e) := by
  intro h
  cases polls <;> cases h

/-- A pause is never cut short, so the loop ends by its flag only. -/
theorem not_raised {o : Op} {k : Except Exc (Op.Resp o) → WorkerPoint} {r : Except Exc (Op.Resp o)}
    (hn : pt.node W = .op o k) (hm : May P ⟨o, r⟩) : k r ≠ .stopped (.error e) := by
  obtain ⟨db, db', p, hx⟩ := hm
  have hx : Exec db p o r db' := hx
  cases pt with
  | pause polls =>
    cases hn
    cases hx with
    | failed hst => cases hst
    | sleep => exact poll_ne
  | stopped result => rcases result with e | u <;> cases hn
  | _ =>
    cases hn
    rcases r with e | v <;> simp

end Raised

theorem SinceTest.not_raised {e : Exc} (h : SinceTest P W l pt) : pt ≠ .stopped (.error e) := by
  obtain ⟨polls, -, hpath⟩ := h
  cases hpath with
  | nil => cases polls <;> exact fun h => by cases h
  | step _ hn hm => exact OrdersApi.not_raised hn hm

theorem SinceTest.length_le (h : SinceTest P W l pt) : l.length ≤ 14 * W.batchSize + 3 := by
  obtain ⟨polls, hpolls, hpath⟩ := h
  calc l.length ≤ polls * (14 * W.batchSize + 3) := WorkerPoint.path_length hpath
    _ ≤ 1 * (14 * W.batchSize + 3) := Nat.mul_le_mul_right _ hpolls
    _ = 14 * W.batchSize + 3 := Nat.one_mul _

theorem sinceTest_of_run (h : Run (AnsweredStep P W) .created tr L) (hpt : L.point = some pt) :
    ∃ l, SinceTest P W l pt := by
  refine h.invariant (I := fun _ L => ∀ pt, L.point = some pt → ∃ l, SinceTest P W l pt) ?_ ?_ pt hpt
  · intro pt hpt
    cases hpt
  · rintro tr L e L' - hI ⟨hs, ha⟩ pt hpt
    cases hs with
    | start running => cases hpt; exact ⟨[], 0, by omega, .nil⟩
    | poll => cases hpt; exact ⟨[], 1, by omega, .nil⟩
    | call running hn r =>
      cases hpt
      obtain ⟨l, polls, hpolls, hpath⟩ := hI _ rfl
      exact ⟨_, polls, hpolls, hpath.step hn ha⟩
    | stop L => exact hI pt hpt

/-- **`stop` is graceful**: once the loop has been told to stop it begins no poll, awaits at
most what one batch takes, and then returns. -/
theorem stop_is_graceful (h : Run (AnsweredStep P W) .created tr L) (hpt : L.point = some pt)
    (h' : Run (AnsweredStep P W) ⟨false, some pt⟩ tr' L') :
    polls tr' = 0 ∧ (calls tr').length ≤ 14 * W.batchSize + 3 ∧
      (L'.Returned ∨ ∃ pt' o k, L' = ⟨false, some pt'⟩ ∧ pt'.node W = .op o k) := by
  obtain ⟨l, hl⟩ := sinceTest_of_run h hpt
  have hinv : ∃ pt', L' = ⟨false, some pt'⟩ ∧ polls tr' = 0 ∧ SinceTest P W (calls tr' ++ l) pt' := by
    refine h'.invariant (I := fun tr' L' => ∃ pt', L' = ⟨false, some pt'⟩ ∧ polls tr' = 0 ∧
      SinceTest P W (calls tr' ++ l) pt') ⟨pt, rfl, rfl, hl⟩ ?_
    rintro tr' L' e L'' - ⟨pt', rfl, hpolls, hl⟩ ⟨hs, ha⟩
    cases hs with
    | call running hn r =>
      obtain ⟨polls, hle, hpath⟩ := hl
      exact ⟨_, rfl, hpolls, polls, hle, hpath.step hn ha⟩
    | stop L => exact ⟨pt', rfl, hpolls, hl⟩
  obtain ⟨pt', rfl, hpolls, hl⟩ := hinv
  have hlength := hl.length_le
  rw [List.length_append] at hlength
  refine ⟨hpolls, by omega, ?_⟩
  rcases WorkerPoint.stopped_or_node W pt' with ⟨result, rfl⟩ | ⟨o, k, hn⟩
  · rcases result with e | u
    · exact (hl.not_raised rfl).elim
    · exact .inl rfl
  · exact .inr ⟨pt', o, k, rfl, hn⟩

/-- Told to stop while its fetch is under way: the fetch fails, and the worker pauses and returns. -/
theorem stop_is_graceful_sample : ∃ tr' L',
    Run (AnsweredStep Unit ⟨10, 5⟩) ⟨false, some (.fetch 0)⟩ tr' L' ∧ L'.Returned ∧
    (calls tr').length = 3 ∧
      polls tr' = 0 ∧ (calls tr').length ≤ 143 := by
  have hrun : Run (AnsweredStep Unit ⟨10, 5⟩) .created [.poll, .start] ⟨true, some (.fetch 0)⟩ :=
    (Run.init.step ⟨.start false, trivial⟩).step ⟨.poll, trivial⟩
  let db : Db Unit := (World.init .empty fun _ => .worker ⟨10, 5⟩ 1).db
  have hfetch : May Unit ⟨.selectPending 10, .error .databaseError⟩ := ⟨db, _, (), .failed rfl .aborted⟩
  have hclose : May Unit ⟨.close, .ok ()⟩ := ⟨db, _, (), .close⟩
  have hpause : May Unit ⟨.sleep 5, .ok ()⟩ := ⟨db, _, (), .sleep 5⟩
  have h0 : Run (AnsweredStep Unit ⟨10, 5⟩) ⟨false, some (.fetch 0)⟩ [] _ := .init
  have h1 := h0.step ⟨.call false rfl _, hfetch⟩
  have h2 := h1.step ⟨.call false rfl _, hclose⟩
  have h3 := h2.step ⟨.call false rfl _, hpause⟩
  have hstop := stop_is_graceful hrun rfl h3
  exact ⟨_, _, h3, rfl, rfl, hstop.1, hstop.2.1⟩

end Stop

end OrdersApi
