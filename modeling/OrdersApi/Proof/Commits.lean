import OrdersApi.Proof.Creation
import OrdersApi.Proof.Worker

/-!
# What a step can do to the committed tables

`commits_of_run`: a step leaves the committed tables as they are, or it is a request's
commit of one order with its event, or it is a worker's commit of one status.
-/

namespace OrdersApi

open TxStore Trace

variable {P : Type} {tr : List (Event P)} {l : Event P} {p : P} {tab : Tables}
  {R : DateTime → DateTime → Prop}

/-- The tables `tab` after the step `l` from `w`. -/
inductive Commits (R : DateTime → DateTime → Prop) (tr : List (Event P)) (w : World P) (l : Event P)
    (tab : Tables) : Prop
  | same (tables : tab = w.db.committed)
  | created (p : P) (a : CallArgs) (m : OrderModel) (event : OutboxEvent) (t : DateTime) (r : Except Exc Unit)
      (label : l = .exec p .commit r) (first : NotCommitted tr p) (made : Made R tr p a m event)
      (tables : tab = ⟨w.db.committed.orders ++ [m], w.db.committed.outboxEvents ++ [event.row t]⟩)
  | settled (p : P) (W : OutboxWorker) (pt : WorkerPoint) (e : UUID) (status : OutboxStatus)
      (r : Except Exc Unit) (label : l = .exec p .commit r) (alive : w.alive p)
      (proc : w.procs p = .worker W pt) (usable : (w.db.session p).Usable)
      (writes : pt.writes = [.setStatus e status])
      (tables : tab = w.db.committed.apply (.setStatus e status))

variable [DecidableEq P] {db db' : Db P} {o : Op} {r : Except Exc (Op.Resp o)} {w w' : World P}
  {t : ValidTables} {role : P → Role}

/-- Only a commit on a usable session changes the committed tables, to what the session sees. -/
theorem Exec.committed (h : Exec db p o r db') : db'.committed = db.committed ∨
    (o = .commit ∧ (db.session p).Usable ∧ db'.committed = db.view schema p) := by
  cases h with
  | failed _ hf => exact .inl hf.committed
  | commit hu => exact .inr ⟨rfl, hu, rfl⟩
  | commitLost hu => exact .inr ⟨rfl, hu, rfl⟩
  | _ => exact .inl rfl

/-- **What a step can do to the committed tables.** -/
theorem commits_of_run (h : Run (Guarded Step (ClockOk R)) (World.init t role) tr w)
    (hs : Step w l w') :
    Commits R tr w l w'.db.committed := by
  cases hs with
  | @call p a pt o k r db' _ hp hn hx =>
    obtain he | ⟨rfl, hu, hv⟩ := hx.committed
    · exact .same he
    have hI := callInv_of_run h hp
    cases pt with
    | commit created event =>
      obtain ⟨m, t, hm, -, hs, hnc⟩ := hI
      refine .created p a m event t r rfl hnc hm ?_
      show db'.committed = _
      rw [hv, view_of_holds hs hu]; rfl
    | done res => rcases res with e | v <;> cases hn
    | _ => cases hn
  | @worker p W pt o k r db' ha hp hn hx =>
    obtain he | ⟨rfl, hu, hv⟩ := hx.committed
    · exact .same he
    have hI := Reached.workerInv h.forget hp
    have hview := view_of_holds hI.session hu
    cases pt with
    | commit job attempt later =>
      exact .settled p W _ job.event.id .processed r rfl ha hp hu rfl (hv.trans hview)
    | commitFailed job => exact .settled p W _ job.event.id .failed r rfl ha hp hu rfl (hv.trans hview)
    | stopped res => rcases res with e | v <;> cases hn
    | _ => cases hn
  | die p => exact .same rfl
  | abort p => exact .same rfl

/-- The same in any run, with nothing known of the clock. -/
theorem Reached.commits (h : Reached t role tr w) (hs : Step w l w') :
    Commits (fun _ _ => True) tr w l w'.db.committed :=
  commits_of_run h.anyClock hs

end OrdersApi
