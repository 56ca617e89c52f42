import OrdersApi.Lib.Run
import OrdersApi.Spec.Effort

/-!
# The poll loop and its flag (`app/messaging/outbox_worker.py`, `app/worker_main.py`)

`OutboxWorker` with its `_running` flag: `start` sets the flag and polls while it is set,
and `stop`, which a signal handler calls at any time, resets it. `OutboxWorker.start polls`
is the loop with a given number of polls; here the flag decides. A poll is the machine of
one iteration, `WorkerPoint` with no polls after it.
-/

namespace OrdersApi

open Trace

/-- An `OutboxWorker` object: its flag, and the point of `start`, when it has been called.
At the point `stopped (.ok ())` the loop tests the flag. -/
structure WorkerLoop where
  running : Bool
  point : Option WorkerPoint

inductive LoopEvent
  /-- `start()` is called. -/
  | start
  /-- The flag is found set: an iteration begins. -/
  | poll
  /-- An operation that the loop awaits is answered. -/
  | call (call : effects.Call Exc)
  /-- `stop()` is called. -/
  | stop

namespace WorkerLoop

/-- `OutboxWorker()`. -/
def created : WorkerLoop := ⟨false, none⟩

/-- `start()` has returned. -/
def Returned (L : WorkerLoop) : Prop := L = ⟨false, some (.stopped (.ok ()))⟩

inductive Step (W : OutboxWorker) : WorkerLoop → LoopEvent → WorkerLoop → Prop
  | start (running : Bool) : Step W ⟨running, none⟩ .start ⟨true, some (.stopped (.ok ()))⟩
  | poll : Step W ⟨true, some (.stopped (.ok ()))⟩ .poll ⟨true, some (.fetch 0)⟩
  | call (running : Bool) {pt : WorkerPoint} {o : Op} {k : Except Exc (Op.Resp o) → WorkerPoint}
      (node : pt.node W = .op o k) (r : Except Exc (Op.Resp o)) :
      Step W ⟨running, some pt⟩ (.call ⟨o, r⟩) ⟨running, some (k r)⟩
  | stop (L : WorkerLoop) : Step W L .stop ⟨false, L.point⟩

end WorkerLoop

namespace LoopEvent

/-- The operations of a trace with their responses (latest first). -/
def calls : List LoopEvent → List (effects.Call Exc)
  | [] => []
  | .call c :: tr => c :: calls tr
  | _ :: tr => calls tr

/-- The number of iterations. -/
def polls : List LoopEvent → ℕ
  | [] => 0
  | .poll :: tr => polls tr + 1
  | _ :: tr => polls tr

/-- An event that can happen: an operation is answered as a database, SQS and a clock may. -/
def Answered (P : Type) [DecidableEq P] : LoopEvent → Prop
  | .call c => May P c
  | _ => True

end LoopEvent

/-- The loop, while operations are answered so. -/
abbrev AnsweredStep (P : Type) [DecidableEq P] (W : OutboxWorker) :
    WorkerLoop → LoopEvent → WorkerLoop → Prop :=
  Guarded (WorkerLoop.Step W) fun _ e => e.Answered P

end OrdersApi
