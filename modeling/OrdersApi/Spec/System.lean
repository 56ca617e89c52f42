import OrdersApi.Lib.Run
import OrdersApi.Spec.Database
import OrdersApi.Spec.Points

/-!
# The system: requests and workers over one database

`P` names the parties, any number of them. Each is a request or a worker, at one of
its control points, with its own session. A step is one party's operation with its
response, the death of a party's process, or the server's end of an open transaction
(a dead process's transaction ends this way). `Trace.Run Step (World.init t role)`
are the runs, in any interleaving.
-/

namespace OrdersApi

open TxStore Trace

inductive Proc
  | call (a : CallArgs) (pt : CallPoint)
  | worker (W : OutboxWorker) (pt : WorkerPoint)

/-- What a party is: a request with its arguments, or a worker with its settings and
the number of polls until it is stopped. -/
inductive Role
  | call (a : CallArgs)
  | worker (W : OutboxWorker) (polls : ℕ)

def Role.proc : Role → Proc
  | call a => .call a .validate
  | worker W polls => .worker W (.poll polls)

inductive Event (P : Type)
  | exec (p : P) (o : Op) (r : Except Exc (Op.Resp o))
  | die (p : P)
  | abort (p : P)

structure World (P : Type) where
  procs : P → Proc
  alive : P → Prop
  db : Db P

variable {P : Type}

def World.init (t : ValidTables) (role : P → Role) : World P where
  procs p := (role p).proc
  alive _ := True
  db := { committed := t.1, session := fun _ => .idle }

variable [DecidableEq P]

inductive Step (w : World P) : Event P → World P → Prop
  | call {p : P} {a : CallArgs} {pt : CallPoint} {o : Op} {k : Except Exc (Op.Resp o) → CallPoint}
      {r : Except Exc (Op.Resp o)} {db' : Db P} (alive : w.alive p) (proc : w.procs p = .call a pt)
      (node : pt.node a = .op o k) (exec : Exec w.db p o r db') :
      Step w (.exec p o r) { w with procs := Function.update w.procs p (.call a (k r)), db := db' }
  | worker {p : P} {W : OutboxWorker} {pt : WorkerPoint} {o : Op} {k : Except Exc (Op.Resp o) → WorkerPoint}
      {r : Except Exc (Op.Resp o)} {db' : Db P} (alive : w.alive p) (proc : w.procs p = .worker W pt)
      (node : pt.node W = .op o k) (exec : Exec w.db p o r db') :
      Step w (.exec p o r) { w with procs := Function.update w.procs p (.worker W (k r)), db := db' }
  | die (p : P) : Step w (.die p) { w with alive := Function.update w.alive p False }
  | abort (p : P) (tx : Tx Write Lock) (opened : w.db.session p = .active tx) :
      Step w (.abort p) { w with db := w.db.abort p }

/-- The runs of the system from the tables `t`. -/
abbrev Reached (t : ValidTables) (role : P → Role) (tr : List (Event P)) (w : World P) : Prop :=
  Run Step (World.init t role) tr w

end OrdersApi
