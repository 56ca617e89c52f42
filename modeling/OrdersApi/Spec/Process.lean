import OrdersApi.Spec.Entities
import OrdersApi.Spec.Settings

/-!
# One process (`app/config/settings.py`, `app/repositories/database.py`)

The module globals of a process, and the functions that read and fill them: the cache of
`get_settings`, `_secrets_cache`, `_engine` and `_session_factory`. An engine is named by
its place among those that `_get_engine` has created. A session that runs a statement
leaves a connection in the pool of its engine, also of a disposed one.
-/

namespace OrdersApi

/-- An engine: its URL, and whether it was disposed and has pooled connections open. -/
structure Engine where
  url : String
  disposed : Bool := false
  pooled : Bool := false
deriving DecidableEq

/-- A session that was opened: the engine it is bound to, and `_engine` at that time. -/
structure OpenedSession where
  engine : ℕ
  held : Option ℕ
deriving DecidableEq

structure Process where
  settings : Option Settings := none
  secrets : Option Payload := none
  engines : List Engine := []
  engine : Option ℕ := none
  sessionFactory : Option ℕ := none
  sessions : List OpenedSession := []
deriving DecidableEq

section Functions

variable (environment : Settings)

/-- `get_settings`: the environment is read once. -/
def getSettings : StateM Process Settings := do
  match (← get).settings with
  | some settings => return settings
  | none =>
    modify fun p => { p with settings := some environment }
    return environment

/-- `load_secrets`. The call of Secrets Manager gives the secret, or fails. -/
def loadSecrets (call : Option Payload) (settings : Settings) : StateM Process Payload := do
  match (← get).secrets with
  | some secrets => return secrets
  | none =>
    let secrets := call.getD [("db_password", settings.dbPassword), ("api_key", settings.apiKey)]
    modify fun p => { p with secrets := some secrets }
    return secrets

/-- `_get_engine`. -/
def getEngine : StateM Process ℕ := do
  match (← get).engine with
  | some engine => return engine
  | none =>
    let settings ← getSettings environment
    let engine := (← get).engines.length
    modify fun p => { p with engines := p.engines ++ [{ url := settings.databaseUrl }], engine := some engine }
    return engine

/-- `_get_session_factory`, as the engine that the factory is bound to. -/
def getSessionFactory : StateM Process ℕ := do
  match (← get).sessionFactory with
  | some engine => return engine
  | none =>
    let engine ← getEngine environment
    modify fun p => { p with sessionFactory := some engine }
    return engine

/-- `async with _get_session_factory()() as session`; `used` when the session runs a statement. -/
def openSession (used : Bool) : StateM Process Unit := do
  let engine ← getSessionFactory environment
  modify fun p => { p with
    sessions := ⟨engine, p.engine⟩ :: p.sessions
    engines := p.engines.modify engine fun e => { e with pooled := e.pooled || used } }

/-- `get_session`. -/
def getSession (used : Bool) : StateM Process Unit := openSession environment used

/-- `async_session_factory`. -/
def asyncSessionFactory (used : Bool) : StateM Process Unit := openSession environment used

/-- `dispose_engine`. -/
def disposeEngine : StateM Process Unit := do
  match (← get).engine with
  | some engine =>
    modify fun p => { p with
      engines := p.engines.modify engine fun e => { e with disposed := true, pooled := false }
      engine := none }
  | none => return ()

/-- `lifespan`, up to its `yield`. -/
def lifespan (call : Option Payload) : StateM Process Payload := do
  let settings ← getSettings environment
  loadSecrets call settings

/-- `main` of the worker, up to `worker.start()`. -/
def workerMain (call : Option Payload) : StateM Process Payload := do
  let settings ← getSettings environment
  loadSecrets call settings

end Functions

/-! ## Runs -/

/-- A call of one of the functions of `app/repositories/database.py`. -/
inductive DatabaseCall
  | getSession (used : Bool)
  | asyncSessionFactory (used : Bool)
  | disposeEngine
deriving DecidableEq

namespace DatabaseCall

/-- The call opens a session. -/
def opens : DatabaseCall → Bool
  | disposeEngine => false
  | _ => true

def run (environment : Settings) : DatabaseCall → StateM Process Unit
  | getSession used => OrdersApi.getSession environment used
  | asyncSessionFactory used => OrdersApi.asyncSessionFactory environment used
  | disposeEngine => OrdersApi.disposeEngine

end DatabaseCall

/-- The process after some calls. -/
def Process.after (environment : Settings) (p : Process) (calls : List DatabaseCall) : Process :=
  calls.foldl (fun p call => ((call.run environment).run p).2) p

/-- Engine and factory are in step after the calls: every session was bound to the engine
in `_engine`, at most one engine is not disposed, and after a `dispose_engine` no engine
of a session has pooled connections. -/
structure InStep (calls : List DatabaseCall) (p : Process) : Prop where
  bound : ∀ session ∈ p.sessions, session.held = some session.engine
  one : (p.engines.countP fun engine => !engine.disposed) ≤ 1
  closed : calls.getLast? = some .disposeEngine →
    ∀ session ∈ p.sessions, ∀ engine, p.engines[session.engine]? = some engine → engine.pooled = false

/-- A session is opened again after a `dispose_engine` that came after a session. -/
def Reopens (calls : List DatabaseCall) : Prop :=
  ∃ first again : DatabaseCall, first.opens ∧ again.opens ∧ [first, .disposeEngine, again].Sublist calls

/-- The URLs with which the sessions connect. -/
def Process.connections (p : Process) : List (Option String) :=
  p.sessions.map fun session => (p.engines[session.engine]?).map Engine.url

/-! ## Startup -/

inductive EntryPoint
  | lifespan
  | workerMain
deriving DecidableEq

/-- The startup of a process: what `load_secrets` returns, and the process after it. -/
def EntryPoint.start (entry : EntryPoint) (environment : Settings) (call : Option Payload) :
    Payload × Process :=
  match entry with
  | lifespan => (OrdersApi.lifespan environment call).run {}
  | workerMain => (OrdersApi.workerMain environment call).run {}

/-- The connections of a process that makes some calls after its startup. -/
def connectionsAfter (entry : EntryPoint) (environment : Settings) (call : Option Payload)
    (calls : List DatabaseCall) : List (Option String) :=
  ((entry.start environment call).2.after environment calls).connections

/-- The loaded secret is the one in use: `load_secrets` returns the password of the secret,
or when the call failed the one of the settings, and every session connects with it. -/
structure SecretInUse (entry : EntryPoint) (environment : Settings) (call : Option Payload) : Prop where
  returned : (entry.start environment call).1.get "db_password" =
    call.elim (some environment.dbPassword) fun secret => secret.get "db_password"
  used : ∀ calls, ∀ connection ∈ connectionsAfter entry environment call calls,
    connection = ((entry.start environment call).1.get "db_password").map fun password =>
      { environment with dbPassword := password }.databaseUrl

end OrdersApi
