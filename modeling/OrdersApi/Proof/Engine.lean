import OrdersApi.Spec.Process
import Mathlib.Data.List.Induction

/-!
# Engine and session factory

A process goes through the phases `Fresh`, `Opened`, `Closed` and `Broken`, and the calls
so far decide which (`phases`): `dispose_engine` forgets the engine but not the factory,
so a session that is opened after it is bound to the disposed engine.
-/

namespace OrdersApi

variable {environment : Settings} {p : Process} {used : Bool} {call : DatabaseCall}
  {calls : List DatabaseCall}

/-! ## Phases -/

/-- No session was opened yet. -/
structure Fresh (p : Process) : Prop where
  engines : p.engines = []
  engine : p.engine = none
  sessionFactory : p.sessionFactory = none
  sessions : p.sessions = []

/-- Sessions were opened on the one engine, which is not disposed. -/
structure Opened (p : Process) : Prop where
  engines : ∃ e, p.engines = [e] ∧ e.disposed = false
  engine : p.engine = some 0
  sessionFactory : p.sessionFactory = some 0
  sessions : ∀ session ∈ p.sessions, session = ⟨0, some 0⟩

/-- The engine was disposed since. -/
structure Closed (p : Process) : Prop where
  engines : ∃ e, p.engines = [e] ∧ e.disposed = true ∧ e.pooled = false
  engine : p.engine = none
  sessionFactory : p.sessionFactory = some 0
  sessions : ∀ session ∈ p.sessions, session = ⟨0, some 0⟩

/-- A session was opened on the disposed engine. -/
structure Broken (p : Process) : Prop where
  engine : p.engine = none
  sessionFactory : p.sessionFactory = some 0
  sessions : ⟨0, none⟩ ∈ p.sessions

/-- A new session when there is a factory. -/
theorem openSession_of_factory {engine : ℕ} (h : p.sessionFactory = some engine) :
    ((openSession environment used).run p).2 = { p with
      sessions := ⟨engine, p.engine⟩ :: p.sessions
      engines := p.engines.modify engine fun e => { e with pooled := e.pooled || used } } := by
  obtain ⟨settings, secrets, engines, held, sessionFactory, sessions⟩ := p
  obtain rfl : sessionFactory = some engine := h
  rfl

theorem Fresh.openSession (h : Fresh p) : Opened ((openSession environment used).run p).2 := by
  obtain ⟨settings, secrets, engines, held, sessionFactory, sessions⟩ := p
  obtain ⟨rfl, rfl, rfl, rfl⟩ := h
  cases settings with
  | none => exact ⟨⟨_, rfl, rfl⟩, rfl, rfl, fun session hs => List.mem_singleton.1 hs⟩
  | some settings => exact ⟨⟨_, rfl, rfl⟩, rfl, rfl, fun session hs => List.mem_singleton.1 hs⟩

theorem Opened.openSession (h : Opened p) : Opened ((openSession environment used).run p).2 := by
  rw [openSession_of_factory h.sessionFactory]
  obtain ⟨e, he, hd⟩ := h.engines
  refine ⟨⟨{ e with pooled := e.pooled || used }, ?_, hd⟩, h.engine, h.sessionFactory, ?_⟩
  · show p.engines.modify 0 _ = _
    rw [he]
    rfl
  · intro session hs
    rcases List.mem_cons.1 hs with rfl | hs
    · rw [h.engine]
    · exact h.sessions session hs

theorem Closed.openSession (h : Closed p) : Broken ((openSession environment used).run p).2 := by
  rw [openSession_of_factory h.sessionFactory]
  refine ⟨h.engine, h.sessionFactory, ?_⟩
  show _ ∈ ⟨0, p.engine⟩ :: p.sessions
  rw [h.engine]
  exact List.mem_cons_self

theorem Broken.openSession (h : Broken p) : Broken ((openSession environment used).run p).2 := by
  rw [openSession_of_factory h.sessionFactory]
  exact ⟨h.engine, h.sessionFactory, List.mem_cons_of_mem _ h.sessions⟩

theorem disposeEngine_of_none (h : p.engine = none) : (disposeEngine.run p).2 = p := by
  obtain ⟨settings, secrets, engines, engine, sessionFactory, sessions⟩ := p
  obtain rfl : engine = none := h
  rfl

theorem Opened.disposeEngine (h : Opened p) : Closed (disposeEngine.run p).2 := by
  obtain ⟨settings, secrets, engines, engine, sessionFactory, sessions⟩ := p
  obtain ⟨⟨e, rfl, -⟩, rfl, rfl, hsessions⟩ := h
  exact ⟨⟨_, rfl, rfl, rfl⟩, rfl, rfl, hsessions⟩

/-! ## Runs -/

theorem after_append (p : Process) (calls : List DatabaseCall) (call : DatabaseCall) :
    p.after environment (calls ++ [call]) = ((call.run environment).run (p.after environment calls)).2 := by
  simp [Process.after]

/-- A session is opened in the calls. -/
def Opens (calls : List DatabaseCall) : Prop := ∃ first ∈ calls, first.opens

/-- An engine is disposed after a session was opened. -/
def Closes (calls : List DatabaseCall) : Prop :=
  ∃ first : DatabaseCall, first.opens ∧ [first, .disposeEngine].Sublist calls

/-- A subsequence of the calls with one more. -/
theorem sublist_snoc {l : List DatabaseCall} {last : DatabaseCall} :
    (l ++ [last]).Sublist (calls ++ [call]) ↔ (l ++ [last]).Sublist calls ∨ l.Sublist calls ∧
    last = call := by
  have hreverse : (l ++ [last]).Sublist (calls ++ [call]) ↔
      (last :: l.reverse).Sublist (call :: calls.reverse) := by
    rw [← List.reverse_sublist, List.reverse_concat, List.reverse_concat]
  have hrest : (l ++ [last]).Sublist calls ↔ (last :: l.reverse).Sublist calls.reverse := by
    rw [← List.reverse_sublist, List.reverse_concat]
  have hfront : l.Sublist calls ↔ l.reverse.Sublist calls.reverse := List.reverse_sublist.symm
  rw [hreverse, hrest, hfront]
  constructor
  · intro h
    rcases List.sublist_cons_iff.1 h with h | ⟨rest, hrest, h⟩
    · exact .inl h
    · obtain ⟨rfl, rfl⟩ := List.cons_eq_cons.1 hrest
      exact .inr ⟨h, rfl⟩
  · rintro (h | ⟨h, rfl⟩)
    · exact h.cons _
    · exact h.cons_cons _

theorem opens_snoc : Opens (calls ++ [call]) ↔ Opens calls ∨ call.opens := by
  simp [Opens, or_and_right, exists_or]

theorem closes_snoc : Closes (calls ++ [call]) ↔ Closes calls ∨ Opens calls ∧
    call = .disposeEngine := by
  constructor
  · rintro ⟨first, hfirst, h⟩
    rcases sublist_snoc (l := [first]).1 h with h | ⟨h', rfl⟩
    · exact .inl ⟨first, hfirst, h⟩
    · exact .inr ⟨⟨first, List.singleton_sublist.1 h', hfirst⟩, rfl⟩
  · rintro (⟨first, hfirst, h⟩ | ⟨⟨first, h, hfirst⟩, rfl⟩)
    · exact ⟨first, hfirst, sublist_snoc (l := [first]).2 (.inl h)⟩
    · exact ⟨first, hfirst, sublist_snoc (l := [first]).2 (.inr ⟨List.singleton_sublist.2 h, rfl⟩)⟩

theorem reopens_snoc : Reopens (calls ++ [call]) ↔ Reopens calls ∨ Closes calls ∧ call.opens := by
  constructor
  · rintro ⟨first, again, hfirst, hagain, h⟩
    rcases sublist_snoc (l := [first, .disposeEngine]).1 h with h | ⟨h', rfl⟩
    · exact .inl ⟨first, again, hfirst, hagain, h⟩
    · exact .inr ⟨⟨first, hfirst, h'⟩, hagain⟩
  · rintro (⟨first, again, hfirst, hagain, h⟩ | ⟨⟨first, hfirst, h⟩, hcall⟩)
    · exact ⟨first, again, hfirst, hagain, sublist_snoc (l := [first, .disposeEngine]).2 (.inl h)⟩
    · exact ⟨first, call, hfirst, hcall, sublist_snoc (l := [first, .disposeEngine]).2 (.inr ⟨h, rfl⟩)⟩

/-- A call that opens a session is `openSession`, the other one is `disposeEngine`. -/
theorem call_cases (call : DatabaseCall) :
    (∃ used, call.opens = true ∧ ∀ environment, call.run environment = openSession environment used) ∨
      call = .disposeEngine := by
  cases call with
  | getSession used => exact .inl ⟨used, rfl, fun _ => rfl⟩
  | asyncSessionFactory used => exact .inl ⟨used, rfl, fun _ => rfl⟩
  | disposeEngine => exact .inr rfl

/-- **The phases of a process**, and the calls that lead to them. -/
theorem phases (environment : Settings) (calls : List DatabaseCall) :
    Fresh (Process.after environment {} calls) ∧ ¬ Opens calls ∧ ¬ Closes calls ∧ ¬ Reopens calls ∨
    Opened (Process.after environment {} calls) ∧ Opens calls ∧ ¬ Closes calls ∧ ¬ Reopens calls ∨
    Closed (Process.after environment {} calls) ∧ Closes calls ∧ ¬ Reopens calls ∨
    Broken (Process.after environment {} calls) ∧ Reopens calls := by
  induction calls using List.reverseRecOn with
  | nil => exact .inl ⟨⟨rfl, rfl, rfl, rfl⟩, by simp [Opens], by simp [Closes], by simp [Reopens]⟩
  | append_singleton calls call ih =>
    rw [after_append, opens_snoc, closes_snoc, reopens_snoc]
    rcases call_cases call with ⟨used, hopens, hrun⟩ | rfl
    -- a session is opened: only after a shutdown it breaks the process
    · have hne : call ≠ .disposeEngine := by rintro rfl; simp [DatabaseCall.opens] at hopens
      rw [hrun]
      rcases ih with ⟨h, -, hc, hr⟩ | ⟨h, -, hc, hr⟩ | ⟨h, hc, -⟩ | ⟨h, hr⟩
      · exact .inr (.inl ⟨h.openSession, .inr hopens, by simp [hc, hne], by simp [hc, hr]⟩)
      · exact .inr (.inl ⟨h.openSession, .inr hopens, by simp [hc, hne], by simp [hc, hr]⟩)
      · exact .inr (.inr (.inr ⟨h.openSession, .inr ⟨hc, hopens⟩⟩))
      · exact .inr (.inr (.inr ⟨h.openSession, .inl hr⟩))
    -- a shutdown does something only where sessions use the engine
    · rw [DatabaseCall.run]
      rcases ih with ⟨h, ho, hc, hr⟩ | ⟨h, ho, -, hr⟩ | ⟨h, hc, hr⟩ | ⟨h, hr⟩
      · rw [disposeEngine_of_none h.engine]
        exact .inl ⟨h, by simp [ho, DatabaseCall.opens], by simp [ho, hc], by simp [hr, DatabaseCall.opens]⟩
      · exact .inr (.inr (.inl ⟨h.disposeEngine, .inr ⟨ho, rfl⟩, by simp [hr, DatabaseCall.opens]⟩))
      · rw [disposeEngine_of_none h.engine]
        exact .inr (.inr (.inl ⟨h, .inl hc, by simp [hr, DatabaseCall.opens]⟩))
      · rw [disposeEngine_of_none h.engine]
        exact .inr (.inr (.inr ⟨h, .inl hr⟩))

/-! ## In step -/

/-- A last `dispose_engine` is after all the sessions. -/
theorem closes_of_last (hlast : calls.getLast? = some .disposeEngine) (ho : Opens calls) :
    Closes calls := by
  obtain ⟨front, rfl⟩ := List.getLast?_eq_some_iff.1 hlast
  rw [opens_snoc] at ho
  exact closes_snoc.2 (.inr ⟨ho.resolve_right (by simp [DatabaseCall.opens]), rfl⟩)

theorem Fresh.inStep (h : Fresh p) : InStep calls p := by
  refine ⟨?_, ?_, ?_⟩
  · rw [h.sessions]; nofun
  · rw [h.engines]; exact Nat.zero_le _
  · rw [h.sessions]; nofun

theorem Opened.inStep (h : Opened p) (ho : Opens calls) (hc : ¬ Closes calls) : InStep calls p := by
  obtain ⟨e, he, -⟩ := h.engines
  refine ⟨?_, ?_, ?_⟩
  · intro session hs
    rw [h.sessions session hs]
  · rw [he]; exact List.countP_le_length
  · intro hlast
    exact absurd (closes_of_last hlast ho) hc

theorem Closed.inStep (h : Closed p) : InStep calls p := by
  obtain ⟨e, he, -, hpooled⟩ := h.engines
  refine ⟨?_, ?_, ?_⟩
  · intro session hs
    rw [h.sessions session hs]
  · rw [he]; exact List.countP_le_length
  · intro _ session hs engine hengine
    rw [h.sessions session hs, he] at hengine
    obtain rfl : e = engine := Option.some.inj hengine
    exact hpooled

theorem Broken.not_inStep (h : Broken p) : ¬ InStep calls p := by
  intro hin
  have hbound := hin.bound _ h.sessions
  simp at hbound

/-- **Engine and session factory stay in step as long as no session is opened after an
engine that sessions used was disposed**, in every process. -/
theorem engine_in_step (environment : Settings) (calls : List DatabaseCall) :
    InStep calls (Process.after environment {} calls) ↔ ¬ Reopens calls := by
  rcases phases environment calls with
    ⟨h, -, -, hr⟩ | ⟨h, ho, hc, hr⟩ | ⟨h, -, hr⟩ | ⟨h, hr⟩
  · exact iff_of_true h.inStep hr
  · exact iff_of_true (h.inStep ho hc) hr
  · exact iff_of_true h.inStep hr
  · exact iff_of_false h.not_inStep (not_not_intro hr)

/-- **Not in step**: after a shutdown the next session gets the disposed engine, and the
next shutdown leaves the connection that it pooled there open. -/
theorem disposed_engine_reused :
    let calls : List DatabaseCall :=
      [.getSession true, .disposeEngine, .getSession true, .disposeEngine]
    let p := Process.after {} {} calls
    (∃ session ∈ p.sessions, session.held ≠ some session.engine) ∧
      (∃ session ∈ p.sessions, ∃ engine, p.engines[session.engine]? = some engine ∧ engine.pooled = true) ∧
      ¬ InStep calls p := by
  intro calls p
  have hsession : ⟨0, none⟩ ∈ p.sessions := List.mem_cons_self
  exact ⟨⟨_, hsession, nofun⟩, ⟨_, hsession, _, rfl, rfl⟩, fun h => nomatch h.bound _ hsession⟩

end OrdersApi
