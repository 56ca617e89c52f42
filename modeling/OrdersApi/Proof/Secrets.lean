import OrdersApi.Proof.Engine

/-!
# The loaded secret

Every engine of a process has the URL of its environment (`Connects`), whatever
`load_secrets` returned. As the URL determines the password, the loaded secret is in use
only where it is the password of the environment (`secret_in_use`).
-/

namespace OrdersApi

variable {environment : Settings} {p : Process} {used : Bool} {call : Option Payload}
  {entry : EntryPoint}
  {calls : List DatabaseCall} {password : String}

/-! ## One URL -/

/-- Engines have the URL of the environment, and the places of engines are right. -/
structure Connects (environment : Settings) (p : Process) : Prop where
  settings : ∀ settings ∈ p.settings, settings = environment
  engines : ∀ engine ∈ p.engines, engine.url = environment.databaseUrl
  engine : ∀ engine ∈ p.engine, engine < p.engines.length
  sessionFactory : ∀ engine ∈ p.sessionFactory, engine < p.engines.length
  sessions : ∀ session ∈ p.sessions, session.engine < p.engines.length

/-- The function gives the place of an engine, and opens no session. -/
structure Gives (environment : Settings) (f : StateM Process ℕ) (p : Process) : Prop where
  connects : Connects environment (f.run p).2
  engine : (f.run p).1 < (f.run p).2.engines.length
  sessions : (f.run p).2.sessions = p.sessions

/-- `_get_engine` when there is an engine. -/
theorem getEngine_of_some {engine : ℕ} (h : p.engine = some engine) :
    (getEngine environment).run p = (engine, p) := by
  obtain ⟨settings, secrets, engines, held, sessionFactory, sessions⟩ := p
  obtain rfl : held = some engine := h
  rfl

/-- `_get_engine` when there is none: a new engine with the URL of the settings. -/
theorem getEngine_of_none (h : Connects environment p) (hnone : p.engine = none) :
    (getEngine environment).run p = (p.engines.length, { p with
      settings := some environment
      engines := p.engines ++ [{ url := environment.databaseUrl }]
      engine := some p.engines.length }) := by
  obtain ⟨settings, secrets, engines, held, sessionFactory, sessions⟩ := p
  obtain rfl : held = none := hnone
  cases settings with
  | none => rfl
  | some settings =>
    obtain rfl : settings = environment := h.settings _ rfl
    rfl

theorem getEngine_gives (h : Connects environment p) : Gives environment (getEngine environment) p := by
  rcases hengine : p.engine with - | engine
  -- a new engine, at the place after the others
  · have hlength (engine : Engine) : (p.engines ++ [engine]).length = p.engines.length + 1 :=
      List.length_append
    have hrun := getEngine_of_none h hengine
    refine ⟨?_, ?_, ?_⟩ <;> rw [hrun]
    · refine ⟨fun settings hs => (Option.mem_some.1 hs).symm, ?_, ?_, ?_, ?_⟩
      · intro engine he
        rcases List.mem_append.1 he with he | he
        · exact h.engines engine he
        · rw [List.mem_singleton.1 he]
      · intro engine he
        have := Option.mem_some.1 he
        show engine < (p.engines ++ [_]).length
        rw [hlength]
        omega
      · intro engine he
        have := h.sessionFactory engine he
        show engine < (p.engines ++ [_]).length
        rw [hlength]
        omega
      · intro session hs
        have := h.sessions session hs
        show session.engine < (p.engines ++ [_]).length
        rw [hlength]
        omega
    · show p.engines.length < (p.engines ++ [_]).length
      rw [hlength]
      omega
  · have hrun : (getEngine environment).run p = (engine, p) := getEngine_of_some hengine
    refine ⟨?_, ?_, ?_⟩ <;> rw [hrun]
    · exact h
    · exact h.engine engine hengine

theorem getSessionFactory_gives (h : Connects environment p) :
    Gives environment (getSessionFactory environment) p := by
  rcases hfactory : p.sessionFactory with - | engine
  -- the new factory is bound to the engine of `_get_engine`
  · obtain ⟨hconnects, hengine, hsessions⟩ := getEngine_gives h
    have hrun : (getSessionFactory environment).run p = (((getEngine environment).run p).1,
        { ((getEngine environment).run p).2 with sessionFactory := some ((getEngine environment).run p).1 }) := by
      obtain ⟨settings, secrets, engines, held, sessionFactory, sessions⟩ := p
      obtain rfl : sessionFactory = none := hfactory
      rfl
    refine ⟨?_, ?_, ?_⟩ <;> rw [hrun]
    · refine ⟨hconnects.settings, hconnects.engines, hconnects.engine, ?_, hconnects.sessions⟩
      intro engine he
      rw [← Option.mem_some.1 he]
      exact hengine
    · exact hengine
    · exact hsessions
  · have hrun : (getSessionFactory environment).run p = (engine, p) := by
      obtain ⟨settings, secrets, engines, held, sessionFactory, sessions⟩ := p
      obtain rfl : sessionFactory = some engine := hfactory
      rfl
    refine ⟨?_, ?_, ?_⟩ <;> rw [hrun]
    · exact h
    · exact h.sessionFactory engine hfactory

/-- A change of an engine that leaves its URL. -/
theorem Connects.modify (h : Connects environment p) (i : ℕ) {f : Engine → Engine}
    (hf : ∀ e, (f e).url = e.url) :
    Connects environment { p with engines := p.engines.modify i f } := by
  refine ⟨h.settings, ?_, ?_, ?_, ?_⟩
  · intro engine he
    obtain ⟨j, hj, rfl⟩ := List.mem_iff_getElem.1 he
    rw [List.getElem_modify]
    split
    · rw [hf]
      exact h.engines _ (List.getElem_mem _)
    · exact h.engines _ (List.getElem_mem _)
  all_goals simp only [List.length_modify]
  · exact h.engine
  · exact h.sessionFactory
  · exact h.sessions

theorem openSession_connects (h : Connects environment p) :
    Connects environment ((openSession environment used).run p).2 ∧
      ((openSession environment used).run p).2.sessions.length = p.sessions.length + 1 := by
  obtain ⟨hconnects, hengine, hsessions⟩ := getSessionFactory_gives h
  rw [← hsessions]
  set p' := ((getSessionFactory environment).run p).2
  have hadd : Connects environment
      { p' with sessions := ⟨((getSessionFactory environment).run p).1, p'.engine⟩ :: p'.sessions } := by
    refine ⟨hconnects.settings, hconnects.engines, hconnects.engine, hconnects.sessionFactory, ?_⟩
    intro session hs
    rcases List.mem_cons.1 hs with rfl | hs
    · exact hengine
    · exact hconnects.sessions session hs
  exact ⟨hadd.modify _ fun _ => rfl, rfl⟩

theorem disposeEngine_connects (h : Connects environment p) :
    Connects environment (disposeEngine.run p).2 ∧ (disposeEngine.run p).2.sessions = p.sessions := by
  rcases hengine : p.engine with - | engine
  · rw [disposeEngine_of_none hengine]
    exact ⟨h, rfl⟩
  · have hrun : (disposeEngine.run p).2 = { p with
        engines := p.engines.modify engine fun e => { e with disposed := true, pooled := false }
        engine := none } := by
      obtain ⟨settings, secrets, engines, held, sessionFactory, sessions⟩ := p
      obtain rfl : held = some engine := hengine
      rfl
    rw [hrun]
    have hmodify := h.modify engine (f := fun e => { e with disposed := true, pooled := false }) fun _ => rfl
    exact ⟨⟨hmodify.settings, hmodify.engines, nofun, hmodify.sessionFactory, hmodify.sessions⟩, rfl⟩

theorem run_connects (call : DatabaseCall) (h : Connects environment p) :
    Connects environment ((call.run environment).run p).2 ∧
      ((call.run environment).run p).2.sessions.length = p.sessions.length + if call.opens then 1 else 0 := by
  rcases call_cases call with ⟨used, hopens, hrun⟩ | rfl
  · rw [hrun, if_pos hopens]
    exact openSession_connects h
  · obtain ⟨hconnects, hsessions⟩ := disposeEngine_connects h
    exact ⟨hconnects, congrArg List.length hsessions⟩

theorem after_connects (calls : List DatabaseCall) (h : Connects environment p) :
    Connects environment (p.after environment calls) ∧
      (p.after environment calls).sessions.length = p.sessions.length + calls.countP DatabaseCall.opens := by
  induction calls using List.reverseRecOn with
  | nil => exact ⟨h, rfl⟩
  | append_singleton calls call ih =>
    obtain ⟨hconnects, hlength⟩ := ih
    obtain ⟨hnext, hadded⟩ := run_connects call hconnects
    rw [after_append, hadded, hlength, List.countP_append, List.countP_singleton, Nat.add_assoc]
    exact ⟨hnext, rfl⟩

theorem Connects.connections (h : Connects environment p) :
    p.connections = List.replicate p.sessions.length (some environment.databaseUrl) := by
  refine List.eq_replicate_iff.2 ⟨List.length_map _, ?_⟩
  intro connection hc
  obtain ⟨session, hs, rfl⟩ := List.mem_map.1 hc
  rw [List.getElem?_eq_getElem (h.sessions session hs), Option.map_some, h.engines _ (List.getElem_mem _)]

/-! ## Startup -/

theorem start_eq (entry : EntryPoint) (environment : Settings) (call : Option Payload) :
    entry.start environment call =
      (call.getD [("db_password", environment.dbPassword), ("api_key", environment.apiKey)],
        { settings := some environment
          secrets := call.getD [("db_password", environment.dbPassword), ("api_key", environment.apiKey)] }) := by
  cases entry <;> rfl

/-- The password that `load_secrets` returns. -/
theorem returned_password (entry : EntryPoint) (environment : Settings) (call : Option Payload) :
    (entry.start environment call).1.get "db_password" =
      call.elim (some environment.dbPassword) fun secret => secret.get "db_password" := by
  rw [start_eq]
  cases call <;> rfl

/-- Each opened session connects with the URL of the environment. -/
theorem connectionsAfter_eq (entry : EntryPoint) (environment : Settings) (call : Option Payload)
    (calls : List DatabaseCall) : connectionsAfter entry environment call calls =
      List.replicate (calls.countP DatabaseCall.opens) (some environment.databaseUrl) := by
  have hstart : Connects environment (entry.start environment call).2 := by
    rw [start_eq]
    exact ⟨fun settings hs => (Option.mem_some.1 hs).symm, nofun, nofun, nofun, nofun⟩
  have hnone : (entry.start environment call).2.sessions = [] := by rw [start_eq]
  obtain ⟨hconnects, hlength⟩ := after_connects calls hstart
  unfold connectionsAfter
  rw [hconnects.connections, hlength, hnone, List.length_nil, Nat.zero_add]

/-- The URL determines the password. -/
theorem databaseUrl_password :
    { environment with dbPassword := password }.databaseUrl = environment.databaseUrl ↔
      password = environment.dbPassword := by
  constructor
  · intro h
    unfold Settings.databaseUrl at h
    have hprefix := (String.append_left_inj _).1 h
    have huser := (String.append_right_inj _).1 hprefix
    exact (String.append_right_inj _).1 huser
  · rintro rfl
    rfl

/-- A password that is in use is the one of the environment. -/
theorem SecretInUse.password_eq {secret : Payload} (h : SecretInUse entry environment (some secret))
    (hpassword : secret.get "db_password" = some password) : password = environment.dbPassword := by
  have hopened : some environment.databaseUrl ∈ connectionsAfter entry environment (some secret) [.getSession true] := by
    rw [connectionsAfter_eq]
    exact List.mem_cons_self
  -- the one connection has the URL of the environment, and should have that of the secret
  have hused := h.used _ _ hopened
  rw [returned_password, Option.elim_some, hpassword, Option.map_some] at hused
  exact databaseUrl_password.1 (Option.some.inj hused).symm

/-- The password of the environment is in use. -/
theorem secretInUse_of_eq
    (h : ∀ secret ∈ call, secret.get "db_password" = some environment.dbPassword) :
    SecretInUse entry environment call := by
  have hreturned : call.elim (some environment.dbPassword) (fun secret => secret.get "db_password") =
      some environment.dbPassword := by
    rcases call with - | secret
    · rfl
    · exact h secret rfl
  refine ⟨returned_password entry environment call, ?_⟩
  intro calls connection hc
  rw [connectionsAfter_eq] at hc
  rw [List.eq_of_mem_replicate hc, returned_password, hreturned, Option.map_some]

/-- **The loaded secret is in use only where it is the password of the environment**, and
the connections do not depend on the environment only where it does not differ. -/
theorem secret_in_use (entry : EntryPoint) (environment : Settings) (call : Option Payload)
    (hsecret : ∀ secret ∈ call, (secret.get "db_password").isSome) :
    (SecretInUse entry environment call ↔ ∀ secret ∈ call, secret.get "db_password" = some environment.dbPassword) ∧
      ∀ secret ∈ call, ∀ other, (∀ calls, connectionsAfter entry environment (some secret) calls =
        connectionsAfter entry { environment with dbPassword := other } (some secret) calls) ↔
          other = environment.dbPassword := by
  refine ⟨⟨?_, secretInUse_of_eq⟩, ?_⟩
  · intro h secret hcall
    obtain ⟨password, hpassword⟩ := Option.isSome_iff_exists.1 (hsecret secret hcall)
    obtain rfl := Option.mem_def.1 hcall
    rw [hpassword, h.password_eq hpassword]
  · intro secret _ other
    simp only [connectionsAfter_eq]
    constructor
    · intro h
      -- one session shows the URL, and so the password
      have hone := h [.getSession true]
      exact databaseUrl_password.1 (Option.some.inj (List.head_eq_of_cons_eq hone)).symm
    · rintro rfl _
      rfl

section Sample

/-- A secret with a password. -/
def secretOf (password : String) : Payload := [("db_password", password), ("api_key", "dev-api-key")]

/-- A secret with the password of the environment is in use. -/
theorem secret_in_use_sample :
    SecretInUse .workerMain { dbPassword := "s3/cret" } (some (secretOf "s3/cret")) := by
  have hget : (secretOf "s3/cret").get "db_password" = some "s3/cret" := by decide
  refine (secret_in_use _ _ _ ?_).1.2 ?_
  · intro secret hs
    rw [← Option.mem_some.1 hs, hget]
    rfl
  · intro secret hs
    rw [← Option.mem_some.1 hs]
    exact hget

/-- **Not in use**: another password in the secret, in the API and in the worker. -/
theorem secret_not_used :
    ¬ SecretInUse .lifespan {} (some (secretOf "s3cret")) ∧
      ¬ SecretInUse .workerMain {} (some (secretOf "s3cret")) := by
  have hget : (secretOf "s3cret").get "db_password" = some "s3cret" := by decide
  have hne : "s3cret" ≠ ({} : Settings).dbPassword := by decide
  exact ⟨fun h => hne (h.password_eq hget), fun h => hne (h.password_eq hget)⟩

end Sample

end OrdersApi
