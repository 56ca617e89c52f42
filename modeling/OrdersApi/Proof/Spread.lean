import OrdersApi.Proof.Verdict

/-!
# A failure within a batch

The session of a batch is never rolled back before the batch ends. After an event that
leaves it usable, each later event is published once and becomes `processed` (`Onward`).
After an event that leaves its transaction aborted, each later event is published in all
its attempts, and nothing is marked (`Stuck`).
-/

namespace OrdersApi

open TxStore Trace

variable {P : Type} {tr tr' : List (Event P)} {l : Event P} {p q : P} {e : UUID} {event : OutboxEvent}
  {polls attempt : ℕ} {later : List ℕ} {pt : WorkerPoint} {post done rest : List OutboxEvent}

/-! ## The events after a failure -/

namespace WorkerPoint

/-- The points of a batch that goes on as it should: `sent` is the event that is published
and not yet marked, and `rest` are the events after it. -/
inductive Onward (polls : ℕ) : WorkerPoint → Option OutboxEvent → List OutboxEvent → Prop
  | next (rest : List OutboxEvent) : Onward polls (nextEvent polls rest) none rest
  | mark (event : OutboxEvent) (rest : List OutboxEvent) (attempt : ℕ) (later : List ℕ) :
      Onward polls (.mark ⟨event, rest, polls⟩ attempt later) (some event) rest
  | commit (event : OutboxEvent) (rest : List OutboxEvent) (attempt : ℕ) (later : List ℕ) :
      Onward polls (.commit ⟨event, rest, polls⟩ attempt later) (some event) rest
  | count (event : OutboxEvent) (rest : List OutboxEvent) (attempt : ℕ) (later : List ℕ) :
      Onward polls (.count ⟨event, rest, polls⟩ attempt later) none rest

/-- At the end of the batch nothing is left. -/
theorem Onward.close {sent : Option OutboxEvent} (h : Onward polls pt sent rest)
    (hpt : pt = .close polls) :
    sent = none ∧ rest = [] := by
  cases h with
  | next =>
    cases rest with
    | nil => exact ⟨rfl, rfl⟩
    | cons event rest => cases hpt
  | mark => cases hpt
  | commit => cases hpt
  | count => cases hpt

/-- The attempts that follow an attempt. -/
def Later (attempt : ℕ) (later : List ℕ) : Prop :=
  attempt < maxRetries ∧ later = (List.range maxRetries).drop (attempt + 1)

/-- The points of a batch whose transaction is aborted: the event under way, how often it
has been published at least, and the events after it. -/
inductive Stuck (polls : ℕ) : WorkerPoint → Option (OutboxEvent × ℕ) → List OutboxEvent → Prop
  | close : Stuck polls (close polls) none []
  | publish (event : OutboxEvent) (rest : List OutboxEvent) (attempt : ℕ) (later : List ℕ)
      (h : Later attempt later) :
      Stuck polls (publish ⟨event, rest, polls⟩ attempt later) (some (event, attempt)) rest
  | mark (event : OutboxEvent) (rest : List OutboxEvent) (attempt : ℕ) (later : List ℕ)
      (h : Later attempt later) :
      Stuck polls (mark ⟨event, rest, polls⟩ attempt later) (some (event, attempt + 1)) rest
  | backoff (event : OutboxEvent) (rest : List OutboxEvent) (attempt : ℕ) (later : List ℕ)
      (h : Later attempt later) (hlast : attempt < maxRetries - 1) :
      Stuck polls (backoff ⟨event, rest, polls⟩ attempt later) (some (event, attempt + 1)) rest
  | markFailed (event : OutboxEvent) (rest : List OutboxEvent) :
      Stuck polls (markFailed ⟨event, rest, polls⟩) (some (event, maxRetries)) rest
  | countFailed (event : OutboxEvent) (rest : List OutboxEvent) :
      Stuck polls (countFailed ⟨event, rest, polls⟩) (some (event, maxRetries)) rest

theorem Stuck.nextEvent (polls : ℕ) : ∀ rest : List OutboxEvent, ∃ cur rest',
    Stuck polls (nextEvent polls rest) cur rest' ∧ (cur.map Prod.fst).toList ++ rest' = rest ∧
      ∀ event n, cur = some (event, n) → n = 0
  | [] => ⟨none, [], .close, rfl, nofun⟩
  | event :: rest => ⟨some (event, 0), rest, .publish event rest 0 [1, 2] ⟨by decide, rfl⟩, rfl,
      by rintro _ _ ⟨⟩; rfl⟩

/-- After an attempt that fails the next one is under way, or the event is given up. -/
theorem Stuck.attemptError (h : Later attempt later) :
    Stuck polls (attemptError ⟨event, rest, polls⟩ attempt later) (some (event, attempt + 1)) rest := by
  unfold WorkerPoint.attemptError
  split
  · rename_i hlast
    exact .backoff event rest attempt later h hlast
  · obtain ⟨hlt, rfl⟩ := h
    obtain rfl : attempt = 2 := by
      have : maxRetries = 3 := rfl
      omega
    exact .markFailed event rest

/-- After the pause the next attempt is under way. -/
theorem Stuck.nextAttempt (h : Later attempt later) (hlast : attempt < maxRetries - 1) :
    Stuck polls (nextAttempt ⟨event, rest, polls⟩ later) (some (event, attempt + 1)) rest := by
  obtain ⟨-, rfl⟩ := h
  have : maxRetries = 3 := rfl
  obtain rfl | rfl : attempt = 0 ∨ attempt = 1 := by omega
  · exact .publish event rest 1 [2] ⟨by decide, rfl⟩
  · exact .publish event rest 2 [] ⟨by decide, rfl⟩

end WorkerPoint

section Reach

variable [DecidableEq P] {t : ValidTables} {role : P → Role} {w w' : World P} {W : OutboxWorker}

theorem publishCallsBy_other (hl : ∀ o r, l ≠ .exec p o r) :
    publishCallsBy p e (l :: tr) = publishCallsBy p e tr := by
  unfold publishCallsBy
  cases l with
  | exec q o r =>
    have hq : q ≠ p := fun h => hl o r (h ▸ rfl)
    rw [List.filter_cons_of_neg (by simpa [Event.IsOf] using hq)]
  | die q => rfl
  | abort q => rfl

theorem publishCallsBy_own {o : Op} {r : Except Exc (Op.Resp o)} :
    publishCallsBy p e (.exec p o r :: tr) =
    publishCallsBy p e tr + if (Event.exec p o r).publishes = some e then 1 else 0 := by
  unfold publishCallsBy
  rw [List.filter_cons_of_pos (by simp [Event.IsOf]), publishCalls_cons]

theorem publishCallsBy_quiet {o : Op} {r : Except Exc (Op.Resp o)}
    (hl : (Event.exec p o r).publishes = none) :
    publishCallsBy p e (.exec p o r :: tr) = publishCallsBy p e tr := by
  rw [publishCallsBy_own, hl]; rfl

/-- A status that another party may not change. -/
theorem RestOk.statusOf (hok : RestOk p post w l) (h : Reached t role tr w) (hs : Step w l w')
    (hl : ∀ o r, l ≠ .exec p o r) (hev : event ∈ post) {s : OutboxStatus}
    (he : w.db.committed.statusOf event.id = some s) : w'.db.committed.statusOf event.id = some s := by
  cases h.commits hs with
  | same ht => rw [ht]; exact he
  | created q a m event' t' r _ _ hm ht => rw [ht]; exact Tables.statusOf_append he
  | settled q W pt x status r hlab _ hq hu hw ht =>
    have hqp : q ≠ p := by
      rintro rfl
      exact hl _ _ hlab
    have hwrites := (h.workerInv hq).session.writes hu
    have hne := hok.others q r x status hqp hlab (by rw [hwrites, hw]; exact List.mem_cons_self) event hev
    rw [ht, Tables.statusOf_setStatus, he]
    simp [hne]

/-- The rest of the batch goes on as it should: `done` is processed, and each event that is
done or sent has been published once. -/
structure Onward (p : P) (polls : ℕ) (post : List OutboxEvent) (tr : List (Event P)) (db : Db P)
    (pt : WorkerPoint) (done : List OutboxEvent) (sent : Option OutboxEvent)
    (rest : List OutboxEvent) : Prop where
  point : WorkerPoint.Onward polls pt sent rest
  split : post = done ++ (sent.toList ++ rest)
  usable : (db.session p).Usable
  processed : ∀ event ∈ done, db.committed.statusOf event.id = some .processed
  once : ∀ event ∈ done ++ sent.toList, publishCallsBy p event.id tr = 1
  unsent : ∀ event ∈ rest, publishCallsBy p event.id tr = 0

/-- The transaction stays aborted: each event that is done has been published in all attempts. -/
structure Stuck (p : P) (polls : ℕ) (post : List OutboxEvent) (tr : List (Event P)) (db : Db P)
    (pt : WorkerPoint) (done : List OutboxEvent) (cur : Option (OutboxEvent × ℕ))
    (rest : List OutboxEvent) :
    Prop where
  point : WorkerPoint.Stuck polls pt cur rest
  split : post = done ++ ((cur.map Prod.fst).toList ++ rest)
  aborted : db.session p = .aborted
  tried : ∀ event ∈ done, maxRetries ≤ publishCallsBy p event.id tr
  trying : ∀ event n, cur = some (event, n) → n ≤ publishCallsBy p event.id tr

section Own

variable {o : Op} {r : Except Exc (Op.Resp o)} {k : Except Exc (Op.Resp o) → WorkerPoint} {db' : Db P}
  {sent : Option OutboxEvent} {cur : Option (OutboxEvent × ℕ)}

theorem CopyIn.statusOf {tab : Tables} (h : CopyIn tab event) (hk : tab.keys.Nodup) :
    ∃ s, tab.statusOf event.id = some s := by
  obtain ⟨s, hs⟩ := h
  exact ⟨_, Tables.statusOf_row hk hs⟩

/-- A step that neither publishes nor commits keeps what is known. -/
theorem Onward.quiet (hI : Onward p polls post tr w.db pt done sent rest)
    (hl : (Event.exec p o r).publishes = none) (hdb : db'.committed = w.db.committed)
    (hu : (db'.session p).Usable) {pt' : WorkerPoint} (hpt : WorkerPoint.Onward polls pt' sent rest) :
    Onward p polls post (.exec p o r :: tr) db' pt' done sent rest where
  point := hpt
  split := hI.split
  usable := hu
  processed event hev := hdb ▸ hI.processed event hev
  once event hev := by rw [publishCallsBy_quiet hl]; exact hI.once event hev
  unsent event hev := by rw [publishCallsBy_quiet hl]; exact hI.unsent event hev

/-- The next event is published: once more, and no other event. -/
theorem Onward.published (hI : Onward p polls post tr w.db pt done none (event :: rest))
    (hnd : (post.map OutboxEvent.id).Nodup) :
    Onward p polls post (.exec p (.publish event (Json.dumps event.payload)) (.ok ()) :: tr) w.db
      (.mark ⟨event, rest, polls⟩ 0 [1, 2]) done (some event) rest := by
  have hsplit : post = done ++ event :: rest := hI.split
  -- the events of a batch are different ones
  have hne : ∀ x ∈ done ++ rest, event.id ≠ x.id := by
    intro x hx he
    rw [hsplit, List.map_append, List.map_cons] at hnd
    have hnot := (List.nodup_middle.1 hnd).notMem
    rw [← List.map_append, he] at hnot
    exact hnot (List.mem_map_of_mem hx)
  have hcall : ∀ x ∈ done ++ rest, publishCallsBy p x.id
      (.exec p (.publish event (Json.dumps event.payload)) (.ok ()) :: tr) = publishCallsBy p x.id tr := by
    intro x hx
    rw [publishCallsBy_own]
    simp [Event.publishes, hne x hx]
  refine ⟨.mark event rest 0 [1, 2], hsplit, hI.usable, hI.processed, ?_, ?_⟩
  · intro x hx
    rcases List.mem_append.1 hx with hx | hx
    · rw [hcall x (List.mem_append_left _ hx)]
      exact hI.once x (List.mem_append_left _ hx)
    · obtain rfl : x = event := by simpa using hx
      rw [publishCallsBy_own, hI.unsent x List.mem_cons_self]
      simp [Event.publishes]
  · intro x hx
    rw [hcall x (List.mem_append_right _ hx)]
    exact hI.unsent x (List.mem_cons_of_mem _ hx)

/-- The published event is committed as processed. -/
theorem Onward.committed (hI : Onward p polls post tr w.db (.commit ⟨event, rest, polls⟩ attempt later) done
    (some event) rest) {tr₀ : List (Event P)} (h : Reached t role tr₀ w)
    (hp : w.procs p = .worker W (.commit ⟨event, rest, polls⟩ attempt later)) :
    Onward p polls post (.exec p .commit (.ok ()) :: tr) (w.db.commit schema p)
      (.count ⟨event, rest, polls⟩ attempt later) (done ++ [event]) none rest := by
  have hinv := h.workerInv hp
  have hview : w.db.view schema p = w.db.committed.apply (.setStatus event.id .processed) :=
    view_of_holds hinv.session hI.usable
  obtain ⟨s, hst⟩ := (hinv.copies event List.mem_cons_self).statusOf h.keys_nodup
  refine ⟨.count event rest attempt later, ?_, by simp, ?_, ?_, ?_⟩
  · rw [hI.split]; simp
  · intro x hx
    rw [Store.commit_committed, hview, Tables.statusOf_setStatus]
    -- the events settled before stay processed, and this one was there to be settled
    rcases List.mem_append.1 hx with hx | hx
    · rw [hI.processed x hx]; simp
    · obtain rfl : x = event := by simpa using hx
      rw [hst]; simp
  · intro x hx
    rw [publishCallsBy_quiet rfl]
    exact hI.once x (by simpa using hx)
  · intro x hx
    rw [publishCallsBy_quiet rfl]
    exact hI.unsent x hx

/-- **The worker's own step**, on a session that is usable. -/
theorem Onward.step (hI : Onward p polls post tr w.db pt done sent rest) {tr₀ : List (Event P)}
    (h : Reached t role tr₀ w) (hp : w.procs p = .worker W pt) (hn : pt.node W = .op o k)
    (hx : Exec w.db p o r db') (hok : RestOk p post w (.exec p o r))
    (hnd : (post.map OutboxEvent.id).Nodup) :
    ∃ done' sent' rest', Onward p polls post (.exec p o r :: tr) db' (k r) done' sent' rest' := by
  have hu := hI.usable
  cases hI.point with
  | next =>
    cases rest with
    | nil => cases hn; exact absurd rfl (hok.within r)
    | cons event rest =>
      cases hn
      obtain rfl := hok.published _ _ r rfl
      have hdb : db' = w.db := by cases hx; rfl
      subst hdb
      exact ⟨done, some event, rest, hI.published hnd⟩
  | mark event rest attempt later =>
    cases hn
    cases hx with
    | failed _ hf => exact absurd hu (hok.healthy _ _ rfl (.inl rfl))
    | updateStatus =>
      refine ⟨done, some event, rest, hI.quiet rfl ?_ ?_ (.commit event rest attempt later)⟩
      · rfl
      · rw [Store.extend_self]; trivial
    | updateNoRow =>
      refine ⟨done, some event, rest, hI.quiet rfl ?_ ?_ (.commit event rest attempt later)⟩
      · rfl
      · rw [Store.extend_self]; trivial
  | commit event rest attempt later =>
    cases hn
    cases hx with
    | failed hst => cases hst
    | commitFailed => exact absurd hu (hok.healthy _ _ rfl (.inr rfl))
    | commitLost => exact absurd hu (hok.healthy _ _ rfl (.inr rfl))
    | commit => exact ⟨done ++ [event], none, rest, hI.committed h hp⟩
  | count event rest attempt later =>
    cases hn
    cases hx with
    | failed hst => cases hst
    | inc => exact ⟨done, _, _, hI.quiet rfl rfl hu (.next rest)⟩

omit [DecidableEq P] in
theorem not_usable_of_aborted {db : Db P} (h : db.session p = .aborted) : ¬ (db.session p).Usable := by
  rw [h]; exact id

/-- A transaction stays aborted until it is ended. -/
theorem Exec.stays_aborted (hx : Exec w.db p o r db') (ha : w.db.session p = .aborted)
    (hclose : o ≠ .close)
    (hrollback : o ≠ .rollback) : db'.session p = .aborted :=
  aborted_of_not_usable fun hu' => not_usable_of_aborted ha (hx.usable_before hu' hclose hrollback)

theorem Exec.update_aborted {status : OutboxStatus} {r : Except Exc Unit}
    (hx : Exec w.db p (.updateStatus e status) r db') (ha : w.db.session p = .aborted) :
    r = .error .databaseError := by
  cases hx with
  | failed => rfl
  | updateStatus _ _ hu => exact absurd hu (not_usable_of_aborted ha)
  | updateNoRow _ _ hu => exact absurd hu (not_usable_of_aborted ha)

theorem publishCallsBy_le (e : UUID) (l : Event P) (tr : List (Event P)) :
    publishCallsBy p e tr ≤ publishCallsBy p e (l :: tr) := by
  by_cases hl : ∃ o r, l = .exec p o r
  · obtain ⟨o, r, rfl⟩ := hl
    rw [publishCallsBy_own]; omega
  · push Not at hl
    rw [publishCallsBy_other hl]

/-- The same event is under way, or has been published once more. -/
theorem Stuck.keep (hI : Stuck p polls post tr w.db pt done cur rest) (ha : db'.session p = .aborted)
    {pt' : WorkerPoint} {cur' : Option (OutboxEvent × ℕ)} (hpt : WorkerPoint.Stuck polls pt' cur' rest)
    (hcur : cur'.map Prod.fst = cur.map Prod.fst)
    (htrying : ∀ event n, cur' = some (event, n) → n ≤ publishCallsBy p event.id (l :: tr)) :
    Stuck p polls post (l :: tr) db' pt' done cur' rest where
  point := hpt
  split := hcur ▸ hI.split
  aborted := ha
  tried event hev := (hI.tried event hev).trans (publishCallsBy_le _ _ _)
  trying := htrying

/-- **The worker's own step**, in a transaction that is aborted. -/
theorem Stuck.step (hI : Stuck p polls post tr w.db pt done cur rest) (hn : pt.node W = .op o k)
    (hx : Exec w.db p o r db') (hok : RestOk p post w (.exec p o r)) :
    ∃ done' cur' rest', Stuck p polls post (.exec p o r :: tr) db' (k r) done' cur' rest' := by
  have ha := hI.aborted
  have hle : ∀ event n, cur = some (event, n) → n ≤ publishCallsBy p event.id (.exec p o r :: tr) :=
    fun event n hcur => (hI.trying event n hcur).trans (publishCallsBy_le _ _ _)
  cases hI.point with
  | close => cases hn; exact absurd rfl (hok.within r)
  | publish event rest attempt later h =>
    cases hn
    obtain rfl := hok.published _ _ r rfl
    have ha' := hx.stays_aborted ha nofun nofun
    refine ⟨done, _, _, hI.keep ha' (.mark event rest attempt later h) rfl ?_⟩
    rintro event n ⟨⟩
    have := hI.trying event attempt rfl
    rw [publishCallsBy_own]
    simp only [Event.publishes, if_true]; omega
  | mark event rest attempt later h =>
    cases hn
    obtain rfl := hx.update_aborted ha
    have ha' := hx.stays_aborted ha nofun nofun
    exact ⟨done, _, _, hI.keep ha' (.attemptError h) rfl hle⟩
  | backoff event rest attempt later h hlast =>
    cases hn
    have ha' := hx.stays_aborted ha nofun nofun
    cases hx with
    | failed hst => cases hst
    | sleep => exact ⟨done, _, _, hI.keep ha' (.nextAttempt h hlast) rfl hle⟩
  | markFailed event rest =>
    cases hn
    obtain rfl := hx.update_aborted ha
    have ha' := hx.stays_aborted ha nofun nofun
    exact ⟨done, _, _, hI.keep ha' (.countFailed event rest) rfl hle⟩
  | countFailed event rest =>
    cases hn
    have ha' := hx.stays_aborted ha nofun nofun
    cases hx with
    | failed hst => cases hst
    | inc =>
      -- the event is given up after all its attempts, and the next one begins
      obtain ⟨cur', rest', hpt, hsplit, hcur⟩ := WorkerPoint.Stuck.nextEvent polls rest
      refine ⟨done ++ [event], cur', rest', hpt, ?_, ha', ?_, ?_⟩
      · rw [hI.split, hsplit]; simp
      · intro x hx
        rcases List.mem_append.1 hx with hx | hx
        · exact (hI.tried x hx).trans (publishCallsBy_le _ _ _)
        · obtain rfl : x = event := by simpa using hx
          exact hle x _ rfl
      · intro x n hx
        rw [hcur x n hx]; exact Nat.zero_le _

end Own

/-- **The rule for the rest of a batch**: what survives the steps of the others and the
worker's own steps holds until the batch ends. -/
theorem rest_invariant {I : List (Event P) → Db P → WorkerPoint → Prop} (h : Reached t role tr w)
    (hp : w.procs p = .worker W pt) (init : I [] w.db pt)
    (other : ∀ {tr₀ tr₁ : List (Event P)} {w₁ w₂ : World P} {l pt}, Reached t role tr₀ w₁ → Step w₁ l w₂ →
      RestOk p post w₁ l → (∀ o r, l ≠ .exec p o r) → w₂.db.session p = w₁.db.session p →
      I tr₁ w₁.db pt → I (l :: tr₁) w₂.db pt)
    (own : ∀ {tr₀ tr₁ : List (Event P)} {w₁ : World P} {pt o k r db'}, Reached t role tr₀ w₁ →
      w₁.procs p = .worker W pt → pt.node W = .op o k → Exec w₁.db p o r db' →
      RestOk p post w₁ (.exec p o r) →
      I tr₁ w₁.db pt → I (.exec p o r :: tr₁) db' (k r))
    (h' : Run (Guarded Step (RestOk p post)) w tr' w') :
    ∃ pt', w'.procs p = .worker W pt' ∧ I tr' w'.db pt' := by
  refine Run.invariant (I := fun tr' w' => ∃ pt', w'.procs p = .worker W pt' ∧ I tr' w'.db pt') ⟨pt, hp, init⟩ ?_ h'
  rintro tr₁ w₁ l w₂ hrun ⟨pt₁, hp₁, hI⟩ ⟨hs, hok⟩
  have hreach := Run.append h hrun.forget
  cases Reached.fate hreach hs p with
  | other hl hproc hsess _ => exact ⟨pt₁, hproc.trans hp₁, other hreach hs hok hl hsess hI⟩
  | died hl hproc hsess _ =>
    exact ⟨pt₁, hproc.trans hp₁, other hreach hs hok (fun o r he => by cases hl ▸ he) hsess hI⟩
  | aborted hl => exact absurd hl hok.opened
  | call a pt' o k r _ hproc => rw [hp₁] at hproc; cases hproc
  | worker W' pt' o k r hl _ _ hproc hn hx hnext =>
    rw [hp₁] at hproc
    cases hproc
    subst hl
    exact ⟨k r, hnext, own hreach hp₁ hn hx hok hI⟩

theorem onward_of_run (h : Reached t role tr w) (hp : w.procs p = .worker W (.nextEvent polls post))
    (hu : (w.db.session p).Usable) (h' : Run (Guarded Step (RestOk p post)) w tr' w') :
    ∃ pt, w'.procs p = .worker W pt ∧
    ∃ done sent rest, Onward p polls post tr' w'.db pt done sent rest := by
  have hnd := h.held_nodup hp
  rw [WorkerPoint.held_nextEvent] at hnd
  refine rest_invariant
    (I := fun tr db pt => ∃ done sent rest, Onward p polls post tr db pt done sent rest) h hp ?_ ?_ ?_ h'
  · exact ⟨[], none, post, .next post, rfl, hu, nofun, nofun, fun _ _ => rfl⟩
  · rintro tr₀ tr₁ w₁ w₂ l pt hreach hs hok hl hsess ⟨done, sent, rest, hI⟩
    refine ⟨done, sent, rest, hI.point, hI.split, hsess ▸ hI.usable, fun event hev => ?_, fun event hev => ?_,
      fun event hev => ?_⟩
    · have hmem : event ∈ post := hI.split ▸ List.mem_append_left _ hev
      exact hok.statusOf hreach hs hl hmem (hI.processed event hev)
    · rw [publishCallsBy_other hl]; exact hI.once event hev
    · rw [publishCallsBy_other hl]; exact hI.unsent event hev
  · rintro tr₀ tr₁ w₁ pt o k r db' hreach hp₁ hn hx hok ⟨done, sent, rest, hI⟩
    exact hI.step hreach hp₁ hn hx hok hnd

theorem stuck_of_run (h : Reached t role tr w) (hp : w.procs p = .worker W (.nextEvent polls post))
    (ha : w.db.session p = .aborted) (h' : Run (Guarded Step (RestOk p post)) w tr' w') :
    ∃ pt, w'.procs p = .worker W pt ∧
    ∃ done cur rest, Stuck p polls post tr' w'.db pt done cur rest := by
  refine rest_invariant
    (I := fun tr db pt => ∃ done cur rest, Stuck p polls post tr db pt done cur rest) h hp ?_ ?_ ?_ h'
  · obtain ⟨cur, rest, hpt, hsplit, hcur⟩ := WorkerPoint.Stuck.nextEvent polls post
    refine ⟨[], cur, rest, hpt, hsplit.symm, ha, nofun, fun event n he => ?_⟩
    rw [hcur event n he]; exact Nat.zero_le _
  · rintro tr₀ tr₁ w₁ w₂ l pt hreach hs hok hl hsess ⟨done, cur, rest, hI⟩
    refine ⟨done, cur, rest, hI.point, hI.split, hsess.trans hI.aborted, fun event hev => ?_,
      fun event n hcur => ?_⟩
    · exact (hI.tried event hev).trans (publishCallsBy_le _ _ _)
    · exact (hI.trying event n hcur).trans (publishCallsBy_le _ _ _)
  · rintro tr₀ tr₁ w₁ pt o k r db' hreach hp₁ hn hx hok ⟨done, cur, rest, hI⟩
    exact hI.step hn hx hok

/-- **When a failure does not spread.** If everything goes well from an event on, each later
event of the batch is published once and `processed` exactly when that event has left no
aborted transaction behind. -/
theorem rest_of_batch (h : Reached t role tr w) (hp : w.procs p = .worker W (.nextEvent polls post))
    (h' : Run (Guarded Step (RestOk p post)) w tr' w') (hend : w'.procs p = .worker W (.close polls)) :
    (∀ event ∈ post, w'.db.committed.statusOf event.id = some .processed ∧
      publishCallsBy p event.id tr' = 1) ↔ post = [] ∨ (w.db.session p).Usable := by
  constructor
  · intro hall
    by_contra hno
    push Not at hno
    obtain ⟨hpost, hu⟩ := hno
    -- in an aborted transaction the first event is published three times
    obtain ⟨pt, hp', done, cur, rest, hI⟩ := stuck_of_run h hp (aborted_of_not_usable hu) h'
    rw [hend] at hp'
    cases hp'
    obtain ⟨event, hev⟩ := List.exists_mem_of_ne_nil post hpost
    have hsplit := hI.split
    cases hI.point
    have hdone : event ∈ done := by rw [hsplit] at hev; simpa using hev
    have htried := hI.tried event hdone
    have hone := (hall event hev).2
    have : maxRetries = 3 := rfl
    omega
  · rintro (rfl | hu) event hev
    · cases hev
    · obtain ⟨pt, hp', done, sent, rest, hI⟩ := onward_of_run h hp hu h'
      rw [hend] at hp'
      cases hp'
      obtain ⟨rfl, rfl⟩ := hI.point.close rfl
      have hdone : event ∈ done := by
        have hsplit := hI.split
        rw [hsplit] at hev; simpa using hev
      exact ⟨hI.processed event hdone, hI.once event (List.mem_append_left _ hdone)⟩

omit [DecidableEq P] in
/-- A step of the only party that raises nothing, and does not end the batch. -/
theorem restOk_of_ok [Subsingleton P] {o : Op} {v : Op.Resp o} (ho : o ≠ .close) :
    RestOk p post w (.exec p o (.ok v)) where
  within r he := ho (Event.exec.inj he).2.1
  published event body r he := by cases he; rfl
  healthy o e he := by cases he
  opened he := by cases he
  others q r e status hq := absurd (Subsingleton.elim _ _) hq

omit [DecidableEq P] in
/-- A statement of the only party that fails because its transaction is aborted. -/
theorem restOk_of_aborted [Subsingleton P] {o : Op} (ho : o.isStatement)
    (ha : w.db.session p = .aborted) :
    RestOk p post w (.exec p o (.error .databaseError)) where
  within r he := by
    obtain rfl := (Event.exec.inj he).2.1
    cases ho
  published event body r he := by
    obtain rfl := (Event.exec.inj he).2.1
    cases ho
  healthy o e he _ := by cases he; exact not_usable_of_aborted ha
  opened he := by cases he
  others q r e status hq := absurd (Subsingleton.elim _ _) hq

def thirdEvent : OutboxEventModel :=
  backlogEvent "ORD-2024-003" (sampleUuid 4) (sampleUuid 5) (sampleTime 2)

/-- The backlog with a third order. -/
def longBacklog : ValidTables where
  val :=
    { orders := backlog.1.orders ++ [backlogOrder "ORD-2024-003" (sampleUuid 4) (sampleTime 2)]
      outboxEvents := [firstEvent, secondEvent, thirdEvent] }
  property := by decide

/-- The first mark of the second event gets no connection: the third event is published once. -/
theorem rest_of_batch_sample :
    ∃ tr w tr' w', Reached longBacklog (fun _ : Unit => .worker ⟨3, 5⟩ 1) tr w ∧
    .exec () (.updateStatus secondEvent.id .processed) (.error .databaseError) ∈ tr ∧
    w.procs () = .worker ⟨3, 5⟩ (.nextEvent 0 [thirdEvent.toEntity]) ∧
    Run (Guarded Step (RestOk () [thirdEvent.toEntity])) w tr' w' ∧
    w'.db.committed.statusOf thirdEvent.id = some .processed ∧
    publishCallsBy () thirdEvent.id tr' = 1 := by
  have h0 : Reached longBacklog (fun _ : Unit => .worker ⟨3, 5⟩ 1) [] _ := .init
  have h1 := h0.step (.worker (p := ()) trivial rfl rfl (.selectPending 3 [firstEvent, secondEvent, thirdEvent]
    trivial (fetched_of_unlocked (fun _ _ hq => absurd rfl hq) (by decide) (by decide))))
  have h2 := h1.step (.worker (p := ()) trivial rfl rfl (.published _ _))
  have h3 := h2.step (.worker (p := ()) trivial rfl rfl (.updateStatus _ _ trivial ⟨_, .head _, rfl⟩
    fun _ hq => absurd rfl hq))
  have h4 := h3.step (.worker (p := ()) trivial rfl rfl (.commit trivial))
  have h5 := h4.step (.worker (p := ()) trivial rfl rfl (.inc _))
  have h6 := h5.step (.worker (p := ()) trivial rfl rfl (.published _ _))
  -- the commit of the first event has ended the transaction of the fetch
  have h7 := h6.step (.worker (p := ()) trivial rfl rfl (.failed rfl (.noConnection nofun)))
  have h8 := h7.step (.worker (p := ()) trivial rfl rfl (.sleep _))
  have h9 := h8.step (.worker (p := ()) trivial rfl rfl (.published _ _))
  have h10 := h9.step (.worker (p := ()) trivial rfl rfl (.updateStatus _ _ trivial
    ⟨_, .tail _ (.head _), rfl⟩ fun _ hq => absurd rfl hq))
  have h11 := h10.step (.worker (p := ()) trivial rfl rfl (.commit trivial))
  have h12 := h11.step (.worker (p := ()) trivial rfl rfl (.inc _))
  have k0 := h12.under (RestOk () [thirdEvent.toEntity])
  have k1 := k0.step ⟨.worker (p := ()) trivial rfl rfl (.published _ _), restOk_of_ok nofun⟩
  have k2 := k1.step ⟨.worker (p := ()) trivial rfl rfl (.updateStatus _ _ trivial
    ⟨_, .tail _ (.tail _ (.head _)), rfl⟩ fun _ hq => absurd rfl hq), restOk_of_ok nofun⟩
  have k3 := k2.step ⟨.worker (p := ()) trivial rfl rfl (.commit trivial), restOk_of_ok nofun⟩
  have k4 := k3.step ⟨.worker (p := ()) trivial rfl rfl (.inc _), restOk_of_ok nofun⟩
  obtain ⟨hst, hcalls⟩ := (rest_of_batch h12 rfl k4 rfl).2 (.inr trivial) _ List.mem_cons_self
  exact ⟨_, _, _, _, h12, .tail _ (.tail _ (.tail _ (.tail _ (.tail _ (.head _))))), rfl, k4, hst, hcalls⟩

/-- The mark of the first event fails in the transaction of the fetch: the second event is
published three times, and is still `pending` at the end of the batch. -/
theorem rest_of_batch_spoiled : ∃ tr w tr' w', Reached backlog (fun _ : Unit => .worker ⟨2, 5⟩ 1) tr w ∧
    w.procs () = .worker ⟨2, 5⟩ (.nextEvent 0 [secondEvent.toEntity]) ∧
    Run (Guarded Step (RestOk () [secondEvent.toEntity])) w tr' w' ∧
    w'.procs () = .worker ⟨2, 5⟩ (.close 0) ∧
    w'.db.committed.statusOf secondEvent.id = some .pending ∧
    publishCallsBy () secondEvent.id tr' = 3 := by
  have h0 : Reached backlog (fun _ : Unit => .worker ⟨2, 5⟩ 1) [] _ := .init
  have h1 := h0.step (.worker (p := ()) trivial rfl rfl (.selectPending 2 [firstEvent, secondEvent] trivial
    (fetched_of_unlocked (fun _ _ hq => absurd rfl hq) (by decide) (by decide))))
  have h2 := h1.step (.worker (p := ()) trivial rfl rfl (.published _ _))
  have h3 := h2.step (.worker (p := ()) trivial rfl rfl (.failed rfl .aborted))
  have h4 := h3.step (.worker (p := ()) trivial rfl rfl (.sleep _))
  have h5 := h4.step (.worker (p := ()) trivial rfl rfl (.published _ _))
  have h6 := h5.step (.worker (p := ()) trivial rfl rfl (.failed rfl .aborted))
  have h7 := h6.step (.worker (p := ()) trivial rfl rfl (.sleep _))
  have h8 := h7.step (.worker (p := ()) trivial rfl rfl (.published _ _))
  have h9 := h8.step (.worker (p := ()) trivial rfl rfl (.failed rfl .aborted))
  have h10 := h9.step (.worker (p := ()) trivial rfl rfl (.failed rfl .aborted))
  have h11 := h10.step (.worker (p := ()) trivial rfl rfl (.inc _))
  -- from here on everything goes well, as far as the aborted transaction lets it
  have k0 := h11.under (RestOk () [secondEvent.toEntity])
  have k1 := k0.step ⟨.worker (p := ()) trivial rfl rfl (.published _ _), restOk_of_ok nofun⟩
  have k2 := k1.step ⟨.worker (p := ()) trivial rfl rfl (.failed rfl .aborted), restOk_of_aborted rfl rfl⟩
  have k3 := k2.step ⟨.worker (p := ()) trivial rfl rfl (.sleep _), restOk_of_ok nofun⟩
  have k4 := k3.step ⟨.worker (p := ()) trivial rfl rfl (.published _ _), restOk_of_ok nofun⟩
  have k5 := k4.step ⟨.worker (p := ()) trivial rfl rfl (.failed rfl .aborted), restOk_of_aborted rfl rfl⟩
  have k6 := k5.step ⟨.worker (p := ()) trivial rfl rfl (.sleep _), restOk_of_ok nofun⟩
  have k7 := k6.step ⟨.worker (p := ()) trivial rfl rfl (.published _ _), restOk_of_ok nofun⟩
  have k8 := k7.step ⟨.worker (p := ()) trivial rfl rfl (.failed rfl .aborted), restOk_of_aborted rfl rfl⟩
  have k9 := k8.step ⟨.worker (p := ()) trivial rfl rfl (.failed rfl .aborted), restOk_of_aborted rfl rfl⟩
  have k10 := k9.step ⟨.worker (p := ()) trivial rfl rfl (.inc _), restOk_of_ok nofun⟩
  exact ⟨_, _, _, _, h11, rfl, k10, rfl, rfl, rfl⟩

end Reach

end OrdersApi
