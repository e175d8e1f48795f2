import McpCli.Daemon.Serve

/-! When the daemons of one socket path leave each other's socket file alone. -/

namespace McpCli

open Transition

namespace SocketRun

/-- A step of a daemon, from the phase in which it is possible. -/
inductive ServeStep (s : SocketRun) (id : Nat) : ServeAction → ServePhase → SocketRun → Prop where
  /-- It looks for a file, finds that the path is taken or the file gone, or dies. -/
  | quiet {what old} (phase : ServePhase) (listens : phase.isLive = false)
      (spares : what ≠ .cleanUp) (absent : what = .remove → s.file = none) :
      ServeStep s id what old (s.move id phase)
  | remove (there : s.file.isSome) : ServeStep s id .remove .removing
      { s.move id .binding with file := none }
  | bind (absent : s.file = none) : ServeStep s id .bind .binding
      { s.move id .accepting with file := some id }
  | shutDown : ServeStep s id .shutDown .accepting (s.move id .closing)
  | cleanUp : ServeStep s id .cleanUp .closing { s.move id .gone with file := none }

/-- A daemon takes no other steps. -/
theorem serveStep_spec {s next : SocketRun} {id : Nat} {what : ServeAction} {old : ServePhase}
    (taken : s.serveStep id what old = some next) : s.ServeStep id what old next := by
  -- The rows of the table that look at the file have two outcomes each.
  unfold serveStep at taken
  split at taken
  · cases taken
    refine .quiet _ ?_ (fun same => by cases same) (fun same => by cases same)
    split <;> rfl
  · split at taken
    · rename_i there
      cases taken
      exact .remove there
    · rename_i absent
      cases taken
      exact .quiet .gone rfl (fun same => by cases same) (fun _ => by simpa using absent)
  · split at taken
    · cases taken
      exact .quiet .gone rfl (fun same => by cases same) (fun same => by cases same)
    · rename_i absent
      cases taken
      exact .bind (by simpa using absent)
  · cases taken
    exact .shutDown
  · cases taken
    exact .cleanUp
  · cases taken
  · cases taken
    exact .quiet .gone rfl (fun same => by cases same) (fun same => by cases same)
  · cases taken

/-- A step, by who takes it. -/
inductive Step (s : SocketRun) : Action → SocketRun → Prop where
  | spawn : Step s .spawn { s with daemons := s.daemons ++ [.starting] }
  | daemon {id what old next} (here : s.daemons[id]? = some old)
      (moved : s.ServeStep id what old next) : Step s (.daemon id what) next

/-- Nothing else happens. -/
theorem step_spec {s next : SocketRun} {action : Action} (taken : s.step action = some next) :
    s.Step action next := by
  -- A daemon is started, or one of those that run takes a step of its own.
  cases action with
  | spawn =>
    cases taken
    exact .spawn
  | daemon id what =>
    simp only [step, Option.bind_eq_some_iff] at taken
    obtain ⟨old, here, taken⟩ := taken
    exact .daemon here (serveStep_spec taken)

/-- The daemon that bound the socket file has stopped running. -/
def Stale (s : SocketRun) : Prop :=
  ∀ (owner : Nat) (phase : ServePhase), s.file = some owner →
    s.daemons[owner]? = some phase → phase.isLive = false

/-- A starting daemon removes a socket file only when it is stale. -/
def RemovesStale (s : SocketRun) : Action → Prop
  | .daemon _ .remove => s.Stale
  | _ => True

/-- A daemon that removes the socket file takes it from no other daemon that still runs. -/
def SparesOthers (s : SocketRun) (action : Action) : Prop :=
  ∀ (id : Nat), action = .daemon id .remove ∨ action = .daemon id .cleanUp →
    ∀ (owner : Nat) (phase : ServePhase), owner ≠ id → s.file = some owner →
      s.daemons[owner]? = some phase → phase.isLive = false

/-- No two daemons accept bridges at a time. -/
def OneLive (s : SocketRun) : Prop :=
  ∀ (one other : Nat) (phase phase' : ServePhase), s.daemons[one]? = some phase →
    s.daemons[other]? = some phase' → phase.isLive = true → phase'.isLive = true → one = other

/-- Every daemon that runs has the socket file. -/
def HasFile (s : SocketRun) : Prop :=
  ∀ (id : Nat) (phase : ServePhase), s.daemons[id]? = some phase → phase.isLive = true →
    s.file = some id

/-- Two daemons that have the socket file are one. -/
theorem HasFile.oneLive {s : SocketRun} (has : s.HasFile) : s.OneLive := by
  intro one other phase phase' here there live live'
  -- The file was bound by both of them.
  have same := (has one phase here live).symm.trans (has other phase' there live')
  exact Option.some.inj same

/-- As long as only stale files are removed at startup, running daemons keep their file. -/
theorem HasFile.step {s next : SocketRun} {action : Action} (has : s.HasFile)
    (stale : s.RemovesStale action) (taken : s.step action = some next) : next.HasFile := by
  cases step_spec taken with
  | spawn =>
    -- A newcomer has no listener yet.
    intro id phase found live
    rcases Population.joined found with ⟨_, rfl⟩ | ⟨_, found⟩
    · cases live
    · exact has id phase found live
  | @daemon id what old next here moved =>
    cases moved with
    | quiet phase' listens =>
      intro other phase found live
      rcases Population.moved found with ⟨_, rfl⟩ | ⟨_, found⟩
      · rw [listens] at live
        cases live
      · exact has other phase found live
    | remove there =>
      -- Whoever runs has the file, which is stale, so nobody runs.
      intro other phase found live
      rcases Population.moved found with ⟨_, rfl⟩ | ⟨_, found⟩
      · cases live
      · rw [stale other phase (has other phase found live) found] at live
        cases live
    | bind absent =>
      -- Without a file nobody else runs.
      intro other phase found live
      rcases Population.moved found with ⟨rfl, _⟩ | ⟨_, found⟩
      · rfl
      · have bound := has other phase found live
        rw [absent] at bound
        cases bound
    | shutDown =>
      -- Leaving the loop does not touch the file.
      intro other phase found live
      rcases Population.moved found with ⟨rfl, _⟩ | ⟨_, found⟩
      · exact has other .accepting here rfl
      · exact has other phase found live
    | cleanUp =>
      -- The closing daemon has the file, so nobody else runs.
      intro other phase found live
      rcases Population.moved found with ⟨_, rfl⟩ | ⟨apart, found⟩
      · cases live
      · exact absurd (has.oneLive other id phase .closing found here live rfl) apart

/-- A daemon that shuts down removes its own file, as long as startups remove stale ones only. -/
theorem HasFile.spares {s next : SocketRun} {action : Action} (has : s.HasFile)
    (stale : s.RemovesStale action) (taken : s.step action = some next) :
    s.SparesOthers action := by
  intro id removes owner phase apart bound found
  rcases removes with rfl | rfl
  · exact stale owner phase bound found
  · -- The step is taken from the closing phase, in which the daemon has the file itself.
    cases step_spec taken with
    | daemon here moved =>
      cases moved with
      | quiet _ _ spares => exact absurd rfl spares
      | cleanUp =>
        have own := has id .closing here rfl
        rw [bound] at own
        exact absurd (Option.some.inj own) apart

/-- A removal at startup that spares the other daemons finds a stale file. -/
theorem SparesOthers.removesStale {s next : SocketRun} {action : Action}
    (spares : s.SparesOthers action) (taken : s.step action = some next) :
    s.RemovesStale action := by
  cases step_spec taken with
  | spawn => trivial
  | @daemon id what old next here moved =>
    cases what with
    | remove =>
      intro owner phase bound found
      by_cases own : owner = id
      · -- The starting daemon itself has no listener.
        subst own
        rw [here] at found
        cases found
        cases moved with
        | quiet _ _ _ absent =>
          rw [absent rfl] at bound
          cases bound
        | remove there => rfl
      · exact spares id (Or.inl rfl) owner phase own bound found
    | _ => trivial

/--
In every run, no daemon removes the socket file of another one that still runs and no two accept
bridges at a time, exactly if every removal at startup finds a stale file.
-/
theorem sparesOthers_oneLive_iff (actions : List Action) :
    (Along SocketRun.step SparesOthers start actions ∧
        Visits SocketRun.step OneLive start actions) ↔
      Along SocketRun.step RemovesStale start actions := by
  constructor
  · intro safe
    exact safe.1.mono fun s action next taken spares => spares.removesStale taken
  · intro stale
    -- A stale file has no owner that runs, so each running daemon keeps its own file.
    have kept := visits_of_invariant HasFile
      (fun s action next has stale taken => has.step stale taken)
      (fun _ _ found => by simp [start] at found) stale
    exact ⟨kept.strengthen stale fun s action next has stale taken => has.spares stale taken,
      kept.mono fun s has => has.oneLive⟩

/-- A second daemon finds the socket of a running one, removes it and binds its own. -/
theorem second_daemon_takes_socket :
    ∃ s, run SocketRun.step start
        [.spawn, .daemon 0 .look, .daemon 0 .bind, .spawn, .daemon 1 .look, .daemon 1 .remove,
          .daemon 1 .bind] = some s ∧
      s.file = some 1 ∧ s.daemons = [.accepting, .accepting] :=
  ⟨_, rfl, rfl, rfl⟩

end SocketRun

end McpCli
