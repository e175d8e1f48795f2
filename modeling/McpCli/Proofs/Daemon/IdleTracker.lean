import McpCli.Daemon.IdleTracker

/-! When an open connection keeps the daemon alive, and when an idle daemon is sure to exit. -/

namespace McpCli

open Transition

namespace ConnPhase

/-- The connection is one of those that `active` counts. -/
def isCounted : ConnPhase → Bool
  -- A panic skips `on_disconnect`, so nothing takes an unwound connection off the count.
  | .counted | .cleared | .serving | .panicked => true
  | .last _ | .stamped | .ended => false

/-- The connection has completed both steps of `on_connect` and not begun `on_disconnect`. -/
def isOpen : ConnPhase → Bool
  | .cleared | .serving => true
  | _ => false

/-- The connection will still come to an `on_disconnect` that can set the timestamp. -/
def mayStamp : ConnPhase → Bool
  | .counted | .cleared | .serving | .last _ => true
  | .stamped | .ended | .panicked => false

/-- The connection still has steps to take. -/
def isLive : ConnPhase → Bool
  | .ended | .panicked => false
  | _ => true

end ConnPhase

namespace IdleRun

/-- A step of a connection, from the phase in which it is possible. -/
inductive ConnStep (s : IdleRun) (id : Nat) : ConnAction → ConnPhase → IdleRun → Prop where
  | clear : ConnStep s id .clear .counted
      { s.move id .cleared with tracker := s.tracker.clear }
  | announce : ConnStep s id .announce .cleared
      { s.move id .serving with waiter := s.waiter.notify }
  | unwind : ConnStep s id .unwind .serving (s.move id .panicked)
  /-- The last connection is uncounted, and marked. -/
  | last (single : s.tracker.active = 1) : ConnStep s id .subtract .serving
      { s.move id (.last s.conns.length) with tracker := s.tracker.fetchSub.2 }
  | uncount (several : s.tracker.active ≠ 1) : ConnStep s id .subtract .serving
      { s.move id .ended with tracker := s.tracker.fetchSub.2 }
  | stamp (accepted : Nat) : ConnStep s id .stamp (.last accepted)
      { s.move id .stamped with tracker := s.tracker.stamp s.now }
  | signal : ConnStep s id .signal .stamped
      { s.move id .ended with waiter := s.waiter.notify }

/-- A connection takes no other steps. -/
theorem connStep_spec {s next : IdleRun} {id : Nat} {what : ConnAction} {old : ConnPhase}
    (taken : s.connStep id what old = some next) : s.ConnStep id what old next := by
  -- Each kind of step is possible in one phase only, and only uncounting has a choice.
  unfold connStep at taken
  split at taken
  · cases taken
    exact .clear
  · cases taken
    exact .announce
  · cases taken
    exact .unwind
  · have same : next = { s.move id (if s.tracker.active = 1 then .last s.conns.length else .ended)
        with tracker := s.tracker.fetchSub.2 } := by
      cases taken
      rfl
    by_cases single : s.tracker.active = 1
    · rw [same, if_pos single]
      exact .last single
    · rw [same, if_neg single]
      exact .uncount single
  · cases taken
    exact .stamp _
  · cases taken
    exact .signal
  · cases taken

/-- A step of the daemon, by who takes it. -/
inductive Step (s : IdleRun) : Action → IdleRun → Prop where
  | accept : Step s .accept
      { s with conns := s.conns ++ [.counted], tracker := s.tracker.fetchAdd }
  | conn {id what old next} (here : s.conns[id]? = some old)
      (moved : s.ConnStep id what old next) : Step s (.conn id what) next
  | waiter {what waiter} (moved : s.waiterStep what s.waiter = some waiter) :
      Step s (.waiter what) { s with waiter }
  | tick : Step s .tick { s with now := s.now + 1 }

/-- The daemon takes no other steps. -/
theorem step_spec {s next : IdleRun} {action : Action} (taken : s.step action = some next) :
    s.Step action next := by
  -- Connections and the waiter take steps of their own.
  cases action with
  | accept =>
    cases taken
    exact .accept
  | conn id what =>
    simp only [step, Option.bind_eq_some_iff] at taken
    obtain ⟨old, here, taken⟩ := taken
    exact .conn here (connStep_spec taken)
  | waiter what =>
    simp only [step, Option.map_eq_some_iff] at taken
    obtain ⟨waiter, moved, same⟩ := taken
    subst same
    exact .waiter moved
  | tick =>
    cases taken
    exact .tick

/-- What the count and the marks of the last connections say about all connections. -/
structure Counted (s : IdleRun) : Prop where
  active : s.tracker.active = s.conns.countP ConnPhase.isCounted
  /-- Connections accepted before the last one was uncounted are uncounted as well. -/
  last : ∀ (id accepted : Nat), s.conns[id]? = some (ConnPhase.last accepted) →
    accepted ≤ s.conns.length ∧ ∀ (other : Nat) (phase : ConnPhase), other < accepted →
      s.conns[other]? = some phase → phase.isCounted = false

/-- A fresh daemon has counted nothing. -/
theorem start_counted (timeout : Option Nat) : (start timeout).Counted :=
  ⟨rfl, fun _ _ found => by simp [start] at found⟩

/-- A connection that moves keeps the count right, and is marked last only at the count of one. -/
theorem connStep_count {s next : IdleRun} {id : Nat} {what : ConnAction} {old : ConnPhase}
    (counted : s.Counted) (here : s.conns[id]? = some old) (taken : s.ConnStep id what old next) :
    ∃ phase, next.conns = s.conns.set id phase ∧
      next.tracker.active = next.conns.countP ConnPhase.isCounted ∧
      (phase.isCounted = true → old.isCounted = true) ∧
      ∀ accepted, phase = .last accepted →
        accepted = s.conns.length ∧ next.tracker.active = 0 := by
  -- A move takes at most its own connection off the count.
  have alike : ∀ phase, phase.isCounted = old.isCounted →
      s.tracker.active = (s.conns.set id phase).countP ConnPhase.isCounted :=
    fun phase same => counted.active.trans (Population.countP_moved_alike here same).symm
  have off : ∀ phase, old.isCounted = true → phase.isCounted = false →
      s.tracker.active - 1 = (s.conns.set id phase).countP ConnPhase.isCounted := by
    intro phase on off
    have fewer := Population.countP_moved_off here on off
    rw [counted.active]
    omega
  cases taken with
  | clear => exact ⟨.cleared, rfl, alike .cleared rfl, fun _ => rfl, fun _ same => by cases same⟩
  | announce =>
    exact ⟨.serving, rfl, alike .serving rfl, fun _ => rfl, fun _ same => by cases same⟩
  | unwind =>
    exact ⟨.panicked, rfl, alike .panicked rfl, fun _ => rfl, fun _ same => by cases same⟩
  | last single =>
    refine ⟨.last s.conns.length, rfl, off (.last s.conns.length) rfl rfl, fun _ => rfl, ?_⟩
    intro accepted same
    cases same
    exact ⟨rfl, by simp [IdleTracker.fetchSub, single]⟩
  | uncount several =>
    exact ⟨.ended, rfl, off .ended rfl rfl, fun _ => rfl, fun _ same => by cases same⟩
  | stamp accepted =>
    exact ⟨.stamped, rfl, alike .stamped rfl, (fun counts => by cases counts),
      fun _ same => by cases same⟩
  | signal =>
    exact ⟨.ended, rfl, alike .ended rfl, (fun counts => by cases counts),
      fun _ same => by cases same⟩

/-- The count and the marks stay right. -/
theorem Counted.step {s next : IdleRun} {action : Action} (counted : s.Counted)
    (taken : s.step action = some next) : next.Counted := by
  cases step_spec taken with
  | accept =>
    -- A newcomer is counted, behind all marks.
    refine ⟨by simp [IdleTracker.fetchAdd, counted.active, ConnPhase.isCounted], ?_⟩
    intro id accepted found
    rcases Population.joined found with ⟨_, same⟩ | ⟨_, found⟩
    · cases same
    · obtain ⟨bound, before⟩ := counted.last id accepted found
      refine ⟨by simp; omega, ?_⟩
      intro other phase below there
      rcases Population.joined there with ⟨same, _⟩ | ⟨_, there⟩
      · omega
      · exact before other phase below there
  | @conn id what old next here moved =>
    obtain ⟨phase, conns, active, falls, marked⟩ := connStep_count counted here moved
    refine ⟨active, ?_⟩
    intro id' accepted found
    rw [conns] at found ⊢
    rcases Population.moved found with ⟨_, same⟩ | ⟨_, found⟩
    · -- A fresh mark is set when nothing is counted any more.
      obtain ⟨all, zero⟩ := marked accepted same.symm
      refine ⟨by simp [all], ?_⟩
      intro other phase' _ there
      exact Population.not_counted (by rw [← conns, ← active, zero]) there
    · obtain ⟨bound, before⟩ := counted.last id' accepted found
      refine ⟨by simpa using bound, ?_⟩
      intro other phase' below there
      rcases Population.moved there with ⟨same, rfl⟩ | ⟨_, there⟩
      · -- The connection that moved was uncounted before, and no move counts it again.
        subst same
        cases now : phase'.isCounted with
        | false => rfl
        | true => rw [← before _ old below here, falls now]
      · exact before other phase' below there
  | waiter moved => exact ⟨counted.active, counted.last⟩
  | tick => exact ⟨counted.active, counted.last⟩

/-- An open connection keeps the timestamp empty, and the waiter from returning at its next look. -/
def StaysWhileOpen (s : IdleRun) : Prop :=
  ∀ (id : Nat) (phase : ConnPhase), s.conns[id]? = some phase → phase.isOpen = true →
    s.tracker.lastIdleAt = none ∧
      ∀ next, s.step (.waiter .check) = some next → next.waiter ≠ .returned

/-- An open connection keeps the timestamp empty. -/
def ClearWhileOpen (s : IdleRun) : Prop :=
  ∀ (id : Nat) (phase : ConnPhase), s.conns[id]? = some phase → phase.isOpen = true →
    s.tracker.lastIdleAt = none

/-- A waiter that finds no timestamp does not return. -/
theorem ClearWhileOpen.stays {s : IdleRun} (clear : s.ClearWhileOpen) : s.StaysWhileOpen := by
  intro id phase found isOpen
  have empty := clear id phase found isOpen
  refine ⟨empty, ?_⟩
  intro next taken
  simp only [step, Option.map_eq_some_iff] at taken
  obtain ⟨waiter, moved, taken⟩ := taken
  subst taken
  -- The waiter leaves only by a check that finds the timestamp set.
  cases here : s.waiter with
  | checking =>
    simp only [waiterStep, here, Option.map_eq_some_iff] at moved
    obtain ⟨timeout, _, moved⟩ := moved
    simp [← moved, look, empty]
  | _ => simp [waiterStep, here] at moved

/--
The timestamp is set only while no connection is open that was accepted after the disconnecting
one had been uncounted.
-/
def StampsInOrder (s : IdleRun) : Action → Prop
  | .conn id .stamp => ∀ (accepted later : Nat) (phase : ConnPhase),
      s.conns[id]? = some (.last accepted) → accepted ≤ later →
      s.conns[later]? = some phase → phase.isOpen = false
  | _ => True

/-- Timestamps set in order never meet an open connection. -/
theorem ClearWhileOpen.step {s next : IdleRun} {action : Action} (clear : s.ClearWhileOpen)
    (counted : s.Counted) (ordered : s.StampsInOrder action) (taken : s.step action = some next) :
    next.ClearWhileOpen := by
  cases step_spec taken with
  | accept =>
    intro id phase found isOpen
    rcases Population.joined found with ⟨_, rfl⟩ | ⟨_, found⟩
    · cases isOpen
    · exact clear id phase found isOpen
  | @conn id what old next here moved =>
    -- A move into an open phase keeps the timestamp, unless it has just been cleared.
    have kept : ∀ next' : IdleRun, ∀ phase', next'.conns = s.conns.set id phase' →
        next'.tracker.lastIdleAt = s.tracker.lastIdleAt →
        (phase'.isOpen = true → old.isOpen = true) → next'.ClearWhileOpen := by
      intro next' phase' conns same opens id' phase found isOpen
      rw [conns] at found
      rw [same]
      rcases Population.moved found with ⟨_, rfl⟩ | ⟨_, found⟩
      · exact clear id old here (opens isOpen)
      · exact clear id' phase found isOpen
    cases moved with
    | clear => exact fun _ _ _ _ => rfl
    | announce => exact kept _ .serving rfl rfl fun _ => rfl
    | unwind => exact kept _ .panicked rfl rfl fun opens => by cases opens
    | last single => exact kept _ (.last s.conns.length) rfl rfl fun opens => by cases opens
    | uncount several => exact kept _ .ended rfl rfl fun opens => by cases opens
    | stamp accepted =>
      -- Nothing is open: not before the mark by the count, nor behind it by the guard.
      intro later phase found isOpen
      rcases Population.moved found with ⟨_, rfl⟩ | ⟨_, found⟩
      · cases isOpen
      · have closed : phase.isOpen = false := by
          by_cases old : later < accepted
          · have off := (counted.last id accepted here).2 later phase old found
            cases phase <;> simp_all [ConnPhase.isOpen, ConnPhase.isCounted]
          · exact ordered accepted later phase here (by omega) found
        rw [closed] at isOpen
        cases isOpen
    | signal => exact kept _ .ended rfl rfl fun opens => by cases opens
  | waiter moved => exact clear
  | tick => exact clear

/-- A timestamp set against the order meets an open connection. -/
theorem StampsInOrder.of_clear {s next : IdleRun} {action : Action}
    (taken : s.step action = some next) (stays : next.StaysWhileOpen) :
    s.StampsInOrder action := by
  cases step_spec taken with
  | @conn id what old next here moved =>
    cases moved with
    | stamp marked =>
      intro accepted later phase own _ found
      by_cases same : later = id
      · -- The disconnecting connection itself is not open.
        subst same
        rw [own] at found
        cases found
        rfl
      · cases opened : phase.isOpen with
        | false => rfl
        | true =>
          have empty := (stays later phase (Population.moved_other found same) opened).1
          cases empty
    | _ => trivial
  | _ => trivial

/--
In every run, an open connection keeps the timestamp empty and the daemon from exiting, exactly
if every timestamp is set in order.
-/
theorem stays_while_open_iff (timeout : Option Nat) (actions : List Action) :
    Visits IdleRun.step StaysWhileOpen (start timeout) actions ↔
      Along IdleRun.step StampsInOrder (start timeout) actions := by
  constructor
  · intro visits
    exact visits.along fun s action next taken stays => StampsInOrder.of_clear taken stays
  · intro ordered
    -- Stamps in order keep the timestamp empty while a connection is open.
    have kept := visits_of_invariant (fun s => s.Counted ∧ s.ClearWhileOpen)
      (fun s action next inv ordered taken =>
        ⟨inv.1.step taken, inv.2.step inv.1 ordered taken⟩)
      ⟨start_counted timeout, fun _ _ found => by simp [start] at found⟩ ordered
    exact kept.mono fun s inv => inv.2.stays

/--
A connection is accepted between the two steps of another one's `on_disconnect`. Its late
timestamp stays, and the daemon exits under the open connection.
-/
theorem late_stamp_ends_open_connection :
    ∃ s, run IdleRun.step (start (some 1))
        [.accept, .conn 0 .clear, .conn 0 .announce, .conn 0 .subtract,
          .accept, .conn 1 .clear, .conn 1 .announce, .conn 0 .stamp, .conn 0 .signal, .tick] =
        some s ∧
      s.conns[1]? = some .serving ∧ s.tracker.lastIdleAt = some 0 ∧
      (s.step (.waiter .check)).map IdleRun.waiter = some .returned :=
  ⟨_, rfl, rfl, rfl, rfl⟩

/-- Some connection is in one of the given phases. -/
def HasConn (s : IdleRun) (among : ConnPhase → Bool) : Prop :=
  ∃ (id : Nat) (phase : ConnPhase), s.conns[id]? = some phase ∧ among phase = true

/-- A connection that will set the timestamp has steps to take. -/
theorem HasConn.live {s : IdleRun} (has : s.HasConn ConnPhase.mayStamp) :
    s.HasConn ConnPhase.isLive := by
  obtain ⟨id, phase, found, stamps⟩ := has
  refine ⟨id, phase, found, ?_⟩
  cases phase <;> simp_all [ConnPhase.mayStamp, ConnPhase.isLive]

/-- No handler panics, and no notification is lost that nobody else is going to repeat. -/
def Heard (s : IdleRun) : Action → Prop
  | .conn _ .unwind => False
  | .conn id .signal => s.waiter = .sawOpen →
      ∃ (other : Nat) (phase : ConnPhase), other ≠ id ∧ s.conns[other]? = some phase ∧
        phase.isLive = true
  | _ => True

/-- A waiter that will wait for a notification alone still has one coming. -/
structure Wakeful (s : IdleRun) : Prop where
  noPanic : ∀ id : Nat, s.conns[id]? ≠ some ConnPhase.panicked
  stamps : s.tracker.lastIdleAt = none → s.HasConn ConnPhase.mayStamp
  wakes : s.waiter = .sawOpen ∨ s.waiter = .parked → s.HasConn ConnPhase.isLive

/-- A fresh daemon is idle, and its waiter has not looked yet. -/
theorem start_wakeful (timeout : Option Nat) : (start timeout).Wakeful :=
  ⟨by simp [start], by simp [start, IdleTracker.new], by simp [start]⟩

/-- A waiter that has not been notified is where it was before. -/
theorem WaiterPhase.notify_waits {waiter : WaiterPhase}
    (waits : waiter.notify = .sawOpen ∨ waiter.notify = .parked) : waiter = .sawOpen := by
  cases waiter <;> simp_all [WaiterPhase.notify]

/-- A connection that is not the last one leaves another one that will set the timestamp. -/
theorem hasConn_of_counted {s : IdleRun} (counted : s.Counted)
    (noPanic : ∀ id : Nat, s.conns[id]? ≠ some ConnPhase.panicked)
    (positive : 0 < s.tracker.active) : s.HasConn ConnPhase.mayStamp := by
  -- The count is that of the connections that have not been taken off it.
  rw [counted.active] at positive
  obtain ⟨id, phase, found, isCounted⟩ := Population.exists_of_countP_pos positive
  refine ⟨id, phase, found, ?_⟩
  cases phase with
  | panicked => exact absurd found (noPanic id)
  | _ => simp_all [ConnPhase.isCounted, ConnPhase.mayStamp]

/-- The waiter comes to wait for a notification alone only by finding no timestamp. -/
theorem waiterStep_waits {s : IdleRun} {what : WaiterAction} {old waiter : WaiterPhase}
    (moved : s.waiterStep what old = some waiter)
    (waits : waiter = .sawOpen ∨ waiter = .parked) :
    s.tracker.lastIdleAt = none ∨ old = .sawOpen := by
  -- Every other step of the waiter leads to a phase in which it does not wait like this.
  cases what with
  | check =>
    cases old with
    | checking =>
      simp only [waiterStep, Option.map_eq_some_iff] at moved
      obtain ⟨timeout, _, moved⟩ := moved
      cases stamp : s.tracker.lastIdleAt with
      | none => exact Or.inl rfl
      | some since =>
        simp only [look, stamp] at moved
        subst moved
        split at waits <;> simp at waits
    | _ => simp [waiterStep] at moved
  | listen =>
    cases old with
    | sawOpen => exact Or.inr rfl
    | sawIdle remaining =>
      cases moved
      simp at waits
    | _ => simp [waiterStep] at moved
  | timer =>
    cases old with
    | sleeping deadline =>
      simp only [waiterStep, Option.ite_none_right_eq_some, Option.some.injEq] at moved
      rw [← moved.2] at waits
      simp at waits
    | _ => simp [waiterStep] at moved
  | wake =>
    cases old with
    | notified =>
      cases moved
      simp at waits
    | _ => simp [waiterStep] at moved

/-- As long as nothing is lost, a waiting waiter still has a notification coming. -/
theorem Wakeful.step {s next : IdleRun} {action : Action} (wakeful : s.Wakeful)
    (counted : s.Counted) (heard : s.Heard action) (taken : s.step action = some next) :
    next.Wakeful := by
  have counted' := counted.step taken
  cases step_spec taken with
  | accept =>
    -- The newcomer will disconnect in its turn.
    have newcomer : (s.conns ++ [ConnPhase.counted])[s.conns.length]? = some .counted := by simp
    refine ⟨?_, fun _ => ⟨_, _, newcomer, rfl⟩, fun _ => ⟨_, _, newcomer, rfl⟩⟩
    intro id found
    rcases Population.joined found with ⟨_, same⟩ | ⟨_, found⟩
    · cases same
    · exact wakeful.noPanic id found
  | @conn id what old next here moved =>
    have noPanic : ∀ phase, phase ≠ .panicked → ∀ id' : Nat,
        (s.conns.set id phase)[id']? ≠ some ConnPhase.panicked := by
      intro phase sound id' found
      rcases Population.moved found with ⟨_, same⟩ | ⟨_, found⟩
      · exact sound same.symm
      · exact wakeful.noPanic id' found
    have self : ∀ phase, (s.conns.set id phase)[id]? = some phase :=
      fun phase => Population.moved_self here
    cases moved with
    | clear =>
      exact ⟨noPanic _ (by decide), fun _ => ⟨id, _, self _, rfl⟩, fun _ => ⟨id, _, self _, rfl⟩⟩
    | announce =>
      exact ⟨noPanic _ (by decide), fun _ => ⟨id, _, self _, rfl⟩, fun _ => ⟨id, _, self _, rfl⟩⟩
    | unwind => exact heard.elim
    | last single =>
      exact ⟨noPanic _ (fun same => by cases same), fun _ => ⟨id, _, self _, rfl⟩,
        fun _ => ⟨id, _, self _, rfl⟩⟩
    | uncount several =>
      -- The count was not one, so another connection is still counted.
      have positive : 0 < s.tracker.active - 1 := by
        have counts : 0 < s.conns.countP ConnPhase.isCounted := Population.countP_pos here rfl
        rw [← counted.active] at counts
        omega
      have others := hasConn_of_counted counted' (noPanic _ (by decide)) positive
      exact ⟨noPanic _ (by decide), fun _ => others, fun _ => others.live⟩
    | stamp accepted =>
      refine ⟨noPanic _ (by decide), ?_, fun _ => ⟨id, _, self _, rfl⟩⟩
      intro empty
      cases empty
    | signal =>
      refine ⟨noPanic _ (by decide), ?_, ?_⟩
      · intro empty
        obtain ⟨other, phase, found, stamps⟩ := wakeful.stamps empty
        have apart : other ≠ id := by
          intro same
          subst same
          rw [here] at found
          cases found
          cases stamps
        exact ⟨other, phase, Population.moved_other found apart, stamps⟩
      · intro waits
        obtain ⟨other, phase, apart, found, live⟩ := heard (WaiterPhase.notify_waits waits)
        exact ⟨other, phase, Population.moved_other found apart, live⟩
  | waiter moved =>
    refine ⟨wakeful.noPanic, wakeful.stamps, ?_⟩
    intro waits
    rcases waiterStep_waits moved waits with empty | saw
    · exact (wakeful.stamps empty).live
    · exact wakeful.wakes (Or.inl saw)
  | tick => exact ⟨wakeful.noPanic, wakeful.stamps, wakeful.wakes⟩

/-- Every accepted connection has ended, one way or another, and its steps have finished. -/
def Finished (s : IdleRun) : Prop :=
  ∀ (id : Nat) (phase : ConnPhase), s.conns[id]? = some phase → phase.isLive = false

/-- The daemon will come to its idle exit by itself, or has come to it. -/
structure Armed (s : IdleRun) : Prop where
  active : s.tracker.active = 0
  lastIdleAt : s.tracker.lastIdleAt.isSome
  waiter : s.waiter ≠ .sawOpen ∧ s.waiter ≠ .parked

/--
In every run in which no handler panics and no notification is lost that nobody else is going to
repeat, the tracker is armed whenever all connections have ended.
-/
theorem armed_when_finished {timeout : Option Nat} {actions : List Action}
    (heard : Along IdleRun.step Heard (start timeout) actions) :
    Visits IdleRun.step (fun s => s.Finished → s.Armed) (start timeout) actions := by
  have kept := visits_of_invariant (fun s => s.Counted ∧ s.Wakeful)
    (fun s action next inv heard taken =>
      ⟨inv.1.step taken, inv.2.step inv.1 heard taken⟩)
    ⟨start_counted timeout, start_wakeful timeout⟩ heard
  -- Each way of not being armed needs a live connection, and there is none.
  refine kept.mono ?_
  intro s inv finished
  obtain ⟨counted, wakeful⟩ := inv
  have none_live : ¬ s.HasConn ConnPhase.isLive := by
    intro has
    obtain ⟨id, phase, found, live⟩ := has
    rw [finished id phase found] at live
    cases live
  refine ⟨?_, ?_, ?_, ?_⟩
  · by_contra some_active
    exact none_live (hasConn_of_counted counted wakeful.noPanic (by omega)).live
  · cases stamp : s.tracker.lastIdleAt with
    | none => exact absurd (wakeful.stamps stamp).live none_live
    | some since => rfl
  · exact fun waits => none_live (wakeful.wakes (Or.inl waits))
  · exact fun waits => none_live (wakeful.wakes (Or.inr waits))

/-- One connection that comes and goes while the waiter is parked. -/
def oneVisit : List Action :=
  [.accept, .conn 0 .clear, .conn 0 .announce, .waiter .check, .waiter .listen,
    .conn 0 .subtract, .conn 0 .stamp, .conn 0 .signal]

/-- The end of the only connection wakes the waiter up. -/
theorem armed_after_one_visit :
    ∃ s, run IdleRun.step (start (some 1)) oneVisit = some s ∧ s.Finished ∧ s.Armed := by
  -- The notification comes while the waiter is parked.
  have heard : Along IdleRun.step Heard (start (some 1)) oneVisit :=
    ⟨trivial, trivial, trivial, trivial, trivial, trivial, trivial, nofun, trivial⟩
  have finished : IdleRun.Finished
      { tracker := { active := 0, lastIdleAt := some 0, timeout := some 1 }, now := 0,
        conns := [.ended], waiter := .notified } := by
    intro id phase found
    obtain rfl := List.mem_singleton.mp (List.mem_of_getElem? found)
    rfl
  exact ⟨_, rfl, finished, (armed_when_finished heard).last rfl finished⟩

/--
After a panic in a handler the daemon counts the connection for ever. Without one, the
notification of the last connection can come between the waiter's look and its wait.
-/
theorem panic_or_lost_notification_disarms :
    (∃ s, run IdleRun.step (start (some 1))
        [.accept, .conn 0 .clear, .conn 0 .announce, .conn 0 .unwind] = some s ∧
      s.Finished ∧ s.tracker.active = 1 ∧ s.tracker.lastIdleAt = none) ∧
    ∃ s, run IdleRun.step (start (some 1))
        [.accept, .conn 0 .clear, .conn 0 .announce, .waiter .check, .conn 0 .subtract,
          .conn 0 .stamp, .conn 0 .signal, .waiter .listen] = some s ∧
      s.Finished ∧ s.waiter = .parked := by
  -- In both runs the only connection has ended.
  refine ⟨⟨_, rfl, ?_, rfl, rfl⟩, _, rfl, ?_, rfl⟩
  · intro id phase found
    obtain rfl := List.mem_singleton.mp (List.mem_of_getElem? found)
    rfl
  · intro id phase found
    obtain rfl := List.mem_singleton.mp (List.mem_of_getElem? found)
    rfl

end IdleRun

end McpCli
