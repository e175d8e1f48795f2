import McpCli.Transition.Population
import McpCli.Transition.Run

/-! The idle tracker: connections that come and go, and the wait after which the daemon exits. -/

namespace McpCli

/-- The moment the last bridge disconnected, and how many are connected. -/
structure IdleTracker where
  active : Nat
  /-- Empty while a connection is open. -/
  lastIdleAt : Option Nat
  timeout : Option Nat
  deriving DecidableEq, Repr

namespace IdleTracker

/-- A daemon nobody ever connects to should also exit, so it starts idle. -/
def new (timeout : Option Nat) (now : Nat) : IdleTracker :=
  { active := 0, lastIdleAt := some now, timeout }

/-- The first step of `on_connect`. -/
def fetchAdd (tracker : IdleTracker) : IdleTracker := { tracker with active := tracker.active + 1 }

/-- The second step of `on_connect`. -/
def clear (tracker : IdleTracker) : IdleTracker := { tracker with lastIdleAt := none }

/-- The first step of `on_disconnect`, whose result says how many there were before. -/
def fetchSub (tracker : IdleTracker) : Nat × IdleTracker :=
  (tracker.active, { tracker with active := tracker.active - 1 })

/-- The second step of `on_disconnect`, taken only by the last connection. -/
def stamp (tracker : IdleTracker) (now : Nat) : IdleTracker :=
  { tracker with lastIdleAt := some now }

end IdleTracker

/-- How far a connection has come. -/
inductive ConnPhase where
  /-- `on_connect` has counted it. -/
  | counted
  /-- `on_connect` has cleared the timestamp. -/
  | cleared
  /-- Its task serves requests. -/
  | serving
  /-- `on_disconnect` found it to be the last one, when so many had been accepted so far. -/
  | last (accepted : Nat)
  /-- `on_disconnect` has set the timestamp. -/
  | stamped
  | ended
  /-- A panic in a handler has unwound its task. -/
  | panicked
  deriving DecidableEq, Repr

/-- Where `wait_for_timeout` is. -/
inductive WaiterPhase where
  /-- About to look at the timestamp. -/
  | checking
  /-- It saw a connection open, and will now ask to be notified. -/
  | sawOpen
  /-- It saw the daemon idle, and will now sleep for the remaining time. -/
  | sawIdle (remaining : Nat)
  /-- It waits for a notification alone. -/
  | parked
  /-- It waits for the timer or a notification. -/
  | sleeping (deadline : Nat)
  | notified
  | returned
  deriving DecidableEq, Repr

namespace WaiterPhase

/-- `notify_waiters` reaches only those who have asked before. -/
def notify : WaiterPhase → WaiterPhase
  | .parked => .notified
  | .sleeping _ => .notified
  | phase => phase

end WaiterPhase

/-- The tracker, the clock, every connection accepted so far and the waiter. -/
structure IdleRun where
  tracker : IdleTracker
  now : Nat
  conns : List ConnPhase
  waiter : WaiterPhase
  deriving DecidableEq, Repr

namespace IdleRun

/-- The next thing a connection does. -/
inductive ConnAction where
  | clear
  /-- `on_connect` notifies, and the connection's task is spawned. -/
  | announce
  /-- A handler panics. -/
  | unwind
  /-- The connection has ended, cleanly or by an error, and `on_disconnect` uncounts it. -/
  | subtract
  | stamp
  /-- `on_disconnect` notifies. -/
  | signal
  deriving DecidableEq, Repr

/-- The next thing `wait_for_timeout` does. -/
inductive WaiterAction where
  | check
  | listen
  /-- The timer has run out. -/
  | timer
  /-- The notification is taken. -/
  | wake
  deriving DecidableEq, Repr

/-- The next thing that happens. -/
inductive Action where
  /-- A connection is accepted, and `on_connect` counts it. -/
  | accept
  | conn (id : Nat) (what : ConnAction)
  | waiter (what : WaiterAction)
  | tick
  deriving DecidableEq, Repr

/-- A daemon that has just been started. -/
def start (timeout : Option Nat) : IdleRun :=
  { tracker := IdleTracker.new timeout 0, now := 0, conns := [], waiter := .checking }

/-- Move a connection on. -/
def move (s : IdleRun) (id : Nat) (phase : ConnPhase) : IdleRun :=
  { s with conns := s.conns.set id phase }

/-- One look of `wait_for_timeout` at the timestamp. -/
def look (s : IdleRun) (timeout : Nat) : WaiterPhase :=
  match s.tracker.lastIdleAt with
  | none => .sawOpen
  | some since =>
    let elapsed := s.now - since
    if timeout ≤ elapsed then .returned else .sawIdle (timeout - elapsed)

/-- Let a connection in a given phase take its next step. -/
def connStep (s : IdleRun) (id : Nat) : ConnAction → ConnPhase → Option IdleRun
  | .clear, .counted => some { s.move id .cleared with tracker := s.tracker.clear }
  | .announce, .cleared => some { s.move id .serving with waiter := s.waiter.notify }
  -- A handler that panics never comes to the subtraction.
  | .unwind, .serving => some (s.move id .panicked)
  | .subtract, .serving =>
    let (prev, tracker) := s.tracker.fetchSub
    -- Only the connection that leaves none behind goes on to the stamp.
    let phase := if prev = 1 then ConnPhase.last s.conns.length else .ended
    some { s.move id phase with tracker }
  | .stamp, .last _ => some { s.move id .stamped with tracker := s.tracker.stamp s.now }
  | .signal, .stamped => some { s.move id .ended with waiter := s.waiter.notify }
  | _, _ => none

/-- Let the waiter take its next step. -/
def waiterStep (s : IdleRun) : WaiterAction → WaiterPhase → Option WaiterPhase
  -- Without a timeout `serve` never polls the wait.
  | .check, .checking => s.tracker.timeout.map s.look
  | .listen, .sawOpen => some .parked
  | .listen, .sawIdle remaining => some (.sleeping (s.now + remaining))
  | .timer, .sleeping deadline => if deadline ≤ s.now then some .checking else none
  | .wake, .notified => some .checking
  | _, _ => none

/--
Take one step, if it is possible. The steps of any two connections and of the waiter interleave
freely: the accept loop, which counts one connection at a time, only has fewer runs.
-/
def step (s : IdleRun) : Action → Option IdleRun
  | .accept => some { s with conns := s.conns ++ [.counted], tracker := s.tracker.fetchAdd }
  | .conn id what => s.conns[id]?.bind fun phase => s.connStep id what phase
  | .waiter what => (s.waiterStep what s.waiter).map fun waiter => { s with waiter }
  | .tick => some { s with now := s.now + 1 }

end IdleRun

end McpCli
