import McpCli.Transition.Population
import McpCli.Transition.Run

/-! Daemon processes that start and stop on one socket path. -/

namespace McpCli

/-- How far a daemon process has come in `serve`. -/
inductive ServePhase where
  /-- About to look for a socket file. -/
  | starting
  /-- It found a socket file, and is about to remove it. -/
  | removing
  | binding
  /-- Its listener accepts bridges. -/
  | accepting
  /-- It has left the accept loop, and is about to remove the socket file. -/
  | closing
  | gone
  deriving DecidableEq, Repr

/-- The daemon is running with a listener of its own. -/
def ServePhase.isLive : ServePhase → Bool
  | .accepting | .closing => true
  | _ => false

/-- The socket path, and all daemons ever started for it. -/
structure SocketRun where
  /-- The daemon that bound the socket file there is, whether or not it still runs. -/
  file : Option Nat
  daemons : List ServePhase
  deriving DecidableEq, Repr

namespace SocketRun

/-- The next thing a daemon does. -/
inductive ServeAction where
  /-- `socket_path.exists()` -/
  | look
  /-- `std::fs::remove_file(&socket_path)?` -/
  | remove
  /-- `UnixListener::bind(&socket_path)?` -/
  | bind
  /-- The idle timeout or ctrl-c ends the accept loop. -/
  | shutDown
  /-- `let _ = std::fs::remove_file(&socket_path)` -/
  | cleanUp
  /-- It crashes, is killed, or returns with an error. -/
  | die
  deriving DecidableEq, Repr

/-- The next thing that happens. -/
inductive Action where
  /-- Someone starts another daemon for the same socket path. -/
  | spawn
  | daemon (id : Nat) (what : ServeAction)
  deriving DecidableEq, Repr

/-- No daemon has been started yet. -/
def start : SocketRun := { file := none, daemons := [] }

/-- Move a daemon on. -/
def move (s : SocketRun) (id : Nat) (phase : ServePhase) : SocketRun :=
  { s with daemons := s.daemons.set id phase }

/-- Let a daemon in a given phase take its next step. -/
def serveStep (s : SocketRun) (id : Nat) : ServeAction → ServePhase → Option SocketRun
  | .look, .starting => some (s.move id (if s.file.isSome then .removing else .binding))
  | .remove, .removing =>
    -- A file that has gone in the meantime fails the removal, and `serve` with it.
    if s.file.isSome then some { s.move id .binding with file := none }
    else some (s.move id .gone)
  | .bind, .binding =>
    -- An existing file fails the bind, whoever left it.
    if s.file.isSome then some (s.move id .gone)
    else some { s.move id .accepting with file := some id }
  | .shutDown, .accepting => some (s.move id .closing)
  | .cleanUp, .closing => some { s.move id .gone with file := none }
  | .die, .gone => none
  | .die, _ => some (s.move id .gone)
  | _, _ => none

/-- Take one step, if it is possible. -/
def step (s : SocketRun) : Action → Option SocketRun
  | .spawn => some { s with daemons := s.daemons ++ [.starting] }
  | .daemon id what => s.daemons[id]?.bind fun phase => s.serveStep id what phase

end SocketRun

end McpCli
