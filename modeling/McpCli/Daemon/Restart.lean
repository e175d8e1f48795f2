import McpCli.Daemon.Handlers
import McpCli.Transition.Run

/-! Daemons that follow one another on a project, and version tokens that outlive them. -/

namespace McpCli

/-- What has become of a change's event; daemons are counted from one. -/
inductive Fate where
  /-- The running daemon has not recorded it yet. -/
  | inFlight
  | recorded (daemon version : Nat)
  /-- It came after the given daemon had gone, or went with it. -/
  | lost (daemon : Nat)
  deriving DecidableEq, Repr

/-- A change of a file, in the order in which the changes happen. -/
structure Change where
  path : RelPath
  kind : ChangeKind
  fate : Fate
  deriving DecidableEq, Repr

/-- A version that a daemon has given to a client. -/
structure Token where
  daemon : Nat
  version : Nat
  /-- How many changes there had been by then. -/
  issued : Nat
  deriving DecidableEq, Repr

/-- One daemon after another, with everything that ever changed and every token ever issued. -/
structure Restart where
  /-- The number of the running daemon, or of the last one that ran. -/
  daemon : Nat
  running : Bool
  log : ChangeLog
  changes : List Change
  tokens : List Token
  deriving DecidableEq, Repr

namespace Restart

/-- Before the first daemon is spawned. -/
def untouched : Restart :=
  { daemon := 0, running := false, log := .withCapacity 4096, changes := [], tokens := [] }

/-- One thing that can happen next. -/
inductive Action where
  /-- A file changes. -/
  | change (path : RelPath) (kind : ChangeKind)
  /-- The event of a change reaches the daemon. -/
  | deliver (index : Nat)
  /-- The daemon writes a file itself, and records that at once. -/
  | write (path : RelPath)
  /-- A client is given the current version. -/
  | issue
  | exit
  | spawn (capacity : Nat)
  deriving DecidableEq, Repr

/-- Events that a daemon has not recorded when it exits are never recorded. -/
def dropped (daemon : Nat) (change : Change) : Change :=
  if change.fate = .inFlight then { change with fate := .lost daemon } else change

/-- Enter an event in the log, as the fate of its change says. -/
def entered (s : Restart) (change : Change) : Change × ChangeLog :=
  ({ change with fate := .recorded s.daemon (s.log.version + 1) },
    s.log.record change.path change.kind)

/-- Take one step, if it is possible. -/
def step (s : Restart) : Action → Option Restart
  | .change path kind =>
    let fate := if s.running then .inFlight else .lost s.daemon
    some { s with changes := s.changes ++ [{ path, kind, fate }] }
  | .deliver index =>
    match s.running, s.changes[index]? with
    | true, some change =>
      if change.fate = .inFlight then
        let (change, log) := s.entered change
        some { s with log, changes := s.changes.set index change }
      else none
    | _, _ => none
  | .write path =>
    if s.running then
      let (change, log) := s.entered { path, kind := .modified, fate := .inFlight }
      some { s with log, changes := s.changes ++ [change] }
    else none
  | .issue =>
    if s.running then
      let token : Token :=
        { daemon := s.daemon, version := s.log.snapshot.1, issued := s.changes.length }
      some { s with tokens := s.tokens ++ [token] }
    else none
  | .exit =>
    if s.running then
      some { s with running := false, changes := s.changes.map (dropped s.daemon) }
    else none
  | .spawn capacity =>
    -- A daemon refuses to start without any capacity.
    if s.running ∨ capacity = 0 then none
    else
      some { s with daemon := s.daemon + 1, running := true, log := .withCapacity capacity }

end Restart

end McpCli
