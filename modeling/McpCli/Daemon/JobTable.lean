import Mathlib.Algebra.Group.Nat.Defs
import Mathlib.Logic.Function.Basic
import McpCli.Daemon.JobLife
import McpCli.Daemon.ToolRun

/-! The background jobs of a daemon: calls that start them, side by side with calls on them. -/

namespace McpCli

open Text

/-- The request of `tool.spawn`. -/
structure ToolSpawnParams where
  command : String
  args : List String
  cwd : Option String
  env : List ToolRunEnv
  deriving DecidableEq, Repr

/-- The answer of `tool.spawn`. -/
structure ToolSpawnResult where
  jobId : Nat
  pid : Option Nat
  command : String
  args : List String
  deriving DecidableEq, Repr

/-- The answer to a call on a job that is not there. -/
def unknownJob (jobId : Nat) : RpcError :=
  { code := -32073, message := s!"unknown job: {jobId}" }

/-- What a process does on its own. -/
inductive JobEvent where
  /-- One of the threads enters something in its log. -/
  | write (text : List Char)
  /-- It ends, with an exit code or by a signal. -/
  | terminate (code : Option Int)

/-- What a process does, as something that happens to its job. -/
def JobEvent.action : JobEvent → JobLife.Action
  | .write text => .write text
  | .terminate code => .terminate code

/-- How far a call of `tool.spawn` has come. -/
inductive SpawnPhase where
  /-- The process runs, and has no number yet. -/
  | started (params : ToolSpawnParams) (pid : Nat) (child : JobLife)
  | numbered (params : ToolSpawnParams) (pid : Nat) (child : JobLife)
  | returned (result : ToolSpawnResult)
  | failed (error : RpcError)

/-- The jobs by their numbers, and the calls that have started them as they have arrived. -/
structure JobTable where
  root : OsPath
  nextId : Nat
  jobs : Nat → Option JobLife
  spawns : List SpawnPhase
  /-- What calls on jobs were answered that are not there. -/
  unknown : List RpcError

namespace JobTable

/-- The table of a daemon that has just been started. -/
def empty (root : OsPath) : JobTable :=
  { root, nextId := 1, jobs := fun _ => none, spawns := [], unknown := [] }

/-- The next thing that happens. -/
inductive Action where
  /-- A call of `tool.spawn` comes in, its directory is looked up and its process started. -/
  | spawn (params : ToolSpawnParams) (canonicalize : Except String OsPath)
      (child : Except String Nat)
  /-- Such a call takes its next step. -/
  | advance (call : Nat)
  /-- The process of such a call does something before its job is in the table. -/
  | early (call : Nat) (event : JobEvent)
  /-- Something happens to the job of this number, or is asked of it. -/
  | act (jobId : Nat) (action : JobLife.Action)

/-- What a call of `tool.spawn` is once it has started its process, or has not. -/
def arrival (root : OsPath) (params : ToolSpawnParams) (canonicalize : Except String OsPath)
    (child : Except String Nat) : SpawnPhase :=
  if trim params.command.toList = [] then
    .failed { code := -32602, message := "command must not be empty" }
  else
    let cwd := match params.cwd with
      | some cwd => resolveWithin root cwd canonicalize
      | none => .ok root
    match cwd, child with
    | .error error, _ => .failed error
    | .ok _, .error e => .failed { code := -32072, message := s!"spawn {params.command}: {e}" }
    | .ok _, .ok pid => .started params pid (.spawned 0)

/-- The next step of a call of `tool.spawn`, if there is one. -/
def next (s : JobTable) (call : Nat) : SpawnPhase → Option JobTable
  -- The numbers are as wide as a word.
  | .started params pid child =>
    some { s with
      nextId := (s.nextId + 1) % 2 ^ 64
      spawns := s.spawns.set call (.numbered params pid { child with jobId := s.nextId }) }
  | .numbered params pid child =>
    some { s with
      jobs := Function.update s.jobs child.jobId (some child)
      spawns := s.spawns.set call (.returned
        { jobId := child.jobId, pid := some pid, command := params.command,
          args := params.args }) }
  | .returned _ | .failed _ => none

/-- The process of a call that has not entered its job yet does something. -/
def early (event : JobEvent) : SpawnPhase → Option SpawnPhase
  | .started params pid child => (child.step event.action).map (.started params pid)
  | .numbered params pid child => (child.step event.action).map (.numbered params pid)
  | .returned _ | .failed _ => none

/-- Take one step, if it is possible. -/
def step (s : JobTable) : Action → Option JobTable
  | .spawn params canonicalize child =>
    some { s with spawns := s.spawns ++ [arrival s.root params canonicalize child] }
  | .advance call => s.spawns[call]?.bind (s.next call)
  | .early call event =>
    (s.spawns[call]?.bind (early event)).map fun phase =>
      { s with spawns := s.spawns.set call phase }
  | .act jobId action =>
    match s.jobs jobId, action with
    | some job, _ =>
      (job.step action).map fun job => { s with jobs := Function.update s.jobs jobId (some job) }
    | none, .readLogs .. | none, .kill .. =>
      some { s with unknown := s.unknown ++ [unknownJob jobId] }
    -- Without a job there is no process.
    | none, .write _ | none, .terminate _ => none

end JobTable

end McpCli
