import McpCli.Daemon.JobLog

/-! The life of a background job: its process ends, and clients ask for its log and kill it. -/

namespace McpCli

/-- What a call has reported of a job. -/
structure JobReport where
  /-- A call in front of it had been told that the process has ended. -/
  late : Bool
  /-- `tool_kill` does not say whether the job is running. -/
  running : Option Bool
  exitCode : Option Int
  deriving DecidableEq, Repr

/-- A job, its process and what the calls on it have reported. -/
structure JobLife where
  jobId : Nat
  job : BackgroundJob
  /-- How the process has ended, if it has: with an exit code, or by a signal. -/
  ended : Option (Option Int)
  /-- Whether a call has been told that it has. -/
  observed : Bool
  reports : List JobReport
  deriving DecidableEq, Repr

namespace JobLife

/-- A job that has just been spawned. -/
def spawned (jobId : Nat) : JobLife where
  jobId
  job := { output := [], killed := false, exitCode := none }
  ended := none
  observed := false
  reports := []

/-- One thing that happens. -/
inductive Action where
  /-- Something is written to the log. -/
  | write (text : List Char)
  /-- The process ends, with an exit code or by a signal. -/
  | terminate (code : Option Int)
  /-- The operating system may fail to say whether the process has ended. -/
  | readLogs (offset : Nat) (maxBytes : Option Nat) (fault : Option String)
  /-- The attempt to kill is made if the process has not ended. -/
  | kill (fault : Option String) (killed : Except String Waited)

/-- What `try_wait` says of the process; it goes on saying the same once the process has ended. -/
def waited (s : JobLife) (fault : Option String) : Option Waited :=
  match fault with
  | some e => some (.error e)
  | none => s.ended.map .ok

/-- How the process has ended, by what a call is told of it, if it asks and is told so. -/
def told (job : BackgroundJob) (waited : Option Waited) (killed : Option (Except String Waited)) :
    Option (Option Int) :=
  match job.exitCode, waited, killed with
  | none, some (.ok code), _ => some code
  -- A killed process is waited for.
  | none, none, some (.ok (.ok code)) => some code
  | _, _, _ => none

/-- What `tool_read_logs` reports. -/
def readReport (late : Bool) : CallOutcome ToolReadLogsResult → List JobReport
  | .answered (.ok result) => [{ late, running := some result.running, exitCode := result.exitCode }]
  | _ => []

/-- What `tool_kill` reports. -/
def killReport (late : Bool) : Except RpcError ToolKillResult → List JobReport
  | .ok result => [{ late, running := none, exitCode := result.exitCode }]
  | .error _ => []

/-- The job after an action. -/
def step (s : JobLife) : Action → Option JobLife
  | .write text => some { s with job := { s.job with output := s.job.output ++ text } }
  -- A process ends once.
  | .terminate code => if s.ended.isSome then none else some { s with ended := some code }
  | .readLogs offset maxBytes fault =>
    let reply := toolReadLogs s.job (s.waited fault) { jobId := s.jobId, offset, maxBytes }
    let seen := told s.job (s.waited fault) none
    some { s with
      job := reply.2
      observed := s.observed || seen.isSome
      reports := s.reports ++ readReport s.observed reply.1 }
  | .kill fault killed =>
    let reply := toolKill s.job s.jobId (s.waited fault) killed
    let seen := told s.job (s.waited fault) (some killed)
    some { s with
      job := reply.2
      -- A process that was killed and waited for has ended by then.
      ended := s.ended.or seen
      observed := s.observed || seen.isSome
      reports := s.reports ++ killReport s.observed reply.1 }

end JobLife

end McpCli
