import McpCli.Protocol.Messages
import McpCli.Text.Lossy

/-! The log of a background job: two threads write it, and a client reads it piece by piece. -/

namespace McpCli

/-- The streams of a child process that go to its log. -/
inductive JobStream where
  | stdout
  | stderr
  deriving DecidableEq, Repr

/-- What stands in front of the first piece of a stream. -/
def JobStream.logPrefix : JobStream → List Char
  | .stdout => "$ stdout\n".toList
  | .stderr => "$ stderr\n".toList

/-- What `try_wait` and `wait` say of a child: an error, or its exit code, if it has one. -/
abbrev Waited := Except String (Option Int)

/-- A child process that the daemon has started. -/
structure BackgroundJob where
  output : List Char
  killed : Bool
  exitCode : Option Int
  deriving DecidableEq, Repr

/-- How a call of a method ends. -/
inductive CallOutcome (Result : Type) where
  | answered (result : Except RpcError Result)
  | panicked

/-- The job when it has been asked whether the child has exited, which it may not have. -/
def BackgroundJob.tryWait (job : BackgroundJob) (jobId : Nat) (waited : Option Waited) :
    Except RpcError BackgroundJob :=
  match job.exitCode, waited with
  | none, some (.ok code) => .ok { job with exitCode := code }
  | none, some (.error e) => .error { code := -32074, message := s!"wait job {jobId}: {e}" }
  -- The child still runs, or it is known already how it exited.
  | _, _ => .ok job

/-- Where the piece begins and ends that a request asks for, in a log of this length. -/
def ToolReadLogsParams.range (params : ToolReadLogsParams) (length : Nat) : Nat × Nat :=
  let start := min params.offset length
  (start, (params.maxBytes.map fun max => min (start + max) length).getD length)

/-- `tool_read_logs` on the job of the number in the request. -/
def toolReadLogs (job : BackgroundJob) (waited : Option Waited) (params : ToolReadLogsParams) :
    CallOutcome ToolReadLogsResult × BackgroundJob :=
  match job.tryWait params.jobId waited with
  | .error error => (.answered (.error error), job)
  | .ok job =>
    let (start, stop) := params.range (Text.encodeUtf8 job.output).length
    match Text.sliceBytes job.output start stop with
    -- The index is not on a character boundary.
    | none => (.panicked, job)
    | some output =>
      (.answered (.ok {
        jobId := params.jobId
        output
        nextOffset := stop
        exitCode := job.exitCode
        running := job.exitCode.isNone && !job.killed
        killed := job.killed }), job)

/-- `tool_kill` on the job of the number; `killed` says of what became of the attempt to kill. -/
def toolKill (job : BackgroundJob) (jobId : Nat) (waited : Option Waited)
    (killed : Except String Waited) : Except RpcError ToolKillResult × BackgroundJob :=
  let answer (job : BackgroundJob) : Except RpcError ToolKillResult × BackgroundJob :=
    (.ok { jobId, killed := job.killed, exitCode := job.exitCode }, job)
  match job.exitCode, waited, killed with
  -- A child that has exited is not killed.
  | some _, _, _ => answer job
  -- It has exited by itself in the meantime.
  | none, some (.ok code), _ => answer { job with exitCode := code }
  | none, some (.error e), _ =>
    (.error { code := -32074, message := s!"wait job {jobId}: {e}" }, job)
  | none, none, .error e => (.error { code := -32075, message := s!"kill job {jobId}: {e}" }, job)
  | none, none, .ok (.error e) =>
    (.error { code := -32074, message := s!"wait job {jobId}: {e}" }, job)
  -- It was killed and waited for.
  | none, none, .ok (.ok code) => answer { job with exitCode := code, killed := true }

/-- How far a thread of `spawn_log_reader` is. -/
structure LogReader where
  wrotePrefix : Bool
  ended : Bool
  deriving DecidableEq, Repr

/-- The thread has read a piece of its stream. -/
def LogReader.push (reader : LogReader) (stream : JobStream) (piece : List UInt8)
    (output : List Char) : List Char :=
  (if reader.wrotePrefix then output else output ++ stream.logPrefix) ++ Text.decodeLossy piece

/-- The thread has read its stream to the end. -/
def LogReader.finish (reader : LogReader) (output : List Char) : List Char :=
  if reader.wrotePrefix ∧ output.getLast? ≠ some '\n' then output ++ ['\n'] else output

/-- What a client has asked for, how long the log was then, and what came of it. -/
structure LogPoll where
  params : ToolReadLogsParams
  length : Nat
  outcome : CallOutcome ToolReadLogsResult

/-- A job, the threads that write its log, and a client that reads it. -/
structure JobRun where
  jobId : Nat
  job : BackgroundJob
  readers : JobStream → LogReader
  /-- Where the client goes on reading. -/
  nextOffset : Nat
  /-- What the client has asked for so far. -/
  polls : List LogPoll

namespace JobRun

/-- One thing that happens. -/
inductive Action where
  /-- A thread reads a piece of its stream. -/
  | read (stream : JobStream) (piece : List UInt8)
  /-- A stream comes to its end. -/
  | close (stream : JobStream)
  | kill (waited : Option Waited) (killed : Except String Waited)
  /-- The client asks for what is behind what it has. -/
  | poll (maxBytes : Option Nat) (waited : Option Waited)

/-- What the client asks for in a poll. -/
def pollParams (s : JobRun) (maxBytes : Option Nat) : ToolReadLogsParams :=
  { jobId := s.jobId, offset := s.nextOffset, maxBytes }

/-- The run after a poll: the client goes on behind what it was shown, if it was shown something. -/
def polled (s : JobRun) (params : ToolReadLogsParams)
    (reply : CallOutcome ToolReadLogsResult × BackgroundJob) : JobRun :=
  let (outcome, job) := reply
  let length := (Text.encodeUtf8 s.job.output).length
  { s with
    job
    nextOffset := match outcome with
      | .answered (.ok result) => result.nextOffset
      | _ => s.nextOffset
    polls := s.polls ++ [{ params, length, outcome }] }

/-- The run after an action. -/
def step (s : JobRun) : Action → Option JobRun
  | .read stream piece =>
    let reader := s.readers stream
    -- A read of no bytes is the end of the stream.
    if reader.ended ∨ piece = [] then none
    else some { s with
      job := { s.job with output := reader.push stream piece s.job.output }
      readers := fun other =>
        if other = stream then { reader with wrotePrefix := true } else s.readers other }
  | .close stream =>
    let reader := s.readers stream
    if reader.ended then none
    else some { s with
      job := { s.job with output := reader.finish s.job.output }
      readers := fun other =>
        if other = stream then { reader with ended := true } else s.readers other }
  | .kill waited killed => some { s with job := (toolKill s.job s.jobId waited killed).2 }
  | .poll maxBytes waited =>
    -- The call holds the log for as long as it takes.
    let params := s.pollParams maxBytes
    some (s.polled params (toolReadLogs s.job waited params))

/-- What the client has been shown, piece after piece. -/
def shown (s : JobRun) : List Char :=
  s.polls.flatMap fun poll =>
    match poll.outcome with
    | .answered (.ok result) => result.output
    | _ => []

end JobRun

end McpCli
