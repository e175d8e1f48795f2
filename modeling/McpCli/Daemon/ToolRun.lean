import Mathlib.Data.List.AList
import McpCli.Daemon.ChangeLog
import McpCli.Daemon.OsPath
import McpCli.Protocol.JsonText
import McpCli.Transition.Run

/-! Commands that are run by `tool.run` side by side, with a cache of what succeeded. -/

namespace McpCli

open Text

/-- How many bytes of an output are shown if nothing is said. -/
def toolRunDefaultOutputLimit : Nat := 64 * 1024

/-- How many bytes of both outputs are shown of a command that failed. -/
def toolRunFailureTailLimit : Nat := 16 * 1024

/-- How a command has ended. -/
structure CommandOutput where
  stdout : List UInt8
  stderr : List UInt8
  /-- There is no code if it was ended by a signal. -/
  code : Option Int
  deriving DecidableEq, Repr

/-- The end of some bytes as a text, and whether something was left out in front of it. -/
def truncateBytes (bytes : List UInt8) (max : Nat) : List Char × Bool :=
  if bytes.length ≤ max then (decodeLossy bytes, false)
  else
    let start := bytes.length - max
    (("[[mcp-cli: output truncated to last " ++ toString max ++ " bytes]]\n").toList ++
      decodeLossy (bytes.drop start), true)

/-- Both outputs with a headline for each, as much of their end as is shown. -/
def failureTail (stdout stderr : List UInt8) : List Char :=
  let headline (name : String) := encodeUtf8 ("$ " ++ name ++ "\n").toList
  let combined := if stdout = [] then [] else headline "stdout" ++ stdout
  let combined :=
    if stderr = [] then combined
    else
      let combined :=
        if combined ≠ [] ∧ combined.getLast? ≠ some 0x0A then combined ++ [0x0A] else combined
      combined ++ headline "stderr" ++ stderr
  (truncateBytes combined toolRunFailureTailLimit).1

/-- A request whose directory is known, and the version of the log that it has seen. -/
structure ToolRunCall where
  params : ToolRunParams
  cwd : OsPath
  version : Nat
  deriving DecidableEq, Repr

/-- What a result depends on, as far as the cache goes. -/
def toolRunCacheValue (version : Nat) (cwd : List Char) (params : ToolRunParams) : Json :=
  let number (n : Nat) : Json := .number (String.ofList (decimal n))
  .object
    [("args", .array (params.args.map .string)),
      ("command", .string params.command),
      ("cwd", .string (String.ofList cwd)),
      ("env", .array (params.env.map fun e =>
        .object [("name", .string e.name), ("value", .string e.value)])),
      ("max_output_bytes", (params.maxOutputBytes.map number).getD .null),
      ("version", number version)]

/-- What the cache knows a request by. -/
def toolRunCacheKey (version : Nat) (cwd : List Char) (params : ToolRunParams) : List Char :=
  (toolRunCacheValue version cwd params).write

namespace ToolRunCall

/-- The directory of a request as it is shown. -/
def cwdDisplay (root : OsPath) (call : ToolRunCall) : List Char := call.cwd.displayBelow root

/-- What the cache knows the request by. -/
def key (root : OsPath) (call : ToolRunCall) : List Char :=
  toolRunCacheKey call.version (call.cwdDisplay root) call.params

/-- The answer to a request whose command has ended. -/
def result (root : OsPath) (call : ToolRunCall) (output : CommandOutput) : ToolRunResult :=
  let limit := max (call.params.maxOutputBytes.getD toolRunDefaultOutputLimit) 1
  let (stdout, stdoutTruncated) := truncateBytes output.stdout limit
  let (stderr, stderrTruncated) := truncateBytes output.stderr limit
  let success := decide (output.code = some 0)
  { command := call.params.command
    args := call.params.args
    cwd := call.cwdDisplay root
    exitCode := output.code
    success
    stdout
    stderr
    stdoutTruncated
    stderrTruncated
    failureOutput := if success then [] else failureTail output.stdout output.stderr
    cached := false }

end ToolRunCall

/-- How far a request has come. -/
inductive ToolRunPhase where
  | resolved (params : ToolRunParams) (cwd : OsPath)
  /-- It has taken its snapshot of the log. -/
  | observed (call : ToolRunCall)
  /-- The cache had no answer, and the command is running. -/
  | running (call : ToolRunCall)
  /-- The command has ended, and its result may still have to be entered in the cache. -/
  | ran (call : ToolRunCall) (result : ToolRunResult)
  | returned (call : ToolRunCall) (result : ToolRunResult)
  | failed (error : RpcError)
  deriving DecidableEq, Repr

/-- The log and the cache of a daemon, and the requests in the order of their arrival. -/
structure ToolRuns where
  root : OsPath
  log : ChangeLog
  cache : AList fun _ : List Char => ToolRunResult
  requests : List ToolRunPhase

namespace ToolRuns

/-- The next thing that happens. -/
inductive Action where
  /-- A request arrives, and its directory is looked up if it names one. -/
  | arrive (params : ToolRunParams) (canonicalize : Except String OsPath)
  /-- One of the requests takes its next step. -/
  | advance (request : Nat)
  /-- The command of a request ends, or could not be started. -/
  | finish (request : Nat) (output : Except String CommandOutput)
  /-- The log takes an event. -/
  | record (path : RelPath) (kind : ChangeKind)

/-- What a request is at first. -/
def arrival (root : OsPath) (params : ToolRunParams) (canonicalize : Except String OsPath) :
    ToolRunPhase :=
  if trim params.command.toList = [] then
    .failed { code := -32602, message := "command must not be empty" }
  else
    match params.cwd with
    | none => .resolved params root
    | some cwd =>
      match resolveWithin root cwd canonicalize with
      | .ok cwd => .resolved params cwd
      | .error error => .failed error

/-- The next step of a request, if there is one, with what it leaves in the cache. -/
def next (s : ToolRuns) :
    ToolRunPhase → Option (ToolRunPhase × AList fun _ : List Char => ToolRunResult)
  -- The version is taken before the cache is asked and before the command is started.
  | .resolved params cwd => some (.observed { params, cwd, version := s.log.snapshot.1 }, s.cache)
  | .observed call =>
    if call.params.cache then
      match s.cache.lookup (call.key s.root) with
      | some cached => some (.returned call { cached with cached := true }, s.cache)
      | none => some (.running call, s.cache)
    else some (.running call, s.cache)
  | .ran call result =>
    -- The result is entered under the version from before the command.
    if result.success ∧ call.params.cache then
      some (.returned call result, s.cache.insert (call.key s.root) result)
    else some (.returned call result, s.cache)
  | .running _ | .returned .. | .failed _ => none

/-- What becomes of a request whose command has ended or could not be started. -/
def ended (root : OsPath) (call : ToolRunCall) : Except String CommandOutput → ToolRunPhase
  | .ok output => .ran call (call.result root output)
  | .error e => .failed { code := -32070, message := s!"spawn {call.params.command}: {e}" }

/-- Take one step, if it is possible. -/
def step (s : ToolRuns) : Action → Option ToolRuns
  | .arrive params canonicalize =>
    some { s with requests := s.requests ++ [arrival s.root params canonicalize] }
  | .advance request =>
    match s.requests[request]? with
    | none => none
    | some phase =>
      (s.next phase).map fun moved =>
        { s with requests := s.requests.set request moved.1, cache := moved.2 }
  | .finish request output =>
    match s.requests[request]? with
    | some (.running call) =>
      some { s with requests := s.requests.set request (ended s.root call output) }
    | _ => none
  | .record path kind => some { s with log := s.log.record path kind }

end ToolRuns

end McpCli
