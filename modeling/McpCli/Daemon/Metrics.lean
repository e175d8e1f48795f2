import McpCli.Transition.Run

/-! The counters of each tool, and calls that count at the same time. -/

namespace McpCli

/-- The counters of one tool. -/
structure ToolCounter where
  calls : UInt64
  rawBytes : UInt64
  compactedBytes : UInt64
  latencyCalls : UInt64
  latencySumUs : UInt64
  latencyMaxUs : UInt64
  deriving DecidableEq, Repr

/-- The counters of a tool for which nothing was counted. -/
def ToolCounter.default : ToolCounter where
  calls := 0
  rawBytes := 0
  compactedBytes := 0
  latencyCalls := 0
  latencySumUs := 0
  latencyMaxUs := 0

/--
Bump a maximum up to a candidate. Nobody else writes to it, so that an exchange that fails observes
the same value again; it may fail so many times for no reason.
-/
def updateMax (candidate : UInt64) : (failures : Nat) → (current : UInt64) → UInt64
  | 0, current => if current < candidate then candidate else current
  | failures + 1, current =>
    if current < candidate then updateMax candidate failures current else current

/-- The rows of all tools, in the order in which they were made. -/
abbrev ToolRows := List (String × ToolCounter)

/-- The counters of a tool are changed in its first row. -/
def ToolRows.bump (tool : String) (change : ToolCounter → ToolCounter) : ToolRows → ToolRows
  | [] => []
  | (name, counter) :: rest =>
    if name = tool then (name, change counter) :: rest else (name, counter) :: bump tool change rest

/-- Something is counted for a tool. -/
inductive MetricsCall where
  | record (tool : String) (rawBytes compactedBytes : UInt64)
  | recordLatency (tool : String) (durationUs : UInt64)
  deriving DecidableEq, Repr

namespace MetricsCall

/-- The tool for which something is counted. -/
def tool : MetricsCall → String
  | record tool _ _ => tool
  | recordLatency tool _ => tool

/-- What a call does to counters that are there. -/
def change (failures : Nat) : MetricsCall → ToolCounter → ToolCounter
  | record _ rawBytes compactedBytes, counter =>
    { counter with
      calls := counter.calls + 1
      rawBytes := counter.rawBytes + rawBytes
      compactedBytes := counter.compactedBytes + compactedBytes }
  | recordLatency _ durationUs, counter =>
    { counter with
      latencyCalls := counter.latencyCalls + 1
      latencySumUs := counter.latencySumUs + durationUs
      latencyMaxUs := updateMax durationUs failures counter.latencyMaxUs }

/-- The counters that a call makes if there are none. -/
def first : MetricsCall → ToolCounter
  | record _ rawBytes compactedBytes => { ToolCounter.default with calls := 1, rawBytes, compactedBytes }
  | recordLatency _ durationUs =>
    { ToolCounter.default with
      latencyCalls := 1
      latencySumUs := durationUs
      latencyMaxUs := durationUs }

end MetricsCall

/-- Where a call is. -/
inductive MetricsPhase where
  /-- It is about to take the lock and look for the row. -/
  | looking
  /-- It has found no row, and is about to take the lock again to insert one. -/
  | inserting
  | done
  deriving DecidableEq, Repr

/-- A call on its way. -/
structure Counting where
  call : MetricsCall
  phase : MetricsPhase
  deriving DecidableEq, Repr

/-- The rows, and the calls on them. -/
structure ToolMetrics where
  inner : ToolRows
  parties : List Counting
  deriving DecidableEq, Repr

namespace ToolMetrics

/-- No tool has a row, and all calls are about to begin. -/
def start (calls : List MetricsCall) : ToolMetrics where
  inner := []
  parties := calls.map fun call => { call, phase := .looking }

/-- A call takes the lock once, in which exchanges may fail so many times. -/
structure Action where
  id : Nat
  failures : Nat
  deriving DecidableEq, Repr

/-- A call has come to another phase, and has left these rows. -/
def moved (s : ToolMetrics) (id : Nat) (call : MetricsCall) (phase : MetricsPhase)
    (inner : ToolRows) : ToolMetrics :=
  { inner, parties := s.parties.set id { call, phase } }

/-- What a call does while it has the lock, if it is not done. -/
def step (s : ToolMetrics) (action : Action) : Option ToolMetrics :=
  match s.parties[action.id]? with
  | none => none
  | some { call, phase := .looking } =>
    if s.inner.any fun row => row.1 = call.tool then
      some (s.moved action.id call .done (s.inner.bump call.tool (call.change action.failures)))
    else some (s.moved action.id call .inserting s.inner)
  | some { call, phase := .inserting } =>
    -- Another call may have inserted the row in the meantime, and then all begins anew.
    if s.inner.any fun row => row.1 = call.tool then
      some (s.moved action.id call .looking s.inner)
    else some (s.moved action.id call .done (s.inner ++ [(call.tool, call.first)]))
  | some { phase := .done, .. } => none

/-- All calls are done. -/
def Finished (s : ToolMetrics) : Prop := ∀ party ∈ s.parties, party.phase = .done

end ToolMetrics

end McpCli
