import Mathlib.Data.List.Lex
import Mathlib.Data.String.Basic
import Mathlib.Data.UInt
import McpCli.Daemon.Metrics
import McpCli.Listing.Tally

/-! What `metrics.gain` and `metrics.tool_latency` report of the counters. -/

namespace McpCli

open Listing

/-- The bytes that a tool has saved. -/
structure ToolGainEntry where
  tool : String
  calls : UInt64
  rawBytes : UInt64
  compactedBytes : UInt64
  deriving DecidableEq, Repr

/-- The bytes that all tools have saved, without their ratio. -/
structure MetricsGainResult where
  perTool : List ToolGainEntry
  totalRawBytes : UInt64
  totalCompactedBytes : UInt64
  deriving DecidableEq, Repr

/-- How long the calls of a tool have taken. -/
structure ToolLatencyEntry where
  tool : String
  calls : UInt64
  latencySumUs : UInt64
  meanUs : UInt64
  maxUs : UInt64
  deriving DecidableEq, Repr

/-- How long the calls of all tools have taken. -/
structure MetricsToolLatencyResult where
  perTool : List ToolLatencyEntry
  deriving DecidableEq, Repr

/-- The entry of a row. -/
def gainEntry : String × ToolCounter → ToolGainEntry
  | (tool, counter) =>
    { tool
      calls := counter.calls
      rawBytes := counter.rawBytes
      compactedBytes := counter.compactedBytes }

/-- The entry of a row for the calls whose time was taken, if there are any. -/
def latencyEntry : String × ToolCounter → Option ToolLatencyEntry
  | (tool, counter) =>
    if counter.latencyCalls = 0 then none
    else some
      { tool
        calls := counter.latencyCalls
        latencySumUs := counter.latencySumUs
        meanUs := counter.latencySumUs / counter.latencyCalls
        maxUs := counter.latencyMaxUs }

/-- What `metrics.gain` reports, with the heaviest tool first. -/
def ToolRows.snapshot (rows : ToolRows) : MetricsGainResult :=
  let perTool :=
    sortByKey (fun entry => weight (entry.tool, entry.rawBytes.toNat)) (rows.map gainEntry)
  { perTool
    totalRawBytes := (perTool.map ToolGainEntry.rawBytes).sum
    totalCompactedBytes := (perTool.map ToolGainEntry.compactedBytes).sum }

/-- What `metrics.tool_latency` reports, with the heaviest tool first. -/
def ToolRows.snapshotLatency (rows : ToolRows) : MetricsToolLatencyResult where
  perTool := sortByKey (fun entry => weight (entry.tool, entry.latencySumUs.toNat))
    (rows.filterMap latencyEntry)

end McpCli
