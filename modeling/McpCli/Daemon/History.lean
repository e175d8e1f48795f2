import McpCli.Daemon.ChangeLog
import McpCli.Journal.Keyed

/-! The change log as it would be with room for every event: what the ring is compared with. -/

namespace McpCli

open Journal

/-- Every event that was ever recorded, oldest first. -/
structure History where
  entries : List ChangeEntry
  deriving DecidableEq, Repr

namespace History

/-- The history of a daemon that has recorded nothing. -/
def empty : History := { entries := [] }

/-- The version of the most recent event, or zero before the first. -/
def version (history : History) : Nat := history.entries.length

/-- Append an event under the next version. -/
def record (history : History) (path : RelPath) (kind : ChangeKind) : History :=
  -- Nothing is ever forgotten, so the version is the number of events.
  { entries := history.entries ++ [{ path, kind, version := history.version + 1 }] }

/-- The history after a list of records. -/
def recordAll (history : History) (records : List (RelPath × ChangeKind)) : History :=
  records.foldl (fun history change => history.record change.1 change.2) history

/-- The events newer than `since`, whoever may have forgotten them. -/
def window (history : History) (since : Nat) : List ChangeEntry :=
  history.entries.filter fun e => since < e.version

/-- A path was created first and removed last among the events newer than `since`. -/
def briefly (history : History) (since : Nat) (path : RelPath) : Bool :=
  ((firstFor ChangeEntry.path path (history.window since)).any fun e => e.kind = .created) &&
    ((lastFor ChangeEntry.path path (history.window since)).any fun e => e.kind = .removed)

/-- The last event of each path newer than `since`, unless the path was there only briefly. -/
def coalesced (history : History) (since : Nat) : List ChangeEntry :=
  (history.window since).filter fun e =>
    lastFor ChangeEntry.path e.path (history.window since) = some e ∧
      history.briefly since e.path = false

end History

end McpCli
