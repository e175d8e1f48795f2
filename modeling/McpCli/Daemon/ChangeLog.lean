import Mathlib.Data.List.AList
import Mathlib.Data.List.Sort
import McpCli.Protocol.Messages

/-! The bounded log of file events behind `fs.snapshot` and `fs.changes`. -/

namespace McpCli

/-- The ring of recent events, and how far it has already forgotten. -/
structure ChangeLog where
  /-- The version of the most recently recorded event, or zero before the first. -/
  version : Nat
  /-- The events still held, oldest first. -/
  entries : List ChangeEntry
  /-- The version of the most recently evicted event, or zero before the first. -/
  overflowHighWater : Nat
  capacity : Nat
  deriving DecidableEq, Repr

namespace ChangeLog

/-- An empty log, as a starting daemon has it. -/
def withCapacity (capacity : Nat) : ChangeLog :=
  { version := 0, entries := [], overflowHighWater := 0, capacity }

/-- Append an event under the next version, evicting the oldest one when the ring is full. -/
def record (log : ChangeLog) (path : RelPath) (kind : ChangeKind) : ChangeLog :=
  let version := log.version + 1
  let entry := { path, kind, version }
  -- Eviction happens before the push, and remembers the version it lost.
  if log.entries.length = log.capacity then
    match log.entries with
    | [] => { log with version, entries := [entry] }
    | evicted :: kept =>
      { log with version, entries := kept ++ [entry], overflowHighWater := evicted.version }
  else { log with version, entries := log.entries ++ [entry] }

/-- The current version and the oldest version still held. -/
def snapshot (log : ChangeLog) : Nat × Nat :=
  (log.version, (log.entries.head?.map ChangeEntry.version).getD log.version)

/-- The first and the last event of each path, as two maps filled in one pass. -/
abbrev EntryMap := AList fun _ : RelPath => ChangeEntry

/-- Enter one event in the maps: the first keeps what it has, the last takes the new event. -/
def enter (maps : EntryMap × EntryMap) (e : ChangeEntry) : EntryMap × EntryMap :=
  (if e.path ∈ maps.1 then maps.1 else maps.1.insert e.path e, maps.2.insert e.path e)

/-- The events a client at `since` has not been told about. -/
def window (log : ChangeLog) (since : Nat) : List ChangeEntry :=
  log.entries.filter fun e => since < e.version

/-- The representative of a path, unless it was created and is gone again. -/
def representative (first : EntryMap) (path : RelPath) (lastEntry : ChangeEntry) :
    Option ChangeEntry :=
  match first.lookup path with
  | none => none
  | some firstEntry =>
    if firstEntry.kind = .created ∧ lastEntry.kind = .removed then none else some lastEntry

/-- Changes newer than `since`, one per path in version order, with the current version. -/
def changesSince (log : ChangeLog) (since : Nat) : Nat × List ChangeEntry × Bool :=
  let maps := (log.window since).foldl enter (∅, ∅)
  let out := maps.2.entries.filterMap fun slot => representative maps.1 slot.1 slot.2
  -- The map is walked in no particular order, so the result is sorted afterwards.
  (log.version, out.insertionSort (fun a b => a.version ≤ b.version),
    decide (since < log.overflowHighWater))

/-- The `fs.changes` method. -/
def fsChanges (log : ChangeLog) (since : Nat) : FsChangesResult :=
  let (version, changes, overflowed) := log.changesSince since
  { version, changes, overflowed }

end ChangeLog

end McpCli
