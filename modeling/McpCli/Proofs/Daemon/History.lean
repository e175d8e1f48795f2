import McpCli.Daemon.History
import McpCli.Proofs.Daemon.Watcher

/-! The ring answers as the history does, for every client that it does not turn away. -/

namespace McpCli

open Journal

namespace History

/-- The ring beside the history: it holds everything that came after its last eviction. -/
structure Mirrors (history : History) (log : ChangeLog) : Prop where
  formed : log.WellFormed
  numbered : history.entries.map ChangeEntry.version = List.range' 1 history.version
  current : log.version = history.version
  held : log.entries = history.entries.drop log.overflowHighWater

/-- A starting daemon's ring holds all there is, which is nothing. -/
theorem withCapacity_mirrors (capacity : Nat) :
    empty.Mirrors (ChangeLog.withCapacity capacity) :=
  ⟨ChangeLog.withCapacity_wellFormed capacity, rfl, rfl, rfl⟩

/-- Recording advances the history by one version. -/
@[simp] theorem record_version (history : History) (path : RelPath) (kind : ChangeKind) :
    (history.record path kind).version = history.version + 1 := by
  simp [record, version]

/-- Ring and history stay side by side when both record the same event. -/
theorem Mirrors.record {history : History} {log : ChangeLog} (mirrors : history.Mirrors log)
    (path : RelPath) (kind : ChangeKind) :
    (history.record path kind).Mirrors (log.record path kind) := by
  obtain ⟨formed, numbered, current, held⟩ := mirrors
  -- The log has never forgotten more than there ever was.
  have within : log.overflowHighWater ≤ history.entries.length := by
    have total := formed.current
    unfold version at current
    omega
  refine ⟨formed.record path kind, ?_, ?_, ?_⟩
  · -- The new event takes the next number.
    rw [record_version, List.range'_1_concat, ← numbered]
    simp [History.record, Nat.add_comm]
  · rw [ChangeLog.record_version, record_version, current]
  · -- What was held is still held, except for the oldest entry of a full ring.
    have same : ({ path, kind, version := log.version + 1 } : ChangeEntry) =
        { path, kind, version := history.version + 1 } := by rw [current]
    rcases ChangeLog.record_entries log path kind with
      ⟨entries, water⟩ | ⟨evicted, kept, full, entries, water⟩
    · rw [entries, water, held, same, History.record, List.drop_append_of_le_length within]
    · -- The evicted entry has the first version that was held.
      have oldest : evicted.version = log.overflowHighWater + 1 := by
        have first := formed.held
        rw [full, List.map_cons, List.length_cons, List.range'_succ, List.cons.injEq] at first
        exact first.1
      have rest : kept = history.entries.drop (log.overflowHighWater + 1) := by
        rw [← List.drop_drop, ← held, full, List.drop_one, List.tail_cons]
      have room : log.overflowHighWater + 1 ≤ history.entries.length := by
        have total := formed.current
        rw [full, List.length_cons] at total
        unfold version at current
        omega
      rw [entries, water, rest, same, oldest, History.record,
        List.drop_append_of_le_length room]

/-- Ring and history stay side by side over every list of records. -/
theorem Mirrors.recordAll {history : History} {log : ChangeLog} (mirrors : history.Mirrors log)
    (records : List (RelPath × ChangeKind)) :
    (history.recordAll records).Mirrors (log.recordAll records) := by
  -- Each record moves both of them on by one event.
  induction records generalizing history log with
  | nil => exact mirrors
  | cons change rest ih => exact ih (mirrors.record change.1 change.2)

/-- An event of the history has the version that its place in the order gives it. -/
theorem Mirrors.version_at {history : History} {log : ChangeLog} (mirrors : history.Mirrors log)
    {place : Nat} (within : place < history.entries.length) :
    (history.entries[place]).version = place + 1 := by
  -- The versions are the numbers from one on.
  have entry : (history.entries.map ChangeEntry.version)[place]? =
      (List.range' 1 history.entries.length)[place]? := by rw [mirrors.numbered, version]
  rw [List.getElem?_map, List.getElem?_eq_getElem within, Option.map_some,
    List.getElem?_range' within, Option.some.injEq] at entry
  omega

/-- An event of the history is held unless its version was evicted. -/
theorem Mirrors.mem_held {history : History} {log : ChangeLog} (mirrors : history.Mirrors log)
    {e : ChangeEntry} (member : e ∈ history.entries) :
    e ∈ log.entries ↔ log.overflowHighWater < e.version := by
  constructor
  · intro inside
    exact (mirrors.formed.version_bounds inside).1
  · -- The event stands at the place that its version names, which is behind the dropped prefix.
    intro newer
    obtain ⟨place, within, found⟩ := List.getElem_of_mem member
    have number := mirrors.version_at within
    rw [found] at number
    rw [mirrors.held, List.mem_drop_iff_getElem]
    refine ⟨place - log.overflowHighWater, by omega, ?_⟩
    have back : log.overflowHighWater + (place - log.overflowHighWater) = place := by omega
    simp only [back, found]

/-- A client behind which nothing was evicted sees in the ring what the history has for it. -/
theorem Mirrors.window_eq {history : History} {log : ChangeLog} (mirrors : history.Mirrors log)
    {since : Nat} (kept : log.overflowHighWater ≤ since) :
    log.window since = history.window since := by
  -- The forgotten prefix has nothing that the client does not know of already.
  have forgotten : (history.entries.take log.overflowHighWater).filter
      (fun e => decide (since < e.version)) = [] := by
    apply List.filter_eq_nil_iff.mpr
    intro e inside newer
    obtain ⟨place, within, found⟩ := List.mem_take_iff_getElem.mp inside
    have known : place < history.entries.length := by omega
    have number := mirrors.version_at known
    rw [found] at number
    rw [decide_eq_true_eq] at newer
    omega
  rw [ChangeLog.window, window, mirrors.held]
  conv_rhs => rw [← List.take_append_drop log.overflowHighWater history.entries]
  rw [List.filter_append, forgotten, List.nil_append]

end History

namespace ChangeLog

/-- No two held entries have the same version. -/
theorem WellFormed.versions_nodup {log : ChangeLog} (formed : log.WellFormed) :
    (log.entries.map ChangeEntry.version).Nodup := by
  rw [formed.held]
  exact List.nodup_range'

/-- The reported entries come in the order of their versions. -/
theorem WellFormed.changesSince_increasing {log : ChangeLog} (formed : log.WellFormed)
    (since : Nat) : ((log.changesSince since).2.1.map ChangeEntry.version).Pairwise (· < ·) := by
  -- Sorting leaves no descent, and distinct paths belong to entries of distinct versions.
  have sorted : (log.changesSince since).2.1.Pairwise fun a b => a.version ≤ b.version := by
    have total : Std.Total fun a b : ChangeEntry => a.version ≤ b.version :=
      ⟨fun a b => Nat.le_total a.version b.version⟩
    have transitive : IsTrans ChangeEntry fun a b => a.version ≤ b.version :=
      ⟨fun a b c => Nat.le_trans⟩
    exact List.pairwise_insertionSort _ _
  have apart : (log.changesSince since).2.1.Pairwise fun a b => a.version ≠ b.version := by
    have distinct := List.pairwise_map.mp (changesSince_paths_nodup log since)
    refine distinct.imp_of_mem ?_
    intro a b reportedA reportedB paths versions
    have heldA := (lastFor_spec _ (mem_changesSince.mp reportedA).1).1
    have heldB := (lastFor_spec _ (mem_changesSince.mp reportedB).1).1
    have equal := List.inj_on_of_nodup_map formed.versions_nodup
      (List.mem_of_mem_filter heldA) (List.mem_of_mem_filter heldB) versions
    exact paths (congrArg ChangeEntry.path equal)
  rw [List.pairwise_map]
  exact (sorted.and apart).imp fun both => Nat.lt_of_le_of_ne both.1 both.2

/-- A ring that holds anything reports its oldest entry, from which its versions count up. -/
theorem WellFormed.oldest_retained {log : ChangeLog} (formed : log.WellFormed)
    (holds : log.entries ≠ []) :
    (∃ oldest, log.entries.head? = some oldest ∧ log.snapshot.2 = oldest.version) ∧
      log.entries.map ChangeEntry.version =
        List.range' log.snapshot.2 (log.version + 1 - log.snapshot.2) := by
  cases entries : log.entries with
  | nil => exact absurd entries holds
  | cons oldest rest =>
    have reported : log.snapshot.2 = oldest.version := by simp [snapshot, entries]
    refine ⟨⟨oldest, rfl, reported⟩, ?_⟩
    -- The oldest entry is the one that would be evicted next.
    have first := formed.held
    rw [entries, List.map_cons, List.length_cons, List.range'_succ, List.cons.injEq] at first
    have total := formed.current
    rw [entries, List.length_cons] at total
    have size : log.version + 1 - log.snapshot.2 = rest.length + 1 := by omega
    rw [size, reported, List.range'_succ, List.map_cons, first.1, first.2]

/-- A log that has just recorded an event holds it. -/
theorem record_holds (log : ChangeLog) (path : RelPath) (kind : ChangeKind) :
    (log.record path kind).entries ≠ [] := by
  rcases record_entries log path kind with ⟨entries, _⟩ | ⟨_, _, _, entries, _⟩ <;> simp [entries]

/-- A log that has recorded anything holds its most recent event. -/
theorem recordAll_holds (log : ChangeLog) {records : List (RelPath × ChangeKind)}
    (recorded : records ≠ []) : (log.recordAll records).entries ≠ [] := by
  -- The last record of the list is the one that is surely still there.
  rw [← List.dropLast_concat_getLast recorded, recordAll, List.foldl_append, List.foldl_cons,
    List.foldl_nil]
  exact record_holds _ _ _

end ChangeLog

namespace History

/-- A path is only briefly there in the history when the ring does not report it. -/
theorem Mirrors.suppressed_iff {history : History} {log : ChangeLog}
    (mirrors : history.Mirrors log) {since : Nat} (kept : log.overflowHighWater ≤ since)
    (path : RelPath) : log.Suppressed since path ↔ history.briefly since path = true := by
  -- Both look for the first and the last event of the path.
  simp only [ChangeLog.Suppressed, briefly, mirrors.window_eq kept, Bool.and_eq_true,
    Option.any_eq_true, decide_eq_true_eq]
  constructor
  · intro transient
    obtain ⟨first, last, isFirst, isLast, created, removed⟩ := transient
    exact ⟨⟨first, isFirst, created⟩, ⟨last, isLast, removed⟩⟩
  · rintro ⟨⟨first, isFirst, created⟩, ⟨last, isLast, removed⟩⟩
    exact ⟨first, last, isFirst, isLast, created, removed⟩

/-- The history's entries come in the order of their versions. -/
theorem Mirrors.coalesced_increasing {history : History} {log : ChangeLog}
    (mirrors : history.Mirrors log) (since : Nat) :
    ((history.coalesced since).map ChangeEntry.version).Pairwise (· < ·) := by
  -- Entries are left out, and none changes its place.
  have ordered : history.entries.Pairwise fun a b => a.version < b.version := by
    rw [← List.pairwise_map, mirrors.numbered]
    exact List.pairwise_lt_range'
  rw [List.pairwise_map]
  exact (ordered.filter _).filter _

/-- For a client that is not turned away, the ring reports what the history would. -/
theorem Mirrors.changesSince_eq {history : History} {log : ChangeLog}
    (mirrors : history.Mirrors log) {since : Nat} (kept : log.overflowHighWater ≤ since) :
    (log.changesSince since).2.1 = history.coalesced since := by
  -- Both lists have the same members, and both are in the order of the versions.
  have member : ∀ e, e ∈ (log.changesSince since).2.1 ↔ e ∈ history.coalesced since := by
    intro e
    rw [ChangeLog.mem_changesSince, mirrors.suppressed_iff kept, mirrors.window_eq kept]
    simp only [coalesced, List.mem_filter, decide_eq_true_eq, Bool.not_eq_true]
    constructor
    · intro held
      obtain ⟨last, lasting⟩ := held
      exact ⟨(lastFor_spec _ last).1, last, lasting⟩
    · intro held
      obtain ⟨_, last, lasting⟩ := held
      exact ⟨last, lasting⟩
  have ring := List.pairwise_map.mp (mirrors.formed.changesSince_increasing since)
  have full := List.pairwise_map.mp (mirrors.coalesced_increasing since)
  have distinct : ∀ {entries : List ChangeEntry},
      entries.Pairwise (fun a b => a.version < b.version) → entries.Nodup := by
    intro entries increasing
    exact increasing.imp fun older same => absurd older (by rw [same]; exact Nat.lt_irrefl _)
  have perm := (List.perm_ext_iff_of_nodup (distinct ring) (distinct full)).mpr member
  refine List.Perm.eq_of_pairwise ?_ ring full perm
  intro a b _ _ less greater
  exact absurd (Nat.lt_trans less greater) (Nat.lt_irrefl _)

/-- A client is turned away when an event that it does not know of is held no more. -/
theorem Mirrors.overflowed_iff {history : History} {log : ChangeLog}
    (mirrors : history.Mirrors log) (since : Nat) :
    (log.changesSince since).2.2 = true ↔
      ∃ e ∈ history.entries, since < e.version ∧ e ∉ log.entries := by
  have flag : (log.changesSince since).2.2 = decide (since < log.overflowHighWater) := rfl
  rw [flag, decide_eq_true_eq]
  constructor
  · -- The event that was evicted last is one of those that the client misses.
    intro behind
    have recorded : log.overflowHighWater ∈ history.entries.map ChangeEntry.version := by
      have total := mirrors.formed.current
      have current := mirrors.current
      rw [mirrors.numbered, List.mem_range'_1]
      omega
    obtain ⟨e, member, last⟩ := List.mem_map.mp recorded
    refine ⟨e, member, by omega, ?_⟩
    rw [mirrors.mem_held member]
    omega
  · -- What is not held is at most at the high-water mark, and the client is before it.
    rintro ⟨e, member, newer, gone⟩
    rw [mirrors.mem_held member] at gone
    omega

end History

/--
The ring against the history that never forgets: the same version, an overflow exactly when an
event that the client misses was evicted, and otherwise the same coalesced list.
The held versions are the consecutive ones from the oldest retained to the current one.
-/
theorem ChangeLog.answers_as_history (capacity : Nat) (records : List (RelPath × ChangeKind))
    (since : Nat) :
    let log := (withCapacity capacity).recordAll records
    let history := History.empty.recordAll records
    (log.changesSince since).1 = history.version ∧
      ((log.changesSince since).2.2 = true ↔
        ∃ e ∈ history.entries, since < e.version ∧ e ∉ log.entries) ∧
      ((log.changesSince since).2.2 = false →
        (log.changesSince since).2.1 = history.coalesced since) ∧
      ((log.changesSince since).2.1.map ChangeEntry.version).Pairwise (· < ·) ∧
      ((log.changesSince since).2.1.map ChangeEntry.path).Nodup ∧
      (records ≠ [] → (∃ oldest, log.entries.head? = some oldest ∧
          log.snapshot.2 = oldest.version) ∧
        log.entries.map ChangeEntry.version =
          List.range' log.snapshot.2 (log.version + 1 - log.snapshot.2)) := by
  -- The ring mirrors the history after any records, and each answer follows from that.
  intro log history
  have mirrors : history.Mirrors log := (History.withCapacity_mirrors capacity).recordAll records
  refine ⟨mirrors.current, mirrors.overflowed_iff since, ?_,
    mirrors.formed.changesSince_increasing since, changesSince_paths_nodup log since, ?_⟩
  · intro fits
    have kept : log.overflowHighWater ≤ since := by
      have flag : (log.changesSince since).2.2 = decide (since < log.overflowHighWater) := rfl
      rw [flag, decide_eq_false_iff_not] at fits
      omega
    exact mirrors.changesSince_eq kept
  · intro recorded
    exact mirrors.formed.oldest_retained (recordAll_holds _ recorded)

end McpCli
