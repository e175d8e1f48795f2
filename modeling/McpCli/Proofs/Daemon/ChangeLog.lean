import McpCli.Daemon.ChangeLog
import McpCli.Journal.Keyed

/-! The held versions are consecutive, and coalescing keeps the last word on every path. -/

namespace McpCli.ChangeLog

open Journal

/-- The ring holds consecutive versions, from the one after the last eviction to the current one. -/
structure WellFormed (log : ChangeLog) : Prop where
  held : log.entries.map ChangeEntry.version =
    List.range' (log.overflowHighWater + 1) log.entries.length
  current : log.overflowHighWater + log.entries.length = log.version

/-- A starting daemon's log holds nothing and has evicted nothing. -/
theorem withCapacity_wellFormed (capacity : Nat) : (withCapacity capacity).WellFormed :=
  ⟨rfl, rfl⟩

/-- Recording advances the version by one. -/
@[simp] theorem record_version (log : ChangeLog) (path : RelPath) (kind : ChangeKind) :
    (log.record path kind).version = log.version + 1 := by
  -- All three outcomes of the capacity check store the same new version.
  unfold record
  split
  · split <;> rfl
  · rfl

/-- Recording appends the new event, after dropping the oldest one if the ring was full. -/
theorem record_entries (log : ChangeLog) (path : RelPath) (kind : ChangeKind) :
    (log.record path kind).entries =
        log.entries ++ [{ path, kind, version := log.version + 1 }] ∧
      (log.record path kind).overflowHighWater = log.overflowHighWater ∨
    ∃ evicted kept, log.entries = evicted :: kept ∧
      (log.record path kind).entries = kept ++ [{ path, kind, version := log.version + 1 }] ∧
      (log.record path kind).overflowHighWater = evicted.version := by
  -- An empty ring has nothing to evict, even when its capacity is zero.
  unfold record
  split
  · cases held : log.entries with
    | nil => exact .inl ⟨rfl, rfl⟩
    | cons evicted kept => exact .inr ⟨evicted, kept, rfl, rfl, rfl⟩
  · exact .inl ⟨rfl, rfl⟩

/-- Recording keeps the held versions consecutive. -/
theorem WellFormed.record {log : ChangeLog} (formed : log.WellFormed) (path : RelPath)
    (kind : ChangeKind) : (log.record path kind).WellFormed := by
  obtain ⟨held, current⟩ := formed
  rcases record_entries log path kind with ⟨entries, water⟩ | ⟨evicted, kept, full, entries, water⟩
  · -- Nothing was evicted, so the range grows by one at its upper end.
    refine ⟨?_, ?_⟩
    · rw [entries, water, List.map_append, held, List.length_append, List.length_singleton,
        List.range'_concat]
      simp
      omega
    · rw [entries, water, record_version, List.length_append, List.length_singleton]
      omega
  · -- The oldest version left, so the range moves up by one.
    rw [full, List.map_cons, List.length_cons, List.range'_succ, List.cons.injEq] at held
    rw [full, List.length_cons] at current
    obtain ⟨oldest, rest⟩ := held
    refine ⟨?_, ?_⟩
    · rw [entries, water, List.map_append, rest, List.length_append, List.length_singleton,
        List.range'_concat, oldest]
      simp
      omega
    · rw [entries, water, record_version, List.length_append, List.length_singleton]
      omega

/-- Every held version lies above the last eviction and is not newer than the log itself. -/
theorem WellFormed.version_bounds {log : ChangeLog} (formed : log.WellFormed) {e : ChangeEntry}
    (member : e ∈ log.entries) : log.overflowHighWater < e.version ∧ e.version ≤ log.version := by
  -- Membership in the consecutive range gives both bounds.
  have inside : e.version ∈ log.entries.map ChangeEntry.version := List.mem_map_of_mem member
  rw [formed.held, List.mem_range'_1] at inside
  have current := formed.current
  omega

/-- A client that has seen the current version has nothing left to be told. -/
theorem WellFormed.window_current {log : ChangeLog} (formed : log.WellFormed) :
    log.window log.version = [] := by
  -- No held event is newer than the log itself.
  rw [window, List.filter_eq_nil_iff]
  intro e member newer
  have bounds := formed.version_bounds member
  simp only [decide_eq_true_eq] at newer
  omega

/-- A new event joins the window of every client that has not lost track of the log. -/
theorem window_record (log : ChangeLog) (path : RelPath) (kind : ChangeKind) {since : Nat}
    (known : since ≤ log.version)
    (kept : (log.record path kind).overflowHighWater ≤ since) :
    (log.record path kind).window since =
      log.window since ++ [{ path, kind, version := log.version + 1 }] := by
  -- An evicted event was not newer than `since`, so the filter never showed it.
  rcases record_entries log path kind with ⟨entries, _⟩ | ⟨evicted, rest, full, entries, water⟩
  · simp [window, entries, List.filter_append]
    omega
  · rw [water] at kept
    simp [window, entries, full, List.filter_append, Nat.not_lt.mpr kept]
    omega

/-- Eviction never moves backwards. -/
theorem WellFormed.overflowHighWater_record {log : ChangeLog} (formed : log.WellFormed)
    (path : RelPath) (kind : ChangeKind) :
    log.overflowHighWater ≤ (log.record path kind).overflowHighWater := by
  rcases record_entries log path kind with ⟨_, water⟩ | ⟨evicted, rest, full, _, water⟩
  · exact water.ge
  · -- The evicted event was held, hence newer than everything evicted before it.
    have bounds := formed.version_bounds (e := evicted) (by simp [full])
    omega

/-- The ring is never over its capacity, and has evicted something only if it is full. -/
structure Bounded (log : ChangeLog) : Prop where
  room : log.entries.length ≤ log.capacity
  full : 0 < log.overflowHighWater → log.entries.length = log.capacity

/-- A starting daemon's log has room, and has evicted nothing. -/
theorem withCapacity_bounded (capacity : Nat) : (withCapacity capacity).Bounded :=
  ⟨Nat.zero_le _, fun evicted => absurd evicted (Nat.lt_irrefl 0)⟩

/-- Recording leaves the capacity as it was chosen. -/
@[simp] theorem record_capacity (log : ChangeLog) (path : RelPath) (kind : ChangeKind) :
    (log.record path kind).capacity = log.capacity := by
  unfold record
  split
  · split <;> rfl
  · rfl

/-- Recording keeps a ring bounded that has any room at all. -/
theorem Bounded.record {log : ChangeLog} (bounded : log.Bounded) (positive : 0 < log.capacity)
    (path : RelPath) (kind : ChangeKind) : (log.record path kind).Bounded := by
  obtain ⟨room, full⟩ := bounded
  have chosen := record_capacity log path kind
  by_cases filled : log.entries.length = log.capacity
  · -- The oldest entry makes room for the new one.
    cases held : log.entries with
    | nil =>
      rw [held, List.length_nil] at filled
      omega
    | cons evicted kept =>
      rw [held, List.length_cons] at filled
      have grown : (log.record path kind).entries.length = kept.length + 1 := by
        simp [ChangeLog.record, held, filled]
      exact ⟨by omega, fun _ => by omega⟩
  · -- There is room, and a log that has room has evicted nothing.
    have grown : (log.record path kind).entries.length = log.entries.length + 1 := by
      simp [ChangeLog.record, filled]
    have water : (log.record path kind).overflowHighWater = log.overflowHighWater := by
      simp [ChangeLog.record, filled]
    refine ⟨by omega, ?_⟩
    intro evicted
    rw [water] at evicted
    exact absurd (full evicted) filled

/-- A client overflows when more has been recorded than it knows of and the ring holds. -/
theorem WellFormed.overflowed_iff {log : ChangeLog} (formed : log.WellFormed)
    (bounded : log.Bounded) (since : Nat) :
    (log.fsChanges since).overflowed = true ↔ since + log.capacity < log.version := by
  have flag : (log.fsChanges since).overflowed = decide (since < log.overflowHighWater) := rfl
  rw [flag, decide_eq_true_eq]
  have total := formed.current
  have room := bounded.room
  -- A ring that has evicted something holds as many entries as it can.
  by_cases evicted : 0 < log.overflowHighWater
  · have full := bounded.full evicted
    omega
  · omega

/-- Every version that is not evicted is the version of an entry. -/
theorem WellFormed.exists_entry {log : ChangeLog} (formed : log.WellFormed) {version : Nat}
    (kept : log.overflowHighWater < version) (known : version ≤ log.version) :
    ∃ e ∈ log.entries, e.version = version := by
  -- The held versions are consecutive up to the current one.
  have total := formed.current
  have inside : version ∈ log.entries.map ChangeEntry.version := by
    rw [formed.held, List.mem_range'_1]
    omega
  exact List.mem_map.mp inside

/-- The two maps hold the first and the last event of every path. -/
theorem enter_fold_lookup (events : List ChangeEntry) (path : RelPath) :
    (events.foldl enter (∅, ∅)).1.lookup path = firstFor ChangeEntry.path path events ∧
      (events.foldl enter (∅, ∅)).2.lookup path = lastFor ChangeEntry.path path events := by
  -- The newest event is entered last: it fills an empty first slot and always takes the last one.
  induction events using List.reverseRecOn generalizing path with
  | nil => simp
  | append_singleton events e ih =>
    rw [List.foldl_append, List.foldl_cons, List.foldl_nil, enter, lastFor_concat, firstFor_append]
    obtain ⟨first, last⟩ := ih path
    refine ⟨?_, ?_⟩
    · by_cases known : e.path ∈ (events.foldl enter (∅, ∅)).1
      · -- A path that already has a first event keeps it.
        rw [if_pos known, first]
        by_cases same : e.path = path
        · rw [← AList.lookup_isSome, same, first] at known
          obtain ⟨older, found⟩ := Option.isSome_iff_exists.mp known
          simp [found]
        · simp [firstFor, same]
      · rw [if_neg known]
        by_cases same : e.path = path
        · subst same
          have unseen := AList.lookup_eq_none.mpr known
          rw [first] at unseen
          rw [AList.lookup_insert, unseen]
          simp [firstFor]
        · rw [AList.lookup_insert_ne (Ne.symm same), first]
          simp [firstFor, same]
    · by_cases same : e.path = path
      · subst same
        simp
      · rw [AList.lookup_insert_ne (Ne.symm same), last, if_neg same]

/-- A path counts as never seen: created first and removed last within the client's window. -/
def Suppressed (log : ChangeLog) (since : Nat) (path : RelPath) : Prop :=
  ∃ first last, firstFor ChangeEntry.path path (log.window since) = some first ∧
    lastFor ChangeEntry.path path (log.window since) = some last ∧
    first.kind = .created ∧ last.kind = .removed

/-- The slots of the last map are the window's last words on their paths. -/
theorem lastMap_slot {log : ChangeLog} {since : Nat} {path : RelPath} {e : ChangeEntry} :
    (⟨path, e⟩ : Sigma fun _ : RelPath => ChangeEntry) ∈
        ((log.window since).foldl enter (∅, ∅)).2.entries ↔
      lastFor ChangeEntry.path path (log.window since) = some e := by
  rw [← (enter_fold_lookup (log.window since) path).2]
  exact AList.mem_lookup_iff.symm

/-- A slot is represented by its own event, unless its path is suppressed. -/
theorem representative_eq_some {log : ChangeLog} {since : Nat} {path : RelPath}
    {lastEntry e : ChangeEntry}
    (last : lastFor ChangeEntry.path path (log.window since) = some lastEntry) :
    representative ((log.window since).foldl enter (∅, ∅)).1 path lastEntry = some e ↔
      e = lastEntry ∧ ¬ log.Suppressed since path := by
  -- A path with a last event has a first one as well, which decides about suppression.
  obtain ⟨firstEntry, first⟩ := Option.isSome_iff_exists.mp
    ((firstFor_isSome_iff ChangeEntry.path).mpr (Option.isSome_iff_exists.mpr ⟨lastEntry, last⟩))
  have suppressed : log.Suppressed since path ↔
      firstEntry.kind = .created ∧ lastEntry.kind = .removed := by
    simp [Suppressed, first, last]
  rw [suppressed, representative, (enter_fold_lookup (log.window since) path).1]
  simp only [first]
  split
  · rename_i gone
    simp [gone]
  · rename_i kept
    rw [Option.some.injEq, eq_comm]
    exact ⟨fun same => ⟨same, kept⟩, And.left⟩

/-- An entry is reported when it is the last word on its path and the path is not suppressed. -/
theorem mem_changesSince {log : ChangeLog} {since : Nat} {e : ChangeEntry} :
    e ∈ (log.changesSince since).2.1 ↔
      lastFor ChangeEntry.path e.path (log.window since) = some e ∧
        ¬ log.Suppressed since e.path := by
  -- Sorting moves entries around, and the walk over the map reports one representative per slot.
  simp only [changesSince, List.mem_insertionSort, List.mem_filterMap]
  constructor
  · rintro ⟨⟨path, lastEntry⟩, slot, reported⟩
    have last := lastMap_slot.mp slot
    obtain ⟨same, kept⟩ := (representative_eq_some last).mp reported
    have named := (lastFor_spec _ last).2
    rw [same, named]
    exact ⟨last, kept⟩
  · intro held
    obtain ⟨last, kept⟩ := held
    exact ⟨⟨e.path, e⟩, lastMap_slot.mpr last, (representative_eq_some last).mpr ⟨rfl, kept⟩⟩

/-- No path is reported twice. -/
theorem changesSince_paths_nodup (log : ChangeLog) (since : Nat) :
    ((log.changesSince since).2.1.map ChangeEntry.path).Nodup := by
  -- Each reported entry comes from its own slot of the last map, and slots have distinct paths.
  simp only [changesSince]
  rw [((List.perm_insertionSort _ _).map _).nodup_iff, List.Nodup, List.pairwise_map,
    List.pairwise_filterMap]
  refine (List.pairwise_map.mp ((log.window since).foldl enter (∅, ∅)).2.nodupKeys).imp_of_mem ?_
  rintro ⟨path, e⟩ ⟨other, f⟩ slot otherSlot apart reported isE otherReported isF
  have named : ∀ p x y, (⟨p, x⟩ : Sigma fun _ : RelPath => ChangeEntry) ∈
      ((log.window since).foldl enter (∅, ∅)).2.entries →
      representative ((log.window since).foldl enter (∅, ∅)).1 p x = some y → y.path = p := by
    intro p x y inside shown
    have last := lastMap_slot.mp inside
    rw [((representative_eq_some last).mp shown).1]
    exact (lastFor_spec _ last).2
  rw [named path e reported slot isE, named other f otherReported otherSlot isF]
  exact apart

/-- The reported list has the window's last word on every path that is not suppressed. -/
theorem lastFor_changesSince (log : ChangeLog) (since : Nat) (path : RelPath) :
    (¬ log.Suppressed since path →
      lastFor ChangeEntry.path path (log.changesSince since).2.1 =
        lastFor ChangeEntry.path path (log.window since)) ∧
    (log.Suppressed since path →
      lastFor ChangeEntry.path path (log.changesSince since).2.1 = none) := by
  constructor
  · intro kept
    cases last : lastFor ChangeEntry.path path (log.window since) with
    | none =>
      -- A path without events has nothing to report.
      rw [lastFor_eq_none] at last ⊢
      intro e reported named
      exact last e (lastFor_spec _ (mem_changesSince.mp reported).1).1 named
    | some e =>
      have named := (lastFor_spec _ last).2
      subst named
      exact lastFor_of_unique _ (changesSince_paths_nodup log since)
        (mem_changesSince.mpr ⟨last, kept⟩)
  · intro suppressed
    rw [lastFor_eq_none]
    rintro e reported rfl
    exact (mem_changesSince.mp reported).2 suppressed

end McpCli.ChangeLog
