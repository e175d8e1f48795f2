import McpCli.Proofs.Daemon.ChangeFeed

/-! Where a client cuts the recorded events into polls makes no difference to what it ends with. -/

namespace McpCli

open Journal

/-- Paths are created only while they are not there, and otherwise changed only while they are. -/
def Lawful (held : RelPath → Bool) : List (RelPath × ChangeKind) → Prop
  | [] => True
  | (path, kind) :: rest =>
    held path = decide (kind ≠ .created) ∧ Lawful (Function.update held path kind.present) rest

/--
The answers of a client that polls after each window of records.
Each poll passes on the version that the previous one returned.
-/
def polls (log : ChangeLog) (since : Nat) :
    List (List (RelPath × ChangeKind)) → List FsChangesResult
  | [] => []
  | window :: rest =>
    let log := log.recordAll window
    let result := log.fsChanges since
    result :: polls log result.version rest

/-- What the client holds after applying its answers in order. -/
def applyPolls (known : RelPath → Bool) (results : List FsChangesResult) : RelPath → Bool :=
  results.foldl (fun known result => applyChanges known result.changes) known

/-- A lawful list stays lawful behind each prefix, from the paths that the prefix leaves. -/
theorem lawful_append {held : RelPath → Bool} {older newer : List (RelPath × ChangeKind)} :
    Lawful held (older ++ newer) ↔
      Lawful held older ∧ Lawful (replayKinds held older) newer := by
  -- The prefix is replayed one event at a time.
  induction older generalizing held with
  | nil => simp [Lawful, replayKinds, replay]
  | cons change rest ih =>
    simp only [List.cons_append, Lawful, ih, and_assoc]
    rfl

/-- The first event of a lawful list about a path creates it only if it was not held. -/
theorem Lawful.firstFor {held : RelPath → Bool} {events : List (RelPath × ChangeKind)}
    (lawful : Lawful held events) {path : RelPath} {change : RelPath × ChangeKind}
    (first : firstFor Prod.fst path events = some change) :
    held path = decide (change.2 ≠ .created) := by
  -- Events about other paths change nothing until the first one about this path is reached.
  induction events generalizing held with
  | nil => cases first
  | cons head rest ih =>
    obtain ⟨here, lawful⟩ := lawful
    by_cases same : head.1 = path
    · simp only [Journal.firstFor, List.find?_cons, same, decide_true, Option.some.injEq] at first
      subst first
      rw [← same]
      exact here
    · simp only [Journal.firstFor, List.find?_cons, same, decide_false] at first
      have later := ih lawful first
      rwa [Function.update_of_ne (Ne.symm same)] at later

namespace ChangeLog

/-- No path that the client holds is suppressed when its window is lawful. -/
theorem unsuppressed_of_lawful {log : ChangeLog} {since : Nat} {known : RelPath → Bool}
    (lawful : Lawful known (log.pending since)) {path : RelPath} (holds : known path = true) :
    ¬ log.Suppressed since path := by
  intro suppressed
  obtain ⟨first, last, isFirst, isLast, created, removed⟩ := suppressed
  -- A window that starts by creating the path says that the client does not hold it.
  have pending : firstFor Prod.fst path (log.pending since) = some (first.path, first.kind) := by
    rw [firstFor_pending, isFirst, Option.map_some]
  have absent := lawful.firstFor pending
  rw [holds, created] at absent
  cases absent

/-- A poll reports every path of its window that is there at the end. -/
theorem mentions_present {log : ChangeLog} {since : Nat} {known : RelPath → Bool}
    {path : RelPath} (spoken : path ∈ (log.pending since).map Prod.fst)
    (present : replayKinds known (log.pending since) path = true) :
    ∃ e ∈ (log.changesSince since).2.1, e.path = path := by
  -- The last event of the path is not a removal, so nothing suppresses it.
  cases last : lastFor ChangeEntry.path path (log.window since) with
  | none =>
    have silent := (lastFor_eq_none _).mp last
    rw [pending, List.map_map, List.mem_map] at spoken
    obtain ⟨e, inside, named⟩ := spoken
    exact absurd named (silent e inside)
  | some e =>
    have named := (lastFor_spec _ last).2
    rw [replayKinds, replay_eq_lastFor, lastFor_pending, last] at present
    have lasting : ¬ log.Suppressed since path := by
      intro suppressed
      obtain ⟨_, final, _, isLast, _, removed⟩ := suppressed
      rw [last, Option.some.injEq] at isLast
      rw [← isLast] at removed
      simp [removed, ChangeKind.present] at present
    subst named
    exact ⟨e, mem_changesSince.mpr ⟨last, lasting⟩, rfl⟩

/-- The window of a poll is what was recorded since the version of the poll before. -/
theorem WellFormed.pending_window {log : ChangeLog} (formed : log.WellFormed)
    {records : List (RelPath × ChangeKind)}
    (complete : ((log.recordAll records).fsChanges log.version).overflowed = false) :
    (log.recordAll records).pending log.version = records := by
  have kept : (log.recordAll records).overflowHighWater ≤ log.version := by
    simpa [fsChanges, changesSince] using complete
  -- Nothing was recorded between the last poll and this window.
  rw [formed.pending_recordAll (Nat.le_refl _) records kept, pending, formed.window_current]
  rfl

end ChangeLog

/-- One poll moves the client over the records of its window, as replaying them would. -/
theorem applyChanges_poll {log : ChangeLog} (formed : log.WellFormed) {known : RelPath → Bool}
    {records : List (RelPath × ChangeKind)} (lawful : Lawful known records)
    (complete : ((log.recordAll records).fsChanges log.version).overflowed = false) :
    applyChanges known ((log.recordAll records).fsChanges log.version).changes =
      replayKinds known records := by
  have window := formed.pending_window complete
  -- Coalescing loses nothing, because the client holds no path that the window creates first.
  calc applyChanges known ((log.recordAll records).changesSince log.version).2.1
      = applyChanges known ((log.recordAll records).window log.version) :=
        applyChanges_changesSince fun _ holds =>
          ChangeLog.unsuppressed_of_lawful (by rwa [window]) holds
    _ = replayKinds known ((log.recordAll records).pending log.version) :=
        applyChanges_window _ _ _
    _ = replayKinds known records := by rw [window]

/-- The polls of a client that starts up to date, over a log of any form. -/
theorem polls_formed {log : ChangeLog} (formed : log.WellFormed) {known : RelPath → Bool}
    {windows : List (List (RelPath × ChangeKind))} (lawful : Lawful known windows.flatten)
    (complete : ∀ result ∈ polls log log.version windows, result.overflowed = false) :
    applyPolls known (polls log log.version windows) = replayKinds known windows.flatten ∧
      ∀ (i : Nat) (window : List (RelPath × ChangeKind)) (result : FsChangesResult),
        windows[i]? = some window → (polls log log.version windows)[i]? = some result →
        ∀ path ∈ window.map Prod.fst,
          replayKinds known (windows.take (i + 1)).flatten path = true →
          ∃ e ∈ result.changes, e.path = path := by
  -- The first poll leaves the client up to date again, in front of the remaining windows.
  induction windows generalizing log known with
  | nil => exact ⟨rfl, fun i window result here => by simp at here⟩
  | cons window rest ih =>
    rw [List.flatten_cons, lawful_append] at lawful
    obtain ⟨now, later⟩ := lawful
    have first : ((log.recordAll window).fsChanges log.version).overflowed = false :=
      complete _ List.mem_cons_self
    have moved := applyChanges_poll formed now first
    obtain ⟨ends, mentions⟩ := ih (formed.recordAll window).1 later
      fun result later => complete result (List.mem_cons_of_mem _ later)
    refine ⟨?_, ?_⟩
    · rw [List.flatten_cons, replayKinds_append, ← ends, ← moved]
      rfl
    · intro i part result isPart isResult path spoken present
      cases i with
      | zero =>
        simp only [List.getElem?_cons_zero, Option.some.injEq, polls] at isPart isResult
        subst isPart
        subst isResult
        have recorded := formed.pending_window first
        rw [Nat.zero_add, List.take_succ_cons, List.take_zero, List.flatten_singleton,
          ← recorded] at present
        rw [← recorded] at spoken
        exact ChangeLog.mentions_present spoken present
      | succ i =>
        rw [List.take_succ_cons, List.flatten_cons, replayKinds_append] at present
        exact mentions i part result isPart isResult path spoken present

/--
However a client cuts a lawful list of records into polls that do not overflow, it ends with the
paths that replaying the records one by one leaves.
Each poll mentions every path of its window that is there at the end of it.
-/
theorem polls_confluent (capacity : Nat) (before : List (RelPath × ChangeKind))
    (known : RelPath → Bool) (windows : List (List (RelPath × ChangeKind)))
    (lawful : Lawful known windows.flatten)
    (complete : ∀ result ∈ polls ((ChangeLog.withCapacity capacity).recordAll before)
      ((ChangeLog.withCapacity capacity).recordAll before).version windows,
      result.overflowed = false) :
    let log := (ChangeLog.withCapacity capacity).recordAll before
    applyPolls known (polls log log.version windows) = replayKinds known windows.flatten ∧
      ∀ (i : Nat) (window : List (RelPath × ChangeKind)) (result : FsChangesResult),
        windows[i]? = some window → (polls log log.version windows)[i]? = some result →
        ∀ path ∈ window.map Prod.fst,
          replayKinds known (windows.take (i + 1)).flatten path = true →
          ∃ e ∈ result.changes, e.path = path :=
  polls_formed ((ChangeLog.withCapacity_wellFormed capacity).recordAll before).1 lawful complete

/-- A file created, polled, removed, created again and polled is there, as its events say. -/
theorem polls_confluent_recreated :
    applyPolls (fun _ => false)
        (polls (ChangeLog.withCapacity 64) 0
          [[(["a"], .created)], [(["a"], .removed), (["a"], .created)]]) ["a"] = true := by
  have met := polls_confluent 64 [] (fun _ => false)
    [[(["a"], .created)], [(["a"], .removed), (["a"], .created)]]
    (by simp [Lawful, ChangeKind.present]) (by decide)
  have ends : applyPolls _ (polls (ChangeLog.withCapacity 64) 0 _) = _ := met.1
  rw [ends]
  rfl

end McpCli
