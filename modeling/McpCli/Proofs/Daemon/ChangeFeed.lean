import McpCli.Daemon.ChangeFeed
import McpCli.Proofs.Daemon.Watcher

/-! When a client that polls `fs.changes` ends up with exactly the tracked files. -/

namespace McpCli

open Journal

variable {Content Parsed : Type} {gitignore : Gitignore Content}

namespace ChangeLog

/-- Recording a whole list advances the version by its length. -/
theorem recordAll_version (log : ChangeLog) (records : List (RelPath × ChangeKind)) :
    (log.recordAll records).version = log.version + records.length := by
  induction records generalizing log with
  | nil => rfl
  | cons change rest ih =>
    rw [recordAll, List.foldl_cons, ← recordAll, ih, record_version, List.length_cons]
    omega

/-- Recording a whole list keeps the log well formed and never takes an eviction back. -/
theorem WellFormed.recordAll {log : ChangeLog} (formed : log.WellFormed)
    (records : List (RelPath × ChangeKind)) :
    (log.recordAll records).WellFormed ∧
      log.overflowHighWater ≤ (log.recordAll records).overflowHighWater := by
  -- Each record keeps both, and moves the mark of evictions up or not at all.
  induction records generalizing log with
  | nil => exact ⟨formed, Nat.le_refl _⟩
  | cons change rest ih =>
    have later := ih (formed.record change.1 change.2)
    exact ⟨later.1, Nat.le_trans (formed.overflowHighWater_record change.1 change.2) later.2⟩

/-- What a client at `since` has not been told, as paths and kinds. -/
def pending (log : ChangeLog) (since : Nat) : List (RelPath × ChangeKind) :=
  -- The versions only order the events, which the list does as well.
  (log.window since).map fun e => (e.path, e.kind)

/-- A client that has not lost track sees the new records appended to what it has not been told. -/
theorem WellFormed.pending_recordAll {log : ChangeLog} (formed : log.WellFormed) {since : Nat}
    (known : since ≤ log.version) (records : List (RelPath × ChangeKind))
    (kept : (log.recordAll records).overflowHighWater ≤ since) :
    (log.recordAll records).pending since = log.pending since ++ records := by
  -- Eviction only moves forward, so it is behind the client at every earlier record too.
  induction records generalizing log with
  | nil => simp [ChangeLog.recordAll]
  | cons change rest ih =>
    have next := formed.record change.1 change.2
    have behind := Nat.le_trans (next.recordAll rest).2 kept
    have later := ih next (by rw [record_version]; omega) kept
    have grown := log.window_record change.1 change.2 known behind
    rw [ChangeLog.recordAll, List.foldl_cons, ← ChangeLog.recordAll, later]
    simp [pending, grown]

/-- The first event about a path in a window is the first pending change of it. -/
theorem firstFor_pending (log : ChangeLog) (since : Nat) (path : RelPath) :
    firstFor Prod.fst path (log.pending since) =
      (firstFor ChangeEntry.path path (log.window since)).map fun e => (e.path, e.kind) := by
  rw [pending, firstFor, List.find?_map]
  rfl

/-- The last event about a path in a window is the last pending change of it. -/
theorem lastFor_pending (log : ChangeLog) (since : Nat) (path : RelPath) :
    lastFor Prod.fst path (log.pending since) =
      (lastFor ChangeEntry.path path (log.window since)).map fun e => (e.path, e.kind) := by
  rw [pending, lastFor, ← List.map_reverse, List.find?_map]
  rfl

end ChangeLog

/-- The paths that are there after a list of changes. -/
def replayKinds (held : List String → Bool) (changes : List (List String × ChangeKind)) :
    List String → Bool :=
  -- The last change of a path says whether it is there.
  replay Prod.fst (fun change => change.2.present) held changes

/-- Later changes replay on what the earlier ones left. -/
theorem replayKinds_append (held : List String → Bool)
    (older newer : List (List String × ChangeKind)) :
    replayKinds held (older ++ newer) = replayKinds (replayKinds held older) newer :=
  replay_append _ _ held older newer

/-- Applying raw entries is replaying their paths and kinds. -/
theorem applyChanges_window (known : RelPath → Bool) (log : ChangeLog) (since : Nat) :
    applyChanges known (log.window since) = replayKinds known (log.pending since) := by
  -- The versions play no part in what an entry does to the client.
  simp [applyChanges, replayKinds, replay, ChangeLog.pending, List.foldl_map]

/--
Coalesced changes have the same effect as the raw ones, as long as no path that the client
holds is suppressed.
-/
theorem applyChanges_changesSince {known : RelPath → Bool} {log : ChangeLog} {since : Nat}
    (unsuppressed : ∀ rel, known rel = true → ¬ log.Suppressed since rel) :
    applyChanges known (log.changesSince since).2.1 = applyChanges known (log.window since) := by
  funext rel
  obtain ⟨shown, hidden⟩ := log.lastFor_changesSince since rel
  rw [applyChanges, applyChanges, replay_eq_lastFor, replay_eq_lastFor]
  by_cases suppressed : log.Suppressed since rel
  · -- The client does not hold the path, which is also what its last event says.
    have absent : known rel = false := by
      cases held : known rel with
      | false => rfl
      | true => exact absurd suppressed (unsuppressed rel held)
    obtain ⟨_, last, _, isLast, _, removed⟩ := suppressed
    rw [hidden ⟨_, last, ‹_›, isLast, ‹_›, removed⟩, isLast]
    simp [absent, removed, ChangeKind.present]
  · rw [shown suppressed]

/-- A change of an untracked path shows in no tracked name. -/
theorem visible_update_untracked {disk : Disk Content} {root path : AbsPath}
    (untracked : trackedName gitignore disk root path = none) (paths : AbsPath → Bool)
    (there : Bool) :
    visible gitignore disk root (Function.update paths path there) =
      visible gitignore disk root paths := by
  funext rel
  by_cases hit : root ++ rel = path
  · -- A name for this path would make it tracked.
    have hidden : ¬ (rel ≠ [] ∧ Filter.keepsFresh gitignore disk root (root ++ rel) = true) := by
      intro both
      have named := trackedName_eq_some.mpr ⟨hit.symm, both.1, hit ▸ both.2⟩
      rw [untracked] at named
      cases named
    by_cases top : rel = []
    · simp [visible, top]
    · have ignored : Filter.keepsFresh gitignore disk root (root ++ rel) = false := by
        simpa [top] using hidden
      simp [visible, ignored]
  · simp [visible, Function.update_of_ne hit]

/-- A change of a tracked path shows in its own name alone. -/
theorem visible_update_tracked {disk : Disk Content} {root path : AbsPath} {name : RelPath}
    (named : trackedName gitignore disk root path = some name) (paths : AbsPath → Bool)
    (there : Bool) :
    visible gitignore disk root (Function.update paths path there) =
      Function.update (visible gitignore disk root paths) name there := by
  obtain ⟨located, below, kept⟩ := trackedName_eq_some.mp named
  subst located
  -- Two names below the root are the same path only if they are the same name.
  funext rel
  by_cases hit : rel = name
  · subst hit
    simp [visible, below, kept]
  · have apart : root ++ rel ≠ root ++ name := fun equal => hit (List.append_cancel_left equal)
    simp [visible, Function.update_of_ne apart, Function.update_of_ne hit]

/-- Records of tracked paths replay on the tracked files as the changes replay on the disk. -/
theorem replayKinds_recordsOf (disk : Disk Content) (root : AbsPath) (paths : AbsPath → Bool)
    (changes : List (AbsPath × ChangeKind)) :
    replayKinds (visible gitignore disk root paths) (recordsOf gitignore disk root changes) =
      visible gitignore disk root (replayKinds paths changes) := by
  -- The induction replays one changed path on both sides and continues from the new sets.
  induction changes generalizing paths with
  | nil => rfl
  | cons change rest ih =>
    obtain ⟨path, kind⟩ := change
    have later := ih (Function.update paths path kind.present)
    cases named : trackedName gitignore disk root path with
    | none =>
      rw [visible_update_untracked named] at later
      simpa [recordsOf, named, replayKinds, replay_cons] using later
    | some name =>
      rw [visible_update_tracked named] at later
      simpa [recordsOf, named, replayKinds, replay_cons] using later

namespace FileOp

/-- What a possible operation makes of the disk. -/
inductive Applied (disk : Disk Content) : FileOp Content → Disk Content → Prop where
  | create (path : AbsPath) (content : Content) :
      Applied disk (.create path content) (Function.update disk path (some content))
  | modify (path : AbsPath) (content : Content) :
      Applied disk (.modify path content) (Function.update disk path (some content))
  | delete (path : AbsPath) : Applied disk (.delete path) (Function.update disk path none)
  | rename (source target : AbsPath) (delivery : RenameDelivery) (content : Content)
      (apart : source ≠ target) :
      Applied disk (.rename source target delivery)
        (Function.update (Function.update disk source none) target (some content))

/-- An operation makes nothing else of the disk. -/
theorem apply_spec {op : FileOp Content} {disk after : Disk Content}
    (applied : op.apply disk = some after) : Applied disk op after := by
  cases op with
  | create path content =>
    simp only [apply, Option.ite_none_right_eq_some, Option.some.injEq] at applied
    rw [← applied.2]
    exact .create path content
  | modify path content =>
    simp only [apply, Option.ite_none_right_eq_some, Option.some.injEq] at applied
    rw [← applied.2]
    exact .modify path content
  | delete path =>
    simp only [apply, Option.ite_none_right_eq_some, Option.some.injEq] at applied
    rw [← applied.2]
    exact .delete path
  | rename source target delivery =>
    cases held : disk source with
    | none => simp [apply, held] at applied
    | some content =>
      -- A rename onto itself is no operation.
      simp only [apply, held] at applied
      split at applied
      · cases applied
      · rename_i apart
        cases applied
        exact .rename source target delivery content apart

/-- The operation leaves every ignore file with the contents it had. -/
def LeavesRules (op : FileOp Content) (disk : Disk Content) : Prop :=
  -- Rewriting an ignore file with the same contents changes no rule.
  match op with
  | .create path _ => path.getLast? ≠ some ".gitignore"
  | .modify path content => path.getLast? = some ".gitignore" → disk path = some content
  | .delete path => path.getLast? ≠ some ".gitignore"
  | .rename source target _ =>
    source.getLast? ≠ some ".gitignore" ∧ target.getLast? ≠ some ".gitignore"

/-- A rename of a tracked file is reported by events that say which name is gone. -/
def SaysWhatLeft (gitignore : Gitignore Content) (op : FileOp Content) (disk : Disk Content)
    (root : AbsPath) : Prop :=
  -- Only the undirected deliveries leave open what became of the old name.
  match op with
  | .rename source _ .any => trackedName gitignore disk root source = none
  | .rename source _ .anyPair => trackedName gitignore disk root source = none
  | _ => True

/-- Writing a path that is not an ignore file, or rewriting one unchanged, keeps the rules. -/
theorem update_rules {disk : Disk Content} {path : AbsPath} {value : Option Content}
    (harmless : path.getLast? = some ".gitignore" → disk path = value) (dir : AbsPath) :
    Function.update disk path value (Filter.gitignorePath dir) =
      disk (Filter.gitignorePath dir) := by
  -- Only a path that is the ignore file itself could matter.
  by_cases hit : Filter.gitignorePath dir = path
  · subst hit
    rw [Function.update_self, harmless (by simp [Filter.gitignorePath])]
  · rw [Function.update_of_ne hit]

/-- Operations that leave the ignore files alone leave every rule as it was. -/
theorem LeavesRules.same {op : FileOp Content} {disk after : Disk Content}
    (leaves : op.LeavesRules disk) (applied : op.apply disk = some after) (dir : AbsPath) :
    disk (Filter.gitignorePath dir) = after (Filter.gitignorePath dir) := by
  -- A rename touches two paths, and the others one.
  cases apply_spec applied with
  | create path content => rw [update_rules (fun named => absurd named leaves)]
  | modify path content => rw [update_rules leaves]
  | delete path => rw [update_rules (fun named => absurd named leaves)]
  | rename source target delivery content apart =>
    obtain ⟨fromLeaves, toLeaves⟩ := leaves
    rw [update_rules (fun named => absurd named toLeaves),
      update_rules (fun named => absurd named fromLeaves)]

/-- Writing or removing one file changes which files exist at that path alone. -/
theorem isSome_update (disk : Disk Content) (path : AbsPath) (value : Option Content) :
    (fun other => (Function.update disk path value other).isSome) =
      Function.update (fun other => (disk other).isSome) path value.isSome := by
  funext other
  by_cases hit : other = path
  · subst hit
    simp
  · simp [hit]

/-- Delivered in order, an operation's events turn the tracked files before into those after. -/
theorem visible_events {op : FileOp Content} {disk after : Disk Content} {root : AbsPath}
    (told : op.SaysWhatLeft gitignore disk root) (applied : op.apply disk = some after) :
    visible gitignore disk root (replayKinds (fun path => (disk path).isSome)
        (op.events.flatMap Event.changes)) =
      visible gitignore disk root fun path => (after path).isSome := by
  cases apply_spec applied with
  | create path content =>
    rw [isSome_update]
    rfl
  | modify path content =>
    rw [isSome_update]
    rfl
  | delete path =>
    rw [isSome_update]
    rfl
  | rename source target delivery content apart =>
    rw [isSome_update, isSome_update]
    -- The undirected deliveries leave the old name marked present, where it is not shown.
    have hidden : trackedName gitignore disk root source = none →
        visible gitignore disk root (Function.update (Function.update
          (fun path => (disk path).isSome) source true) target true) =
        visible gitignore disk root (Function.update (Function.update
          (fun path => (disk path).isSome) source false) target true) := by
      intro untracked
      rw [Function.update_comm apart, Function.update_comm apart,
        visible_update_untracked untracked, visible_update_untracked untracked]
    cases delivery with
    | fromTo => rfl
    | both => rfl
    | fromToBoth =>
      -- The second report of the pair repeats what the first one said.
      show visible gitignore disk root (Function.update (Function.update (Function.update
        (Function.update _ source false) target true) source false) target true) = _
      rw [Function.update_comm (Ne.symm apart), Function.update_idem, Function.update_idem]
      rfl
    | any => exact hidden told
    | anyPair => exact hidden told

end FileOp

namespace ChangeFeed

/-- The client holds exactly the tracked files, and nothing is on its way to it. -/
structure Synced (gitignore : Gitignore Content) (s : ChangeFeed Content Parsed) : Prop where
  coherent : s.watcher.filter.Coherent s.disk
  formed : s.watcher.log.WellFormed
  drained : s.queue = []
  current : s.since = s.watcher.log.version
  exact_ : s.known = tracked gitignore s.disk s.watcher.filter.root

/--
The steps that keep a client on track: operations leave the ignore rules alone and say what a
rename left behind, and no poll suppresses a path that the client holds.
-/
def Faithful (gitignore : Gitignore Content) (s : ChangeFeed Content Parsed) :
    Action Content → Prop
  | .op op => op.LeavesRules s.disk ∧
      op.SaysWhatLeft gitignore s.disk s.watcher.filter.root
  | .deliver => True
  -- Suppression is meant for paths that the client has never seen.
  | .poll => ∀ rel, s.known rel = true → ¬ s.watcher.log.Suppressed s.since rel

/-- What the queued events will record when they are delivered. -/
def inFlight (gitignore : Gitignore Content) (s : ChangeFeed Content Parsed) :
    List (RelPath × ChangeKind) :=
  recordsOf gitignore s.disk s.watcher.filter.root (s.queue.flatMap Event.changes)

/-- Everything a client at `since` is still to be told: what the log holds, then what is queued. -/
def untold (gitignore : Gitignore Content) (s : ChangeFeed Content Parsed) (since : Nat) :
    List (RelPath × ChangeKind) :=
  s.watcher.log.pending since ++ s.inFlight gitignore

/-- Between polls, the client's files and everything it has not been told give the tracked files. -/
structure OnTrack (gitignore : Gitignore Content) (s : ChangeFeed Content Parsed) : Prop where
  coherent : s.watcher.filter.Coherent s.disk
  formed : s.watcher.log.WellFormed
  behind : s.since ≤ s.watcher.log.version
  /-- Once events the client needed are evicted, it will be told so instead. -/
  replays : s.watcher.log.overflowHighWater ≤ s.since →
    replayKinds s.known (s.untold gitignore s.since) =
      tracked gitignore s.disk s.watcher.filter.root

/-- A client in step with an idle tree is on track. -/
theorem Synced.onTrack {s : ChangeFeed Content Parsed} (synced : s.Synced gitignore) :
    s.OnTrack gitignore := by
  refine ⟨synced.coherent, synced.formed, synced.current.le, ?_⟩
  intro _
  -- Nothing is pending in the log and nothing is in flight.
  simp [untold, ChangeLog.pending, synced.current, synced.formed.window_current, inFlight,
    synced.drained, recordsOf, replayKinds, replay, synced.exact_]

/-- The records that an operation will leave in the log. -/
def recordsOfOp (gitignore : Gitignore Content) (s : ChangeFeed Content Parsed)
    (op : FileOp Content) : List (RelPath × ChangeKind) :=
  recordsOf gitignore s.disk s.watcher.filter.root (op.events.flatMap Event.changes)

/-- An operation changes the disk and the queue, and keeps every rule and every cached verdict. -/
theorem step_op {s next : ChangeFeed Content Parsed} {op : FileOp Content}
    (coherent : s.watcher.filter.Coherent s.disk) (leaves : op.LeavesRules s.disk)
    (taken : s.step gitignore (.op op) = some next) :
    op.apply s.disk = some next.disk ∧ next = { s with disk := next.disk, queue := next.queue } ∧
      next.queue = s.queue ++ op.events ∧ next.watcher.filter.Coherent next.disk ∧
      ∀ path, Filter.keepsFresh gitignore s.disk s.watcher.filter.root path =
        Filter.keepsFresh gitignore next.disk s.watcher.filter.root path := by
  -- The watcher takes no part in an operation on the files.
  simp only [step, Option.map_eq_some_iff] at taken
  obtain ⟨disk, applied, rfl⟩ := taken
  have rules := leaves.same applied
  refine ⟨applied, rfl, rfl, ?_, Filter.keepsFresh_congr gitignore rules _⟩
  intro dir value cached
  rw [coherent dir value cached, rules]

/-- An operation puts its records in flight, behind those that are there already. -/
theorem inFlight_op {s next : ChangeFeed Content Parsed} {op : FileOp Content}
    (coherent : s.watcher.filter.Coherent s.disk) (leaves : op.LeavesRules s.disk)
    (taken : s.step gitignore (.op op) = some next) :
    next.inFlight gitignore = s.inFlight gitignore ++ s.recordsOfOp gitignore op := by
  obtain ⟨_, shape, queued, _, kept⟩ := step_op coherent leaves taken
  -- The queued events leave the same records under the unchanged rules.
  have records : ∀ changes, recordsOf gitignore next.disk s.watcher.filter.root changes =
      recordsOf gitignore s.disk s.watcher.filter.root changes := by
    intro changes
    simp only [recordsOf, trackedName, kept]
  have watcher : next.watcher = s.watcher := by rw [shape]
  simp only [inFlight, recordsOfOp, watcher, queued, records, List.flatMap_append]
  simp [recordsOf]

/-- An operation adds its records to what is still to be told. -/
theorem untold_op {s next : ChangeFeed Content Parsed} {op : FileOp Content}
    (coherent : s.watcher.filter.Coherent s.disk) (leaves : op.LeavesRules s.disk)
    (taken : s.step gitignore (.op op) = some next) (since : Nat) :
    next.untold gitignore since = s.untold gitignore since ++ s.recordsOfOp gitignore op := by
  obtain ⟨_, shape, _⟩ := step_op coherent leaves taken
  have watcher : next.watcher = s.watcher := by rw [shape]
  rw [untold, untold, inFlight_op coherent leaves taken, watcher, List.append_assoc]

/-- The records of an operation turn the tracked files before it into those after it. -/
theorem tracked_op {s next : ChangeFeed Content Parsed} {op : FileOp Content}
    (coherent : s.watcher.filter.Coherent s.disk) (leaves : op.LeavesRules s.disk)
    (told : op.SaysWhatLeft gitignore s.disk s.watcher.filter.root)
    (taken : s.step gitignore (.op op) = some next) :
    replayKinds (tracked gitignore s.disk s.watcher.filter.root) (s.recordsOfOp gitignore op) =
      tracked gitignore next.disk s.watcher.filter.root := by
  obtain ⟨applied, _, _, _, kept⟩ := step_op coherent leaves taken
  have shown : ∀ paths, visible gitignore next.disk s.watcher.filter.root paths =
      visible gitignore s.disk s.watcher.filter.root paths := by
    intro paths
    funext rel
    simp only [visible, kept]
  -- The rules are the same ones after the operation, so both sides filter alike.
  rw [tracked, recordsOfOp, replayKinds_recordsOf, FileOp.visible_events told applied, tracked,
    shown]

/-- An operation puts in flight exactly what turns the tracked files into the new ones. -/
theorem OnTrack.op {s next : ChangeFeed Content Parsed} (track : s.OnTrack gitignore)
    {op : FileOp Content} (faithful : s.Faithful gitignore (.op op))
    (taken : s.step gitignore (.op op) = some next) : next.OnTrack gitignore := by
  obtain ⟨leaves, told⟩ := faithful
  obtain ⟨_, shape, _, coherent, _⟩ := step_op track.coherent leaves taken
  have records := untold_op track.coherent leaves taken s.since
  have turned := tracked_op track.coherent leaves told taken
  have watcher : next.watcher = s.watcher := by rw [shape]
  have client : next.since = s.since ∧ next.known = s.known := by rw [shape]; exact ⟨rfl, rfl⟩
  refine ⟨coherent, watcher ▸ track.formed, ?_, ?_⟩
  · rw [watcher, client.1]
    exact track.behind
  · intro held
    rw [watcher, client.1] at held
    -- The new records replay behind the old ones, on the tracked files before the operation.
    rw [client.1, client.2, records, replayKinds_append, track.replays held, turned, watcher]

/-- What a delivery does: the watcher handles the event, and the client's part stays as it was. -/
theorem step_deliver {s next : ChangeFeed Content Parsed}
    (coherent : s.watcher.filter.Coherent s.disk)
    (taken : s.step gitignore .deliver = some next) :
    ∃ event, s.queue = event :: next.queue ∧
      next = { s with queue := next.queue, watcher := next.watcher } ∧
      next.watcher.log = s.watcher.log.recordAll
        (recordsOf gitignore s.disk s.watcher.filter.root event.changes) ∧
      next.watcher.filter.Coherent s.disk ∧ next.watcher.filter.root = s.watcher.filter.root := by
  -- The oldest event is taken from the queue, if there is one.
  simp only [step] at taken
  cases queued : s.queue with
  | nil => simp [queued] at taken
  | cons event queue =>
    simp only [queued, Option.some.injEq] at taken
    subst taken
    exact ⟨event, rfl, rfl, Watcher.handleEvent_spec gitignore coherent event⟩

/-- A delivery keeps the log well formed, moves its version on and never takes an eviction back. -/
theorem log_deliver {s next : ChangeFeed Content Parsed}
    (coherent : s.watcher.filter.Coherent s.disk) (formed : s.watcher.log.WellFormed)
    (taken : s.step gitignore .deliver = some next) :
    next.watcher.log.WellFormed ∧ s.watcher.log.version ≤ next.watcher.log.version ∧
      s.watcher.log.overflowHighWater ≤ next.watcher.log.overflowHighWater := by
  -- The log is the same one with the records of the event behind it.
  obtain ⟨event, _, _, log, _⟩ := step_deliver coherent taken
  have recorded := formed.recordAll
    (recordsOf gitignore s.disk s.watcher.filter.root event.changes)
  rw [log]
  exact ⟨recorded.1, by rw [ChangeLog.recordAll_version]; omega, recorded.2⟩

/-- A delivery takes the oldest records out of flight. -/
theorem inFlight_deliver {s next : ChangeFeed Content Parsed}
    (coherent : s.watcher.filter.Coherent s.disk)
    (taken : s.step gitignore .deliver = some next) :
    ∃ records, s.inFlight gitignore = records ++ next.inFlight gitignore ∧
      next.watcher.log = s.watcher.log.recordAll records := by
  -- What is in flight are the records of all events in the queue, the oldest first.
  obtain ⟨event, queued, shape, log, _, root⟩ := step_deliver coherent taken
  have disk : next.disk = s.disk := by rw [shape]
  refine ⟨_, ?_, log⟩
  simp only [inFlight, queued, List.flatMap_cons, root, disk]
  simp [recordsOf]

/-- A delivery moves records into the log, where they are still to be told. -/
theorem untold_deliver {s next : ChangeFeed Content Parsed}
    (coherent : s.watcher.filter.Coherent s.disk) (formed : s.watcher.log.WellFormed)
    (taken : s.step gitignore .deliver = some next) {since : Nat}
    (behind : since ≤ s.watcher.log.version)
    (held : next.watcher.log.overflowHighWater ≤ since) :
    next.untold gitignore since = s.untold gitignore since := by
  -- The records change from in flight to pending, in the same order.
  obtain ⟨records, flown, log⟩ := inFlight_deliver coherent taken
  rw [log] at held
  rw [untold, untold, flown, log, formed.pending_recordAll behind _ held, List.append_assoc]

/-- Delivering an event keeps the client on track. -/
theorem OnTrack.deliver {s next : ChangeFeed Content Parsed} (track : s.OnTrack gitignore)
    (taken : s.step gitignore .deliver = some next) : next.OnTrack gitignore := by
  obtain ⟨event, _, shape, _, coherent, root⟩ := step_deliver track.coherent taken
  obtain ⟨formed, onward, evicted⟩ := log_deliver track.coherent track.formed taken
  have kept : next.disk = s.disk ∧ next.since = s.since ∧ next.known = s.known := by
    rw [shape]
    exact ⟨rfl, rfl, rfl⟩
  refine ⟨kept.1 ▸ coherent, formed, ?_, ?_⟩
  · -- The log only grows.
    rw [kept.2.1]
    exact Nat.le_trans track.behind onward
  · -- If nothing the client misses is evicted now, nothing was before.
    intro held
    rw [kept.2.1] at held ⊢
    rw [untold_deliver track.coherent track.formed taken track.behind held, kept.2.2, kept.1, root]
    exact track.replays (Nat.le_trans evicted held)

/-- A poll applies the returned changes and moves to the returned version, unless it overflowed. -/
theorem step_poll {s next : ChangeFeed Content Parsed} :
    s.step gitignore .poll = some next ↔
      (s.watcher.log.changesSince s.since).2.2 = false ∧
        next = { s with
          known := applyChanges s.known (s.watcher.log.changesSince s.since).2.1
          since := s.watcher.log.version } := by
  -- The client goes by the flag that the answer carries.
  have flag : (s.watcher.log.fsChanges s.since).overflowed =
      (s.watcher.log.changesSince s.since).2.2 := rfl
  simp only [step, flag]
  cases (s.watcher.log.changesSince s.since).2.2 with
  | true => simp
  | false => simp [ChangeLog.fsChanges, ChangeLog.changesSince, eq_comm]

/-- A poll that suppresses nothing the client holds moves what was pending into the client. -/
theorem OnTrack.poll {s next : ChangeFeed Content Parsed} (track : s.OnTrack gitignore)
    (faithful : s.Faithful gitignore .poll) (taken : s.step gitignore .poll = some next) :
    next.OnTrack gitignore ∧ next.since = next.watcher.log.version := by
  obtain ⟨complete, taken⟩ := step_poll.mp taken
  subst taken
  refine ⟨⟨track.coherent, track.formed, Nat.le_refl _, ?_⟩, rfl⟩
  intro _
  -- Not overflowing means that everything the client needs is still held.
  have held : s.watcher.log.overflowHighWater ≤ s.since := by
    simpa [ChangeLog.changesSince] using complete
  have before := track.replays held
  rw [untold, replayKinds_append, ← applyChanges_window,
    ← applyChanges_changesSince faithful] at before
  have nothing : s.watcher.log.pending s.watcher.log.version = [] := by
    simp [ChangeLog.pending, track.formed.window_current]
  rw [← before]
  show replayKinds _ (s.watcher.log.pending s.watcher.log.version ++ _) = _
  rw [nothing, List.nil_append]
  rfl

/-- Every faithful step keeps the client on track. -/
theorem OnTrack.step {s next : ChangeFeed Content Parsed} {action : Action Content}
    (track : s.OnTrack gitignore) (faithful : s.Faithful gitignore action)
    (taken : s.step gitignore action = some next) : next.OnTrack gitignore := by
  cases action with
  | op op => exact track.op faithful taken
  | deliver => exact track.deliver taken
  | poll => exact (track.poll faithful taken).1

/--
Along every run of faithful steps, a client that starts in step with the tree, follows every
change and polls once more when all events are delivered holds exactly the tracked files.
-/
theorem poll_converges {start s : ChangeFeed Content Parsed} {actions : List (Action Content)}
    (synced : start.Synced gitignore)
    (faithful : Transition.Along (ChangeFeed.step gitignore) (Faithful gitignore) start
      (actions ++ [.poll]))
    (ran : Transition.run (ChangeFeed.step gitignore) start (actions ++ [.poll]) = some s)
    (drained : s.queue = []) :
    s.known = tracked gitignore s.disk s.watcher.filter.root := by
  -- The run up to the last poll stays on track, and that poll leaves nothing pending.
  obtain ⟨before, ranBefore, last⟩ := Transition.run_append_eq_some.mp ran
  have track : before.OnTrack gitignore :=
    Transition.run_invariant_along (OnTrack gitignore) (fun _ _ _ track met taken =>
      track.step met taken) synced.onTrack faithful.initial ranBefore
  obtain ⟨next, taken, ended⟩ := Transition.run_cons_eq_some.mp last
  simp only [Transition.run_nil, Option.some.injEq] at ended
  subst ended
  obtain ⟨after, current⟩ := track.poll ((faithful.rest ranBefore).cons taken).1 taken
  have water : next.watcher.log.overflowHighWater ≤ next.since := by
    have total := after.formed.current
    omega
  have replays := after.replays water
  rw [current, untold, ChangeLog.pending, after.formed.window_current, inFlight,
    drained] at replays
  simpa [recordsOf, replayKinds, replay] using replays

/-- A project with two files, a watcher that has seen nothing yet, and a client that knows both. -/
def twoFiles : ChangeFeed Unit Unit :=
  let disk : Disk Unit := fun path =>
    if path = ["repo", "a"] ∨ path = ["repo", "b"] then some () else none
  { disk
    queue := []
    watcher :=
      { filter := Filter.new ["repo"]
        log := ChangeLog.withCapacity 64
        parseCache := { capacity := 0, entries := [] } }
    known := tracked { matchedPathOrAnyParents := fun _ _ => .none } disk ["repo"]
    since := 0 }

/-- The client of the two files starts in step with the tree. -/
theorem twoFiles_synced :
    twoFiles.Synced { matchedPathOrAnyParents := fun _ _ => .none } :=
  ⟨Filter.new_coherent _ _, ChangeLog.withCapacity_wellFormed _, rfl, rfl, rfl⟩

/-- One file created and another one deleted, each delivered at once. -/
def createAndDelete : List (Action Unit) :=
  [.op (.create ["repo", "c"] ()), .deliver, .op (.delete ["repo", "a"]), .deliver]

/-- Creating one file and deleting another is followed exactly. -/
theorem poll_converges_create_delete :
    ∃ s, Transition.run (ChangeFeed.step { matchedPathOrAnyParents := fun _ _ => .none }) twoFiles
        (createAndDelete ++ [.poll]) = some s ∧
      s.known = tracked { matchedPathOrAnyParents := fun _ _ => .none } s.disk
        s.watcher.filter.root := by
  have faithful : Transition.Along
      (ChangeFeed.step { matchedPathOrAnyParents := fun _ _ => .none })
      (Faithful { matchedPathOrAnyParents := fun _ _ => .none }) twoFiles
      (createAndDelete ++ [.poll]) := by
    refine ⟨⟨?_, trivial⟩, trivial, ⟨?_, trivial⟩, trivial, ?_, trivial⟩
    · show ["repo", "c"].getLast? ≠ some ".gitignore"
      decide
    · show ["repo", "a"].getLast? ≠ some ".gitignore"
      decide
    -- The only removal in the window is of a path that was not created there.
    intro rel _ suppressed
    obtain ⟨first, last, isFirst, isLast, created, removed⟩ := suppressed
    obtain ⟨member, named⟩ := lastFor_spec _ isLast
    have gone : rel = ["a"] := by
      rcases List.mem_pair.mp member with rfl | rfl
      · cases removed
      · exact named.symm
    subst gone
    cases isFirst
    cases created
  exact ⟨_, rfl, poll_converges twoFiles_synced faithful rfl rfl⟩

/--
A rename over an existing file reports it as created although the client holds it. Removed again
before the next poll, it counts as never seen, and the client keeps a file that is gone.
-/
theorem rename_over_existing_leaves_phantom :
    twoFiles.Synced { matchedPathOrAnyParents := fun _ _ => .none } ∧
    ∃ s, Transition.run (ChangeFeed.step { matchedPathOrAnyParents := fun _ _ => .none }) twoFiles
        [.op (.rename ["repo", "a"] ["repo", "b"] .both), .deliver,
          .op (.delete ["repo", "b"]), .deliver, .poll] = some s ∧
      s.queue = [] ∧ s.known ["b"] = true ∧
      tracked { matchedPathOrAnyParents := fun _ _ => .none } s.disk s.watcher.filter.root ["b"] =
        false :=
  ⟨twoFiles_synced, _, rfl, rfl, by decide, by decide⟩

end ChangeFeed

end McpCli
