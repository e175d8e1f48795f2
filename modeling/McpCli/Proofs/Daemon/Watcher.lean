import McpCli.Daemon.Watcher
import McpCli.Proofs.Daemon.ChangeLog

/-! A filter whose cache matches the disk answers as an empty one, and fixes what is recorded. -/

namespace McpCli

variable {Content Parsed : Type} {gitignore : Gitignore Content} {disk : Disk Content}

/-- What is left below a directory is exactly what was appended to it. -/
theorem stripPrefix_eq_some {dir path : AbsPath} {rel : RelPath} :
    stripPrefix dir path = some rel ↔ path = dir ++ rel := by
  unfold stripPrefix
  constructor
  · -- A path that is not below the directory has no remainder.
    intro stripped
    split at stripped
    · rename_i below
      simp only [Option.some.injEq] at stripped
      rw [← stripped, List.prefix_iff_eq_append.mp below]
    · simp at stripped
  · intro same
    subst same
    simp

namespace Filter

/-- The verdict on a path when every `.gitignore` is read afresh. -/
def freshFrom (gitignore : Gitignore Content) (disk : Disk Content) (root : AbsPath)
    (rel : RelPath) : List AbsPath → Bool
  -- The first directory whose rules are decisive settles the matter.
  | [] => true
  | dir :: rest =>
    match disk (gitignorePath dir), stripPrefix dir (root ++ rel) with
    | some rules, some relToGi =>
      match gitignore.matchedPathOrAnyParents rules relToGi with
      | .ignore => false
      | .whitelist => true
      | .none => freshFrom gitignore disk root rel rest
    | _, _ => freshFrom gitignore disk root rel rest

/-- Whether a path is kept, judged by the ignore files as they are on disk now. -/
def keepsFresh (gitignore : Gitignore Content) (disk : Disk Content) (root path : AbsPath) :
    Bool :=
  -- Paths outside the root and inside `.git` are never kept.
  match stripPrefix root path with
  | none => false
  | some rel =>
    if rel.head? = some ".git" then false
    else freshFrom gitignore disk root rel (parentDirs root rel)

/-- Every cached verdict about a directory matches what its `.gitignore` holds now. -/
def Coherent (filter : Filter Content) (disk : Disk Content) : Prop :=
  -- A directory without a cache entry is read from disk when it is needed.
  ∀ dir value, filter.cache dir = some value → value = disk (gitignorePath dir)

/-- A filter that has looked at nothing cannot be out of date. -/
theorem new_coherent (root : AbsPath) (disk : Disk Content) : (new root).Coherent disk := by
  intro dir value cached
  simp [new] at cached

/-- Forgetting a directory keeps the other cached verdicts right. -/
theorem Coherent.invalidate {filter : Filter Content} (coherent : filter.Coherent disk)
    (dir : AbsPath) : (filter.invalidate dir).Coherent disk := by
  intro other value cached
  simp only [Filter.invalidate] at cached
  -- Of the directory itself nothing is cached any more.
  by_cases same : other = dir
  · subst same
    simp at cached
  · rw [Function.update_of_ne same] at cached
    exact coherent other value cached

/-- A lookup answers what is on disk, and remembers only that. -/
theorem Coherent.gitignoreFor {filter : Filter Content} (coherent : filter.Coherent disk)
    (dir : AbsPath) :
    (filter.gitignoreFor disk dir).1 = disk (gitignorePath dir) ∧
      (filter.gitignoreFor disk dir).2.Coherent disk ∧
      (filter.gitignoreFor disk dir).2.root = filter.root := by
  unfold Filter.gitignoreFor
  cases cached : filter.cache dir with
  | some hit => exact ⟨coherent dir hit cached, coherent, rfl⟩
  | none =>
    -- The new entry is the value just read, and no other entry moved.
    refine ⟨rfl, ?_, rfl⟩
    intro other value found
    by_cases same : other = dir
    · subst same
      simp only [Function.update_self, Option.some.injEq] at found
      exact found.symm
    · simp only [Function.update_of_ne same] at found
      exact coherent other value found

/-- Walking the directories through a coherent cache gives the fresh verdict. -/
theorem Coherent.keepFrom (gitignore : Gitignore Content) {filter : Filter Content}
    (coherent : filter.Coherent disk) (rel : RelPath) (dirs : List AbsPath) :
    (keepFrom gitignore disk rel dirs filter).1 =
        freshFrom gitignore disk filter.root rel dirs ∧
      (keepFrom gitignore disk rel dirs filter).2.Coherent disk ∧
      (keepFrom gitignore disk rel dirs filter).2.root = filter.root := by
  -- Each lookup leaves a coherent filter for the directories still to ask.
  induction dirs generalizing filter with
  | nil => exact ⟨rfl, coherent, rfl⟩
  | cons dir rest ih =>
    obtain ⟨answer, after, root⟩ := coherent.gitignoreFor dir
    have later := ih after
    rw [root] at later
    simp only [Filter.keepFrom, freshFrom, answer, root]
    cases disk (gitignorePath dir) with
    | none => exact later
    | some rules =>
      cases stripPrefix dir (filter.root ++ rel) with
      | none => exact later
      | some relToGi =>
        simp only
        cases gitignore.matchedPathOrAnyParents rules relToGi with
        | ignore => exact ⟨rfl, after, root⟩
        | whitelist => exact ⟨rfl, after, root⟩
        | none => exact later

/-- A coherent cache keeps exactly the paths that a fresh filter keeps, and stays coherent. -/
theorem Coherent.keep (gitignore : Gitignore Content) {filter : Filter Content}
    (coherent : filter.Coherent disk) (path : AbsPath) :
    (filter.keep gitignore disk path).1 = keepsFresh gitignore disk filter.root path ∧
      (filter.keep gitignore disk path).2.Coherent disk ∧
      (filter.keep gitignore disk path).2.root = filter.root := by
  unfold Filter.keep keepsFresh
  -- Outside the root and inside `.git` nothing is kept, and no rules are read.
  cases stripPrefix filter.root path with
  | none => exact ⟨rfl, coherent, rfl⟩
  | some rel =>
    simp only
    split
    · exact ⟨rfl, coherent, rfl⟩
    · exact coherent.keepFrom gitignore rel _

/-- The fresh verdict looks at nothing on disk but the ignore files. -/
theorem keepsFresh_congr (gitignore : Gitignore Content) {other : Disk Content}
    (same : ∀ dir, disk (gitignorePath dir) = other (gitignorePath dir)) (root path : AbsPath) :
    keepsFresh gitignore disk root path = keepsFresh gitignore other root path := by
  -- The walk reads the same rules in every directory it asks.
  have walk : ∀ rel dirs, freshFrom gitignore disk root rel dirs =
      freshFrom gitignore other root rel dirs := by
    intro rel dirs
    induction dirs with
    | nil => rfl
    | cons dir rest ih => simp only [freshFrom, same, ih]
  simp only [keepsFresh, walk]

end Filter

/-- The name under which the log tracks a path, if it tracks it at all. -/
def trackedName (gitignore : Gitignore Content) (disk : Disk Content) (root path : AbsPath) :
    Option RelPath :=
  -- The root itself has no name below the root.
  if Filter.keepsFresh gitignore disk root path then
    (stripPrefix root path).filter fun rel => rel ≠ []
  else none

/-- Of a set of paths, those the log tracks, under their names. -/
def visible (gitignore : Gitignore Content) (disk : Disk Content) (root : AbsPath)
    (paths : AbsPath → Bool) (rel : RelPath) : Bool :=
  -- The root itself has no name, and ignored paths are never shown.
  paths (root ++ rel) && decide (rel ≠ []) &&
    Filter.keepsFresh gitignore disk root (root ++ rel)

/-- The existing files whose changes the log reports. -/
def tracked (gitignore : Gitignore Content) (disk : Disk Content) (root : AbsPath) :
    RelPath → Bool :=
  -- A file is tracked when it exists and the filter keeps its path.
  visible gitignore disk root fun path => (disk path).isSome

/-- A path is tracked under a name exactly when that name is its kept remainder. -/
theorem trackedName_eq_some {root path : AbsPath} {rel : RelPath} :
    trackedName gitignore disk root path = some rel ↔
      path = root ++ rel ∧ rel ≠ [] ∧ Filter.keepsFresh gitignore disk root path = true := by
  unfold trackedName
  split
  · rename_i kept
    simp [Option.filter_eq_some_iff, stripPrefix_eq_some, kept]
  · rename_i ignored
    simp [ignored]

/-- The paths an event speaks about, with what it says about each. -/
def Event.changes (event : Event) : List (AbsPath × ChangeKind) :=
  -- An index without a path is passed over.
  event.kinds.filterMap fun change => event.paths[change.1]?.map fun path => (path, change.2)

/-- What the log is told about a list of changed paths. -/
def recordsOf (gitignore : Gitignore Content) (disk : Disk Content) (root : AbsPath)
    (changes : List (AbsPath × ChangeKind)) : List (RelPath × ChangeKind) :=
  -- Untracked paths leave no record.
  changes.filterMap fun change =>
    (trackedName gitignore disk root change.1).map fun rel => (rel, change.2)

/-- Enter records in the log one after another. -/
def ChangeLog.recordAll (log : ChangeLog) (records : List (RelPath × ChangeKind)) : ChangeLog :=
  -- The order of the records is the order of their versions.
  records.foldl (fun log change => log.record change.1 change.2) log

namespace Watcher

/-- One changed path adds its record and leaves the filter coherent. -/
theorem handlePath_spec (gitignore : Gitignore Content) {watcher : Watcher Content Parsed}
    (coherent : watcher.filter.Coherent disk) (path : AbsPath) (kind : ChangeKind) :
    (watcher.handlePath gitignore disk path kind).log =
        watcher.log.recordAll (recordsOf gitignore disk watcher.filter.root [(path, kind)]) ∧
      (watcher.handlePath gitignore disk path kind).filter.Coherent disk ∧
      (watcher.handlePath gitignore disk path kind).filter.root = watcher.filter.root := by
  -- Invalidating first changes neither the root nor the coherence of the filter.
  let start := if path.getLast? = some ".gitignore" then
    watcher.filter.invalidate path.dropLast else watcher.filter
  have fresh : start.Coherent disk ∧ start.root = watcher.filter.root := by
    simp only [start]
    split
    · exact ⟨coherent.invalidate _, rfl⟩
    · exact ⟨coherent, rfl⟩
  obtain ⟨answer, after, root⟩ := fresh.1.keep gitignore path
  rw [fresh.2] at answer root
  have split : recordsOf gitignore disk watcher.filter.root [(path, kind)] =
      ((trackedName gitignore disk watcher.filter.root path).map
        fun rel => (rel, kind)).toList := by
    cases name : trackedName gitignore disk watcher.filter.root path <;> simp [recordsOf, name]
  rw [split]
  simp only [handlePath, Filter.relative, trackedName, ChangeLog.recordAll]
  simp only [start] at answer after root
  rw [answer, root]
  cases Filter.keepsFresh gitignore disk watcher.filter.root path with
  | false => exact ⟨rfl, after, root⟩
  | true =>
    cases stripPrefix watcher.filter.root path with
    | none => exact ⟨rfl, after, root⟩
    | some rel =>
      by_cases top : rel = []
      · subst top
        exact ⟨rfl, after, root⟩
      · simp only [top, if_false]
        exact ⟨by simp [top, Option.filter], after, root⟩

/-- An event adds the records of its changed paths, in order. -/
theorem handleEvent_spec (gitignore : Gitignore Content) {watcher : Watcher Content Parsed}
    (coherent : watcher.filter.Coherent disk) (event : Event) :
    (watcher.handleEvent gitignore disk event).log =
        watcher.log.recordAll (recordsOf gitignore disk watcher.filter.root event.changes) ∧
      (watcher.handleEvent gitignore disk event).filter.Coherent disk ∧
      (watcher.handleEvent gitignore disk event).filter.root = watcher.filter.root := by
  -- The loop handles one change after another, each from the watcher the previous one left.
  unfold handleEvent Event.changes
  induction event.kinds generalizing watcher with
  | nil => exact ⟨rfl, coherent, rfl⟩
  | cons change rest ih =>
    rw [List.foldl_cons, List.filterMap_cons]
    cases named : event.paths[change.1]? with
    | none => simpa using ih coherent
    | some path =>
      obtain ⟨log, after, root⟩ := handlePath_spec gitignore coherent path change.2
      have later := ih after
      rw [log, root] at later
      simp only [Option.map_some]
      refine ⟨?_, later.2⟩
      rw [later.1]
      simp only [ChangeLog.recordAll, recordsOf, List.filterMap_cons, List.filterMap_nil]
      cases trackedName gitignore disk watcher.filter.root path <;> rfl

end Watcher

end McpCli
