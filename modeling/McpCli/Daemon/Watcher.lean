import Mathlib.Data.List.Infix
import Mathlib.Logic.Function.Basic
import McpCli.Daemon.ChangeLog

/-! The filesystem watcher: which paths it keeps, and what it records for each event. -/

namespace McpCli

/--
An absolute path, component by component. The components are texts: of a path with other names, the
log and the scan only show a text that can be the one of other paths as well.
-/
abbrev AbsPath := List String

/-- What remains of a path below a directory. -/
def stripPrefix (dir path : AbsPath) : Option RelPath :=
  if dir <+: path then some (path.drop dir.length) else none

/-- The regular files that exist, each with its contents. -/
abbrev Disk (Content : Type) := AbsPath → Option Content

/-- What a set of ignore rules says about a path. -/
inductive Match where
  | none
  | ignore
  | whitelist
  deriving DecidableEq, Repr

/--
The third-party ignore rules: `matchedPathOrAnyParents rules rel` is the verdict on a path
relative to the directory of the `.gitignore` whose contents are `rules`.
-/
structure Gitignore (Content : Type) where
  matchedPathOrAnyParents : Content → RelPath → Match

/-- The parsed `.gitignore` of each directory looked at so far, `none` standing for no such file. -/
structure Filter (Content : Type) where
  root : AbsPath
  cache : AbsPath → Option (Option Content)

namespace Filter

variable {Content : Type} (gitignore : Gitignore Content) (disk : Disk Content)

/-- A filter that has looked at no directory yet. -/
def new (root : AbsPath) : Filter Content := { root, cache := fun _ => none }

/-- The path below the project root. A path of texts is recorded as it is. -/
def relative (filter : Filter Content) (path : AbsPath) : Option RelPath :=
  stripPrefix filter.root path

/-- Where a directory keeps its own ignore rules. -/
def gitignorePath (dir : AbsPath) : AbsPath := dir ++ [".gitignore"]

/-- The ignore rules of one directory, read from disk on the first request. -/
def gitignoreFor (filter : Filter Content) (dir : AbsPath) : Option Content × Filter Content :=
  match filter.cache dir with
  | some hit => (hit, filter)
  | none =>
    let value := disk (gitignorePath dir)
    (value, { filter with cache := Function.update filter.cache dir (some value) })

/-- Forget the cached rules of one directory. -/
def invalidate (filter : Filter Content) (dir : AbsPath) : Filter Content :=
  { filter with cache := Function.update filter.cache dir none }

/-- The directories from the root down to the parent of a path below it, deepest first. -/
def parentDirs (root : AbsPath) (rel : RelPath) : List AbsPath :=
  (rel.dropLast.inits.map fun below => root ++ below).reverse

/-- Ask the remaining directories in turn until one of them decides. -/
def keepFrom (rel : RelPath) : List AbsPath → Filter Content → Bool × Filter Content
  | [], filter => (true, filter)
  | dir :: rest, filter =>
    let (gi, filter) := filter.gitignoreFor disk dir
    match gi, stripPrefix dir (filter.root ++ rel) with
    | some rules, some relToGi =>
      match gitignore.matchedPathOrAnyParents rules relToGi with
      | .ignore => (false, filter)
      | .whitelist => (true, filter)
      -- Rules without a match leave the path to the next directory.
      | .none => keepFrom rel rest filter
    | _, _ => keepFrom rel rest filter

/-- Whether the path should be kept, with the directories newly looked at. -/
def keep (filter : Filter Content) (path : AbsPath) : Bool × Filter Content :=
  match stripPrefix filter.root path with
  | none => (false, filter)
  | some rel =>
    if rel.head? = some ".git" then (false, filter)
    else keepFrom gitignore disk rel (parentDirs filter.root rel) filter

end Filter

/-- How the platform reports the two halves of a rename. -/
inductive RenameMode where
  | any
  | to
  | from_
  | both
  | other
  deriving DecidableEq, Repr

/-- What a modification touched. -/
inductive ModifyKind where
  | any
  | data
  | metadata
  | name (mode : RenameMode)
  | other
  deriving DecidableEq, Repr

/-- The kind of a filesystem notification. -/
inductive EventKind where
  | any
  | access
  | create
  | modify (kind : ModifyKind)
  | remove
  | other
  deriving DecidableEq, Repr

/-- A filesystem notification. -/
structure Event where
  kind : EventKind
  paths : List AbsPath
  deriving DecidableEq, Repr

/-- The parse results kept in memory, oldest first. -/
structure ParseCache (Parsed : Type) where
  capacity : Nat
  entries : List (AbsPath × Parsed)

/-- Drop the cached parse of a path. -/
def ParseCache.evict {Parsed : Type} (cache : ParseCache Parsed) (path : AbsPath) :
    ParseCache Parsed :=
  if cache.capacity = 0 then cache
  else { cache with entries := cache.entries.eraseP fun e => e.1 = path }

/-- Every path of the event under one change kind. -/
def Event.allAs (event : Event) (kind : ChangeKind) : List (Nat × ChangeKind) :=
  (List.range event.paths.length).map fun i => (i, kind)

/-- Which of the event's paths changed, and how; nothing for events that are not tracked. -/
def Event.kinds (event : Event) : List (Nat × ChangeKind) :=
  match event.kind with
  | .create => event.allAs .created
  | .remove => event.allAs .removed
  | .modify (.name mode) =>
    match mode with
    | .from_ => event.allAs .removed
    | .to => event.allAs .created
    | .both =>
      -- The two paths are the old name and the new one.
      (if event.paths.length ≠ 0 then [(0, ChangeKind.removed)] else []) ++
        (if 2 ≤ event.paths.length then [(1, ChangeKind.created)] else [])
    | _ => event.allAs .modified
  | .modify _ => event.allAs .modified
  | _ => []

/-- Everything a notification can change inside the daemon. -/
structure Watcher (Content Parsed : Type) where
  filter : Filter Content
  log : ChangeLog
  parseCache : ParseCache Parsed

namespace Watcher

variable {Content Parsed : Type} (gitignore : Gitignore Content) (disk : Disk Content)

/-- Handle one changed path of an event. -/
def handlePath (watcher : Watcher Content Parsed) (path : AbsPath) (kind : ChangeKind) :
    Watcher Content Parsed :=
  -- A changed `.gitignore` drops its cached entry before the path itself is judged.
  let filter :=
    if path.getLast? = some ".gitignore" then watcher.filter.invalidate path.dropLast
    else watcher.filter
  let (kept, filter) := filter.keep gitignore disk path
  let watcher := { watcher with filter }
  match kept, filter.relative path with
  | true, some rel =>
    if rel = [] then watcher
    else
      { watcher with
        parseCache := watcher.parseCache.evict path
        log := watcher.log.record rel kind }
  | _, _ => watcher

/-- Turn a notification into log entries. -/
def handleEvent (watcher : Watcher Content Parsed) (event : Event) : Watcher Content Parsed :=
  event.kinds.foldl
    (fun watcher change =>
      match event.paths[change.1]? with
      | none => watcher
      | some path => watcher.handlePath gitignore disk path change.2)
    watcher

end Watcher

end McpCli
