import Mathlib.Algebra.Group.Nat.Defs
import McpCli.Daemon.ChangeFeed

/-! The `fs.scan` method, on its own and while files change under its walk. -/

namespace McpCli

/-- What the directory walker yields besides errors. -/
structure DirEntry where
  /-- The path below the project root, which every walk starts at or below. -/
  path : RelPath
  isFile : Bool
  deriving DecidableEq, Repr

/-- A walk under way. -/
structure Walk where
  /-- The cursor captured before the walk started. -/
  version : Nat
  max : Nat
  files : List RelPath
  deriving DecidableEq, Repr

namespace Walk

/-- Capture the cursor, so that a later `fs.changes` reaches everything that lands meanwhile. -/
def start (log : ChangeLog) (maxResults : Option Nat) : Walk :=
  { version := log.snapshot.1, max := maxResults.getD (2 ^ 64 - 1), files := [] }

/-- Take one entry of the walk, or nothing once the cap on the files is reached. -/
def entry (walk : Walk) : Option DirEntry → Option Walk
  | none => some walk
  | some e =>
    if !e.isFile then some walk
    -- The cap is looked at before a file is taken, so a full walk of that many is whole.
    else if walk.max ≤ walk.files.length then none
    else some { walk with files := walk.files ++ [e.path] }

/-- The answer after the walk. -/
def finish (walk : Walk) (truncated : Bool) : FsScanResult :=
  { version := walk.version, files := walk.files, truncated }

/-- Take the entries until there are no more of them or the cap is reached. -/
def entries (walk : Walk) : List (Option DirEntry) → FsScanResult
  | [] => walk.finish false
  | e :: rest =>
    match walk.entry e with
    | none => walk.finish true
    | some walk => entries walk rest

end Walk

/-- The `fs.scan` method, given what the walker yields. -/
def fsScan (log : ChangeLog) (maxResults : Option Nat) (yielded : List (Option DirEntry)) :
    FsScanResult :=
  (Walk.start log maxResults).entries yielded

/-- How far a scan has come. -/
inductive ScanPhase where
  | idle
  /-- Beside the walk, the files that have been there ever since it started. -/
  | walking (walk : Walk) (steady : RelPath → Bool)
  | scanned (result : FsScanResult)

/-- A tree with its watcher, and a client that scans it first and polls it afterwards. -/
structure ScanFeed (Content Parsed : Type) where
  feed : ChangeFeed Content Parsed
  phase : ScanPhase

namespace ScanFeed

variable {Content Parsed : Type}

/-- One thing that can happen next. -/
inductive Action (Content : Type) where
  | op (op : FileOp Content)
  /-- The oldest notification reaches the watcher. -/
  | deliver
  /-- The daemon starts to answer `fs.scan`. -/
  | start (maxResults : Option Nat)
  /-- The walker yields an entry, or an error. -/
  | entry (yielded : Option DirEntry)
  /-- The walker has no more entries. -/
  | finish

/-- Whether a file exists under a name below the project root. -/
def there (s : ScanFeed Content Parsed) (rel : RelPath) : Bool :=
  (s.feed.disk (s.feed.watcher.filter.root ++ rel)).isSome

/-- The client starts from the files of the scan and from its version. -/
def adopt (s : ScanFeed Content Parsed) (result : FsScanResult) : ScanFeed Content Parsed :=
  -- Whatever the client held before is replaced.
  { feed := { s.feed with
      known := fun rel => decide (rel ∈ result.files)
      since := result.version }
    phase := .scanned result }

/-- Of the files of a walk, those that are still there. -/
def outlived (s : ScanFeed Content Parsed) : ScanFeed Content Parsed :=
  match s.phase with
  | .walking walk steady => { s with phase := .walking walk fun rel => steady rel && s.there rel }
  | _ => s

/--
Take one step, if it is possible. The third-party walker yields only files that exist and that
it `lists` under the ignore rules.
-/
def step (gitignore : Gitignore Content) (lists : RelPath → Bool) (s : ScanFeed Content Parsed) :
    Action Content → Option (ScanFeed Content Parsed)
  | .op op => (s.feed.step gitignore (.op op)).map fun feed => { s with feed }.outlived
  | .deliver => (s.feed.step gitignore .deliver).map fun feed => { s with feed }
  | .start maxResults =>
    match s.phase with
    | .idle => some { s with phase := .walking (.start s.feed.watcher.log maxResults) s.there }
    | _ => none
  | .entry yielded =>
    match s.phase with
    | .walking walk steady =>
      if yielded.all fun e => !e.isFile || (lists e.path && s.there e.path) then
        match walk.entry yielded with
        | some walk => some { s with phase := .walking walk steady }
        -- The walk ends at the bound on the results.
        | none => some (s.adopt (walk.finish true))
      else none
    | _ => none
  | .finish =>
    match s.phase with
    | .walking walk _ => some (s.adopt (walk.finish false))
    | _ => none

/-- The files that a scan would list now. -/
def listing (lists : RelPath → Bool) (s : ScanFeed Content Parsed) (rel : RelPath) : Bool :=
  lists rel && s.there rel

end ScanFeed

end McpCli
