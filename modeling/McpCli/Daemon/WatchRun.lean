import McpCli.Daemon.Watcher
import McpCli.Transition.Run

/-! Operations below the root, and the watcher to which each of them is reported. -/

namespace McpCli

/-- The paths that the loop over an event gets to see. -/
def Event.handled (event : Event) : List AbsPath :=
  event.kinds.filterMap fun change => event.paths[change.1]?

/-- Something that happens to files and directories. -/
inductive FsOp (Content : Type) where
  /-- A file is created or edited. -/
  | write (path : AbsPath) (content : Content)
  | remove (path : AbsPath)
  /-- An empty directory is created or deleted. -/
  | directory (path : AbsPath)
  /-- A file or a directory gets another path, with all that is in it. -/
  | rename (source target : AbsPath)

namespace FsOp

variable {Content : Type}

/-- The paths that are reported. -/
def paths : FsOp Content → List AbsPath
  | write path _ | remove path | directory path => [path]
  | rename source target => [source, target]

/-- No directory can get a path in itself. -/
def Possible : FsOp Content → Prop
  | rename source target => ¬ source <+: target
  | _ => True

instance (op : FsOp Content) : Decidable op.Possible := by
  cases op <;> unfold Possible <;> infer_instance

/-- The files afterwards. -/
def apply (disk : Disk Content) : FsOp Content → Disk Content
  | write path content => Function.update disk path (some content)
  | remove path => Function.update disk path none
  | directory _ => disk
  | rename source target => fun path =>
    match stripPrefix target path with
    | some rest => disk (source ++ rest)
    | none => if source <+: path then none else disk path

/-- The events that are made of an operation name its paths, and each of them. -/
def Reported (op : FsOp Content) (events : List Event) : Prop :=
  (∀ path ∈ op.paths, ∃ event ∈ events, path ∈ event.handled) ∧
    ∀ event ∈ events, ∀ path ∈ event.paths, path ∈ op.paths

instance (op : FsOp Content) (events : List Event) : Decidable (op.Reported events) :=
  decidable_of_iff
    ((op.paths.all fun path => events.any fun event => event.handled.contains path) = true ∧
      (events.all fun event => event.paths.all fun path => op.paths.contains path) = true)
    (by simp [Reported])

end FsOp

/-- The files, the watcher, and the events that it has not got yet. -/
structure WatchRun (Content Parsed : Type) where
  disk : Disk Content
  watcher : Watcher Content Parsed
  pending : List Event

namespace WatchRun

variable {Content Parsed : Type}

/-- The next thing that happens. -/
inductive Action (Content : Type) where
  | operate (op : FsOp Content) (events : List Event)
  /-- The watcher gets the oldest event. -/
  | deliver
  /-- Somebody asks whether a path is kept. -/
  | query (path : AbsPath)

/-- Take one step, if it is possible. -/
def step (gitignore : Gitignore Content) (s : WatchRun Content Parsed) :
    Action Content → Option (WatchRun Content Parsed)
  | .operate op events =>
    if op.Possible ∧ op.Reported events then
      some { s with disk := op.apply s.disk, pending := s.pending ++ events }
    else none
  | .deliver =>
    match s.pending with
    | [] => none
    | event :: rest =>
      some { s with watcher := s.watcher.handleEvent gitignore s.disk event, pending := rest }
  | .query path =>
    -- The rules that are read on the way stay in the cache.
    let filter := (s.watcher.filter.keep gitignore s.disk path).2
    some { s with watcher := { s.watcher with filter } }

end WatchRun

end McpCli
