import McpCli.Daemon.Watcher
import McpCli.Journal.Keyed
import McpCli.Transition.Run

/-! A client that follows the tree by polling `fs.changes` while files change underneath. -/

namespace McpCli

/-- The notifications a platform may send for one rename. -/
inductive RenameDelivery where
  /-- The old name and the new name, as two events. -/
  | fromTo
  /-- One event with both names. -/
  | both
  /-- The two halves, and then both names once more. -/
  | fromToBoth
  /-- Two events that do not say which half they are. -/
  | any
  /-- One event with both names that does not say what became of either. -/
  | anyPair
  deriving DecidableEq, Repr

/-- Something that happens to a file. -/
inductive FileOp (Content : Type) where
  | create (path : AbsPath) (content : Content)
  | modify (path : AbsPath) (content : Content)
  | delete (path : AbsPath)
  | rename (source target : AbsPath) (delivery : RenameDelivery)

namespace FileOp

variable {Content : Type}

/-- What the operation does to the disk, if it is possible there. -/
def apply (op : FileOp Content) (disk : Disk Content) : Option (Disk Content) :=
  match op with
  | .create path content =>
    if (disk path).isNone then some (Function.update disk path (some content)) else none
  | .modify path content =>
    if (disk path).isSome then some (Function.update disk path (some content)) else none
  | .delete path => if (disk path).isSome then some (Function.update disk path none) else none
  | .rename source target _ =>
    -- A rename onto an existing file replaces it, and a rename onto itself does nothing.
    match disk source with
    | none => none
    | some content =>
      if source = target then none
      else some (Function.update (Function.update disk source none) target (some content))

/-- The notifications the operation gives rise to, in order. -/
def events : FileOp Content → List Event
  | .create path _ => [{ kind := .create, paths := [path] }]
  | .modify path _ => [{ kind := .modify .data, paths := [path] }]
  | .delete path => [{ kind := .remove, paths := [path] }]
  | .rename source target delivery =>
    let half mode path : Event := { kind := .modify (.name mode), paths := [path] }
    let whole mode : Event := { kind := .modify (.name mode), paths := [source, target] }
    match delivery with
    | .fromTo => [half .from_ source, half .to target]
    | .both => [whole .both]
    -- The two halves of the move, and the pair that is made of them.
    | .fromToBoth => [half .from_ source, half .to target, whole .both]
    | .any => [half .any source, half .any target]
    | .anyPair => [whole .any]

end FileOp

/-- Created and modified files are there, removed ones are not. -/
def ChangeKind.present : ChangeKind → Bool
  | .created => true
  | .modified => true
  | .removed => false

/-- What a client holds after applying returned entries in order. -/
def applyChanges (known : RelPath → Bool) (changes : List ChangeEntry) : RelPath → Bool :=
  Journal.replay ChangeEntry.path (fun e => e.kind.present) known changes

/-- The disk, the notifications on their way, the daemon's watcher and the client. -/
structure ChangeFeed (Content Parsed : Type) where
  disk : Disk Content
  queue : List Event
  watcher : Watcher Content Parsed
  /-- The files the client believes to exist. -/
  known : RelPath → Bool
  /-- The version the client was last told. -/
  since : Nat

namespace ChangeFeed

variable {Content Parsed : Type}

/-- One thing that can happen next. -/
inductive Action (Content : Type) where
  | op (op : FileOp Content)
  /-- The oldest notification reaches the watcher. -/
  | deliver
  /-- The client polls, and is not told that it overflowed. -/
  | poll

/-- Take one step, if it is possible. -/
def step (gitignore : Gitignore Content) (s : ChangeFeed Content Parsed) :
    Action Content → Option (ChangeFeed Content Parsed)
  | .op op => (op.apply s.disk).map fun disk => { s with disk, queue := s.queue ++ op.events }
  | .deliver =>
    match s.queue with
    | [] => none
    | event :: queue =>
      -- The rules are read from the disk as it is by now, not as it was at the operation.
      some { s with queue, watcher := s.watcher.handleEvent gitignore s.disk event }
  | .poll =>
    let result := s.watcher.log.fsChanges s.since
    if result.overflowed then none
    else some { s with known := applyChanges s.known result.changes, since := result.version }

end ChangeFeed

end McpCli
