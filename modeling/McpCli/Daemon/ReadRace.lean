import McpCli.Daemon.Read
import McpCli.Transition.Run

/-! A reader of a file that is modified, or replaced by another one, with records following. -/

namespace McpCli

/-- The files, the log with the records it still waits for, and one reader. -/
structure ReadRace where
  /-- The file that the path names. -/
  named : Nat
  inodes : List Inode
  log : ChangeLog
  /-- The changes on disk that are not in the log yet. -/
  unrecorded : Nat
  /-- The modification times that have ever been given to a file. -/
  used : List Nat
  reader : ReadPhase

namespace ReadRace

/-- The next thing that happens. -/
inductive Action where
  | read
  /-- The file is given new bytes. -/
  | modify (bytes : List UInt8) (now : Nat)
  /-- Another file takes the place of this one. -/
  | replace (bytes : List UInt8) (now : Nat)
  /-- A change of the file enters the log. -/
  | record (path : RelPath) (kind : ChangeKind)
  /-- An event of something else enters the log. -/
  | observe (path : RelPath) (kind : ChangeKind)
  deriving DecidableEq, Repr

/-- What the reader sees. -/
def view (s : ReadRace) : ReadView := { named := some s.named, inodes := s.inodes, log := s.log }

/-- Take one step, if it is possible. -/
def step (params : FsReadParams) (s : ReadRace) : Action → Option ReadRace
  | .read => (s.reader.next params s.view).map fun reader => { s with reader }
  | .modify bytes now =>
    -- The clock gives no time twice.
    if now ∈ s.used then none
    else
      some
        { s with
          inodes := s.inodes.set s.named { bytes, mtimeNs := now }
          used := now :: s.used
          unrecorded := s.unrecorded + 1 }
  | .replace bytes now =>
    if now ∈ s.used then none
    else
      some
        { s with
          named := s.inodes.length
          inodes := s.inodes ++ [{ bytes, mtimeNs := now }]
          used := now :: s.used
          unrecorded := s.unrecorded + 1 }
  | .record path kind =>
    if s.unrecorded = 0 then none
    else some { s with log := s.log.record path kind, unrecorded := s.unrecorded - 1 }
  -- It does not stand for any of the changes that wait for a record.
  | .observe path kind => some { s with log := s.log.record path kind }

end ReadRace

end McpCli
