import McpCli.Daemon.Read
import McpCli.Transition.Run

/-! A reader of a file that the daemon itself is writing. -/

namespace McpCli

/-- The file, the write that is under way, and one reader. -/
structure TornRead where
  /-- What the file holds, which is a part of the new contents while it is written. -/
  bytes : List UInt8
  /-- The contents that are being written, if any are. -/
  writing : Option (List UInt8)
  /-- The contents that the file has had as a whole, most recent first. -/
  complete : List (List UInt8)
  log : ChangeLog
  reader : ReadPhase

namespace TornRead

/-- The next thing that happens. -/
inductive Action where
  | read
  /-- A handler opens the file for new contents, which empties it. -/
  | truncate (new : List UInt8)
  /-- The handler writes some of the bytes that are still missing. -/
  | put (count : Nat)
  deriving DecidableEq, Repr

/-- What the reader sees: one file, whose modification time plays no part. -/
def view (s : TornRead) : ReadView :=
  { named := some 0, inodes := [{ bytes := s.bytes, mtimeNs := 0 }], log := s.log }

/-- Give the file so many bytes of the new contents, with which the write may be complete. -/
def fill (s : TornRead) (new : List UInt8) (count : Nat) : TornRead :=
  -- The write is over when the last byte is in the file.
  if new.length ≤ count then
    { s with bytes := new, writing := none, complete := new :: s.complete }
  else { s with bytes := new.take count, writing := some new }

/-- Take one step, if it is possible. -/
def step (params : FsReadParams) (s : TornRead) : Action → Option TornRead
  | .read => (s.reader.next params s.view).map fun reader => { s with reader }
  | .truncate new =>
    match s.writing with
    | some _ => none
    -- Opening truncates the file, and for empty contents that is the whole write.
    | none => some (s.fill new 0)
  | .put count =>
    match s.writing with
    | none => none
    -- The bytes of the file so far are the first ones of the new contents.
    | some new => some (s.fill new (s.bytes.length + count))

end TornRead

end McpCli
