import McpCli.Daemon.Handlers

/-! The `fs.read` method step by step, while others may change the file. -/

namespace McpCli

/-- How many bytes are read when the request names no length. -/
def fsReadDefaultLimit : Nat := 256 * 1024

/-- The size of a memory page. -/
def pageSize : Nat := 4096

/-- A regular file, whatever path names it. -/
structure Inode where
  bytes : List UInt8
  mtimeNs : Nat
  deriving DecidableEq, Repr

/-- What a reader can see: the file behind the resolved path, all files by number, and the log. -/
structure ReadView where
  named : Option Nat
  inodes : List Inode
  log : ChangeLog

/-- The first byte that a request asks for, and the one behind the last, in a file of this size. -/
def FsReadParams.range (params : FsReadParams) (totalSize : Nat) : Nat × Nat :=
  let offset := min params.offset totalSize
  let remaining := totalSize - offset
  let limit := min (params.length.getD fsReadDefaultLimit) remaining
  (offset, offset + limit)

/-- What a reader knows of the file before it maps it. -/
structure ReadHead where
  file : Nat
  totalSize : Nat
  mtimeNs : Nat
  version : Nat
  deriving DecidableEq, Repr

/-- The answer with these bytes. -/
def ReadHead.result (head : ReadHead) (params : FsReadParams) (content : List UInt8) :
    FsReadResult :=
  -- The range is cut to the size that the stat has found, whatever the size is by now.
  let (start, stop) := params.range head.totalSize
  { path := params.path
    version := head.version
    mtimeNs := head.mtimeNs
    bytesRead := stop - start
    totalSize := head.totalSize
    content
    encoding := if params.binary then "base64" else "utf8_lossy"
    truncated := stop < head.totalSize }

/-- How far a reader has come. -/
inductive ReadPhase where
  | arrived
  | opened (file : Nat)
  | statted (file totalSize mtimeNs : Nat)
  /-- It has taken its snapshot of the log. -/
  | observed (head : ReadHead)
  /-- It has mapped as many bytes as the file had. -/
  | mapped (head : ReadHead) (length : Nat)
  | copying (head : ReadHead) (copied : List UInt8)
  | returned (result : FsReadResult)
  | failed (error : RpcError)
  /-- It has sliced past the end of the mapping. -/
  | panicked
  /-- It has touched a page that is no longer part of the file. -/
  | killed
  deriving DecidableEq, Repr

/-- What a mapping shows at a position, if the page is still part of the file. -/
def Inode.peek (inode : Inode) (position : Nat) : Option UInt8 :=
  match inode.bytes[position]? with
  | some byte => some byte
  | none =>
    -- The last page is filled up with zeros.
    if position / pageSize * pageSize < inode.bytes.length then some 0 else none

/-- The next step of a reader, if there is one. -/
def ReadPhase.next (params : FsReadParams) (view : ReadView) : ReadPhase → Option ReadPhase
  | .arrived =>
    match view.named with
    | none => some (.failed { code := -32010, message := "open: " ++ notFound })
    | some file => some (.opened file)
  | .opened file =>
    view.inodes[file]?.map fun inode => .statted file inode.bytes.length inode.mtimeNs
  | .statted file totalSize mtimeNs =>
    some (.observed { file, totalSize, mtimeNs, version := view.log.snapshot.1 })
  | .observed head =>
    -- An empty file is not mapped.
    if head.totalSize = 0 then some (.returned (head.result params []))
    else view.inodes[head.file]?.map fun inode => .mapped head inode.bytes.length
  | .mapped head length =>
    -- The slice of a map that is too short panics.
    if (params.range head.totalSize).2 ≤ length then some (.copying head []) else some .panicked
  | .copying head copied =>
    let (start, stop) := params.range head.totalSize
    if start + copied.length < stop then
      view.inodes[head.file]?.map fun inode =>
        match inode.peek (start + copied.length) with
        | some byte => .copying head (copied ++ [byte])
        -- The page behind the map is gone.
        | none => .killed
    else some (.returned (head.result params copied))
  | .returned _ | .failed _ | .panicked | .killed => none

end McpCli
