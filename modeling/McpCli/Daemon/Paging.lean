import McpCli.Daemon.Read
import McpCli.Text.Lossy

/-! A client that reads a file page by page, while nobody changes the file. -/

namespace McpCli

/-- What the answer of `fs.read` shows in `content`, unless it is in base64. -/
def FsReadResult.text (result : FsReadResult) : List Char := Text.decodeLossy result.content

/-- `fs_read_inner` on a file that stays as it is, without `strip_noise`. -/
def Inode.fsRead (inode : Inode) (file version : Nat) (params : FsReadParams) : FsReadResult :=
  let head : ReadHead :=
    { file, totalSize := inode.bytes.length, mtimeNs := inode.mtimeNs, version }
  -- An empty file cannot be mapped.
  if head.totalSize = 0 then head.result params []
  else
    let (start, stop) := params.range head.totalSize
    head.result params ((inode.bytes.drop start).take (stop - start))

/-- The pages that a client reads, with their offsets, until one is not truncated. -/
def readPages (read : FsReadParams → FsReadResult) (params : FsReadParams) :
    Nat → Option (List (Nat × FsReadResult))
  | 0 => none
  | fuel + 1 =>
    let result := read params
    -- The next page begins where this one ended.
    if result.truncated then
      (readPages read { params with offset := params.offset + result.bytesRead } fuel).map
        ((params.offset, result) :: ·)
    else some [(params.offset, result)]

end McpCli
