import McpCli.Bytes.Base64
import McpCli.Daemon.Paging
import McpCli.Daemon.StripNoise

/-! What `fs.read` answers: the bytes as a text or in base64, and the noise in a text elided. -/

namespace McpCli

/-- The answer of `fs.read` with its content as the client gets it. -/
structure FsReadAnswer where
  path : RelPath
  version : Nat
  mtimeNs : Nat
  bytesRead : Nat
  totalSize : Nat
  content : List Char
  encoding : String
  truncated : Bool
  strippedRegions : List StrippedRegion
  deriving DecidableEq, Repr

/-- The content of an answer before any noise is elided. -/
def FsReadResult.shown (result : FsReadResult) (params : FsReadParams) : List Char :=
  if params.binary then Bytes.encodeBase64 result.content else result.text

/-- An answer with the bytes that were read. -/
def FsReadResult.answer (result : FsReadResult) (params : FsReadParams) (strip : Bool) :
    FsReadAnswer :=
  let content := result.shown params
  -- Only a text that is shown from its first byte on is looked through for noise.
  let stripped : StripResult :=
    if strip && !params.binary && params.offset == 0 && result.totalSize != 0 then
      stripNoise content
    else { content, regions := [] }
  { path := result.path, version := result.version, mtimeNs := result.mtimeNs,
    bytesRead := result.bytesRead, totalSize := result.totalSize, content := stripped.content,
    encoding := result.encoding, truncated := result.truncated,
    strippedRegions := stripped.regions }

/-- `fs_read_inner` on a file that stays as it is. -/
def Inode.fsReadAnswer (inode : Inode) (file version : Nat) (params : FsReadParams)
    (strip : Bool) : FsReadAnswer :=
  (inode.fsRead file version params).answer params strip

/-- The answers that a client gets page by page, until one is not truncated. -/
def readAnswers (read : FsReadParams → FsReadAnswer) (params : FsReadParams) :
    Nat → Option (List FsReadAnswer)
  | 0 => none
  | fuel + 1 =>
    let answer := read params
    if answer.truncated then
      (readAnswers read { params with offset := params.offset + answer.bytesRead } fuel).map
        (answer :: ·)
    else some [answer]

end McpCli
