import McpCli.Protocol.Messages
import McpCli.Text.Lines

/-! The `fs.read_skeleton` method: a file with the bodies of its declarations folded away. -/

namespace McpCli

/-- Entries are ordered by their first byte, and then by their last one. -/
def CodeOutlineEntry.before (entry other : CodeOutlineEntry) : Bool :=
  entry.startByte < other.startByte ||
    entry.startByte = other.startByte && entry.endByte ≤ other.endByte

/-- Of entries behind each other that take the same bytes, only the first one is kept. -/
def dedupByBytes : List CodeOutlineEntry → List CodeOutlineEntry
  | [] => []
  | entry :: entries =>
    match dedupByBytes entries with
    | [] => [entry]
    | next :: others =>
      -- The later one of the two goes.
      if entry.startByte = next.startByte ∧ entry.endByte = next.endByte then entry :: others
      else entry :: next :: others

/-- The end of `outline`: what the query captured, sorted and without doubles. -/
def sortedOutline (captured : List CodeOutlineEntry) : List CodeOutlineEntry :=
  dedupByBytes (captured.mergeSort CodeOutlineEntry.before)

/-- The lines of a file, each with its end, if it has one. -/
def skeletonLines (content : List Char) : List (List Char) :=
  let lines := (Text.lines content).map fun line => line ++ ['\n']
  -- A last line without an end gets none.
  if content.getLast? = some '\n' then lines
  else lines.dropLast ++ (lines.getLast?.map List.dropLast).toList

/-- The target is the entry, or it lies in it. -/
def FsReadSkeletonParams.keep (params : FsReadSkeletonParams) (entry : CodeOutlineEntry) : Bool :=
  params.targetSymbol = some entry.name ||
    params.targetLine.any fun line => entry.startLine ≤ line && line ≤ entry.endLine

/-- What is reported of an entry whose body is elided. -/
def CodeOutlineEntry.region (entry : CodeOutlineEntry) : SkeletonElidedRegion where
  symbol := entry.name
  startLine := entry.startLine + 1
  endLine := entry.endLine
  lines := entry.endLine - entry.startLine

/-- The line that stands in the place of a region. -/
def SkeletonElidedRegion.marker (region : SkeletonElidedRegion) : List Char :=
  let removed := region.lines
  let name := region.symbol
  s!"// ... {removed} lines elided from {name} ...\n".toList

section

variable {Line : Type}

/-- One pass of the loop, on the lines and the regions that the passes before have left. -/
def elideEntry (marker : SkeletonElidedRegion → Line) (params : FsReadSkeletonParams)
    (entry : CodeOutlineEntry) :
    List Line × List SkeletonElidedRegion → List Line × List SkeletonElidedRegion
  | (lines, elided) =>
    if params.keep entry ∨ entry.endLine ≤ entry.startLine + 2 then (lines, elided)
    else
      let start := entry.startLine
      let stop := entry.endLine
      if stop ≤ start ∨ lines.length < stop then (lines, elided)
      else
        -- The lines may not be where they were in the file any more.
        (lines.take start ++ marker entry.region :: lines.drop stop, entry.region :: elided)

/-- The loop, which goes through the entries from the last one to the first. -/
def elide (marker : SkeletonElidedRegion → Line) (params : FsReadSkeletonParams)
    (lines : List Line) :
    List CodeOutlineEntry → List Line × List SkeletonElidedRegion
  | [] => (lines, [])
  | entry :: behind => elideEntry marker params entry (elide marker params lines behind)

end

/-- `fs_read_skeleton`, when the outline and the file are read or cannot be. -/
def fsReadSkeleton (outline : Except RpcError CodeOutlineResult) (resolved : Except RpcError Unit)
    (read : Except String (List Char)) (params : FsReadSkeletonParams) :
    Except RpcError FsReadSkeletonResult :=
  match outline, resolved, read with
  -- The outline is asked for before the file is read once more.
  | .error error, _, _ => .error error
  | .ok _, .error error, _ => .error error
  | .ok _, .ok _, .error e => .error { code := -32080, message := s!"read: {e}" }
  | .ok outline, .ok _, .ok content =>
    let (lines, elided) :=
      elide SkeletonElidedRegion.marker params (skeletonLines content) outline.entries
    .ok {
      path := params.path
      language := outline.language
      content := lines.flatten
      elidedRegions := elided }

end McpCli
