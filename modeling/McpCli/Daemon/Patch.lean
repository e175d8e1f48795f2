import McpCli.Protocol.Messages
import McpCli.Text.Lines
import McpCli.Text.Words

/-! Applying a unified diff to the contents of a file. -/

namespace McpCli

open Text

/-- How a handler can fail. -/
inductive HandlerFault where
  | rpc (error : RpcError)
  /-- The handler panics. -/
  | panic
  deriving DecidableEq, Repr

/-- The error of a patch that does not apply. -/
def patchError (message : String) : RpcError := { code := -32084, message }

/-- Where the old side of a hunk starts, and how many lines it has. -/
def parseHunkHeader (header : List Char) : Except RpcError (Nat × Nat) :=
  match (splitWhitespace header).find? fun part => part.head? = some '-' with
  | none => .error (patchError "invalid patch hunk header")
  | some old =>
    -- The new side, which is the word behind this one, is not read.
    let parts := (old.dropWhile fun c => c = '-').splitOn ','
    match parts[0]?.bind parseUsize with
    | none => .error (patchError "invalid patch old start")
    -- A count that is missing or unreadable is one.
    | some start => .ok (start, (parts[1]?.bind parseUsize).getD 1)

/-- What has been written so far, and how far the original has been read. -/
structure PatchState where
  output : List Char
  originalIdx : Nat
  sawHunk : Bool
  deriving DecidableEq, Repr

/-- Whether a line of the patch begins with the given characters. -/
def startsWith (line : List Char) (beginning : String) : Bool :=
  beginning.toList.isPrefixOf line

/-- The lines from one index up to another, which must be in order and not beyond the last line. -/
def sliceLines (lines : List (List Char)) (start stop : Nat) : Option (List (List Char)) :=
  if start ≤ stop ∧ stop ≤ lines.length then some ((lines.take stop).drop start) else none

/-- Copy the original up to where a hunk starts. -/
def enterHunk (originalLines : List (List Char)) (header : List Char) (st : PatchState) :
    Except HandlerFault PatchState :=
  match parseHunkHeader header with
  | .error error => .error (.rpc error)
  | .ok (oldStart, _) =>
    -- Hunks count lines from one, and an empty old side may count from zero.
    let hunkStart := oldStart - 1
    if hunkStart < st.originalIdx ∨ originalLines.length < hunkStart then
      .error (.rpc (patchError "patch hunk starts outside file"))
    else
      match sliceLines originalLines st.originalIdx hunkStart with
      | none => .error .panic
      | some skipped =>
        .ok { output := st.output ++ skipped.flatten, originalIdx := hunkStart, sawHunk := true }

/-- Apply one line of a hunk. -/
def applyHunkLine (originalLines : List (List Char)) (hunkLine : List Char) (st : PatchState) :
    Except HandlerFault PatchState :=
  match hunkLine with
  | [] => .error .panic
  | tag :: content =>
    -- The line is split behind its first byte, which must be a character of its own.
    if tag.utf8Size ≠ 1 then .error .panic
    else if tag = ' ' then
      match originalLines[st.originalIdx]? with
      | none => .error (.rpc (patchError "patch context extends beyond file"))
      | some current =>
        if current ≠ content then .error (.rpc (patchError "patch context mismatch"))
        else .ok { st with output := st.output ++ current, originalIdx := st.originalIdx + 1 }
    else if tag = '-' then
      match originalLines[st.originalIdx]? with
      | none => .error (.rpc (patchError "patch removal extends beyond file"))
      | some current =>
        if current ≠ content then .error (.rpc (patchError "patch removal mismatch"))
        else .ok { st with originalIdx := st.originalIdx + 1 }
    else if tag = '+' then .ok { st with output := st.output ++ content }
    else .error (.rpc (patchError "invalid patch hunk line"))

/--
Go through the lines of a patch, in the inner loop of a hunk or in the outer loop between hunks.
The inner loop ends at a hunk header, which the outer one enters next, or at a file header, which
the outer one then passes over.
-/
def applyPatchLines (originalLines : List (List Char)) :
    (inHunk : Bool) → List (List Char) → PatchState → Except HandlerFault PatchState
  | _, [], st => .ok st
  | inHunk, line :: rest, st =>
    if startsWith line "@@ " then
      match enterHunk originalLines line st with
      | .error fault => .error fault
      | .ok st => applyPatchLines originalLines true rest st
    -- In front of a hunk, lines of any kind are passed over.
    else if inHunk = false then applyPatchLines originalLines false rest st
    -- The header of another file ends the hunk.
    else if startsWith line "--- " ∨ startsWith line "+++ " then
      applyPatchLines originalLines false rest st
    else if startsWith line "\\ No newline at end of file" then
      applyPatchLines originalLines true rest st
    else
      match applyHunkLine originalLines line st with
      | .error fault => .error fault
      | .ok st => applyPatchLines originalLines true rest st

/-- Apply the hunks of a patch to the original, which must match them exactly. -/
def applyUnifiedPatch (original patch : List Char) : Except HandlerFault (List Char) :=
  let originalLines := splitInclusive '\n' original
  let patchLines := splitInclusive '\n' patch
  match applyPatchLines originalLines false patchLines
      { output := [], originalIdx := 0, sawHunk := false } with
  | .error fault => .error fault
  | .ok st =>
    if st.sawHunk = false then .error (.rpc (patchError "patch contains no hunks"))
    else
      -- What is behind the last hunk stays as it is.
      match sliceLines originalLines st.originalIdx originalLines.length with
      | none => .error .panic
      | some behind => .ok (st.output ++ behind.flatten)

end McpCli
