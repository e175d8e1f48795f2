import McpCli.Protocol.Messages
import McpCli.Text.Lossy

/-! Paths of the system, whose names are bytes, and how they are shown as texts. -/

namespace McpCli

open Text

/-- An absolute path, name by name. -/
abbrev OsPath := List (List UInt8)

namespace OsPath

/-- The names with a slash between them. -/
def joined (path : OsPath) : List UInt8 := [0x2F].intercalate path

/-- A path as a text, in which bytes that are no text are replaced. -/
def display (path : OsPath) : List Char := decodeLossy (0x2F :: path.joined)

/-- The part of a path below the root as a text, or all of it if it is not below the root. -/
def displayBelow (path root : OsPath) : List Char :=
  if root <+: path then decodeLossy (joined (path.drop root.length)) else path.display

/-- The part of a path below the root as the watcher records it. -/
def recordedBelow (path root : OsPath) : Option (List Char) :=
  if root <+: path then some (decodeLossy (joined (path.drop root.length))) else none

end OsPath

/-- The canonical path of a candidate, which must not lead out of the root. -/
def resolveWithin (root : OsPath) (candidate : String) (canonicalize : Except String OsPath) :
    Except RpcError OsPath :=
  match canonicalize with
  | .error e => .error { code := -32001, message := s!"canonicalize {candidate}: {e}" }
  | .ok canon =>
    let shown := String.ofList canon.display
    -- Links have been followed by now.
    if root <+: canon then .ok canon
    else .error { code := -32002, message := s!"path escapes root: {shown}" }

end McpCli
