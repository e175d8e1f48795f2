import McpCli.Bytes.Fnv1a
import McpCli.Text.Hex
import McpCli.Text.Lossy

/-! The path of the socket, which bridge and daemon derive from the project root. -/

namespace McpCli

open Text

/-- A path that goes on from a directory, unless it is absolute. -/
def joinPath (dir : List UInt8) (rel : List Char) : List UInt8 :=
  if rel.head? = some '/' then encodeUtf8 rel
  else if dir.getLast?.all (· = 0x2F) then dir ++ encodeUtf8 rel
  else dir ++ 0x2F :: encodeUtf8 rel

/-- The hash of a path as a text, in digits of the base sixteen. -/
def hashPath (path : List UInt8) : List Char :=
  hexDigits 16 (Bytes.fnv1a64 (encodeUtf8 (decodeLossy path))).toNat

/-- The socket of a project, in a directory or else under the name of a user. -/
def socketPathForIn (currentUser : List Char) (canonicalRoot : List UInt8)
    (runtimeDir : Option (List UInt8)) : List UInt8 :=
  let hash := hashPath canonicalRoot
  match runtimeDir with
  | some dir => joinPath (joinPath dir "mcp-cli".toList) (hash ++ ".sock".toList)
  | none =>
    let file := "mcp-cli-".toList ++ currentUser ++ '-' :: hash ++ ".sock".toList
    joinPath (encodeUtf8 "/tmp".toList) file

end McpCli
