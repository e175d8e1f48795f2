import McpCli.Daemon.Outline
import McpCli.Daemon.Scan
import McpCli.Text.Replace

/-! The `code.find_occurrences` method: where an identifier stands in the parsed files. -/

namespace McpCli

/-- How many occurrences there are at most when the request sets no limit. -/
def occurrencesDefaultLimit : Nat := 200

/-- How many files are looked at. -/
def occurrencesMaxFiles : Nat := 4096

/-- The kinds of nodes that are identifiers. -/
def identifierKinds : List String :=
  ["identifier", "field_identifier", "type_identifier", "property_identifier"]

/-- Whether a word occurs in the name of a kind of nodes. -/
def kindContains (word kind : String) : Bool := Text.contains word.toList kind.toList

section

/- The column of a node, counted from 0 by the third-party parser. -/
variable (column : Node → Nat)

/-- An identifier as it is reported. -/
def occurrenceOf (path : RelPath) (node : Node) : CodeOccurrence where
  path := path
  line := node.startRow + 1
  column := column node + 1
  kind := node.kind

mutual

/-- Add the occurrences in a node to those that were found before, up to a limit. -/
def collectIdentifierOccurrences (source : List UInt8) (path : RelPath) (needle : String)
    (max : Nat) : Node → List CodeOccurrence → List CodeOccurrence
  | .mk id kind field named startByte endByte startRow endRow children, out =>
    let node : Node := .mk id kind field named startByte endByte startRow endRow children
    if max ≤ out.length then out
    else if kind ∈ identifierKinds then
      -- What is below an identifier is not looked at.
      if node.utf8Text source = some needle then out ++ [occurrenceOf column path node] else out
    else if kindContains "comment" kind ∨ kindContains "string" kind then out
    else collectFromChildren source path needle max children out

/-- Add the occurrences in one node after another, until there are enough. -/
def collectFromChildren (source : List UInt8) (path : RelPath) (needle : String) (max : Nat) :
    List Node → List CodeOccurrence → List CodeOccurrence
  | [], out => out
  | child :: rest, out =>
    let out := collectIdentifierOccurrences source path needle max child out
    if max ≤ out.length then out else collectFromChildren source path needle max rest out

end

/-- What there is to know of the files: their canonical paths, and what the parse cache returns. -/
structure SourceCalls where
  resolveWithin : RelPath → Except RpcError AbsPath
  getOrParse : AbsPath → Except String (Option (ParsedFile Node))

/-- A file with its tree, if it is of a known language. -/
def SourceCalls.parse (calls : SourceCalls) (rel : RelPath) :
    Except RpcError (Option (ParsedFile Node)) :=
  match calls.resolveWithin rel with
  | .error error => .error error
  | .ok abs =>
    match calls.getOrParse abs with
    | .error e => .error { code := -32041, message := s!"parse {Parses.display abs}: {e}" }
    | .ok parsed => .ok parsed

/-- The loop over the files, with the occurrences that were found before. -/
def collectFromFiles (calls : SourceCalls) (needle : String) (max : Nat) :
    List RelPath → List CodeOccurrence → Except RpcError CodeFindOccurrencesResult
  | [], out => .ok { occurrences := out, truncated := false }
  | rel :: rest, out =>
    match calls.parse rel with
    | .error e => .error e
    | .ok none => collectFromFiles calls needle max rest out
    | .ok (some parsed) =>
      let out := collectIdentifierOccurrences column parsed.source rel needle max parsed.tree out
      -- The limit is looked at after every file, whether anything is left or not.
      if max ≤ out.length then .ok { occurrences := out, truncated := true }
      else collectFromFiles calls needle max rest out

end

/-- The files of a known language, as the walker yields them, up to a limit. -/
def sourceFilesFrom (root : AbsPath) (max : Nat) :
    List (Option DirEntry) → List RelPath → List RelPath
  | [], out => out
  | none :: rest, out => sourceFilesFrom root max rest out
  | some entry :: rest, out =>
    if !entry.isFile || (Language.detect (root ++ entry.path)).isNone then
      sourceFilesFrom root max rest out
    else
      let out := out ++ [entry.path]
      if max ≤ out.length then out else sourceFilesFrom root max rest out

/-- The files that are looked at when the request names none. -/
def sourceFiles (root : AbsPath) (max : Nat) (yielded : List (Option DirEntry)) : List RelPath :=
  sourceFilesFrom root max yielded []

/-- The files that a request is about. -/
def CodeFindOccurrencesParams.files (params : CodeFindOccurrencesParams) (root : AbsPath)
    (yielded : List (Option DirEntry)) : List RelPath :=
  match params.path with
  | some path => [path]
  | none => sourceFiles root occurrencesMaxFiles yielded

/-- How many occurrences there are at most. -/
def CodeFindOccurrencesParams.max (params : CodeFindOccurrencesParams) : Nat :=
  params.maxResults.getD occurrencesDefaultLimit

/-- The `code.find_occurrences` method, given what the walker yields and what is known of the files. -/
def codeFindOccurrences (column : Node → Nat) (calls : SourceCalls) (root : AbsPath)
    (yielded : List (Option DirEntry)) (params : CodeFindOccurrencesParams) :
    Except RpcError CodeFindOccurrencesResult :=
  if params.identifier = "" then
    .error { code := -32602, message := "identifier must not be empty" }
  else
    collectFromFiles column calls params.identifier params.max (params.files root yielded) []

end McpCli
