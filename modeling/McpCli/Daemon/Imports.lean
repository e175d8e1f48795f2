import McpCli.Daemon.OsPath
import McpCli.Daemon.Occurrences
import McpCli.Protocol.Paths

/-! The methods `code.imports` and `code.dependencies`: what the sources import, line by line. -/

namespace McpCli

open Text

/-- The name of a language. -/
def Language.name : Language → String
  | .rust => "rust"
  | .python => "python"
  | .c => "c"
  | .cpp => "cpp"
  | .typeScript => "typescript"
  | .tsx => "tsx"
  | .go => "go"

/-- A quote that a module may stand between. -/
def isQuote (c : Char) : Bool := c = '"' || c = '\x27'

/-- The text between the first quote of a line and the next one of its kind. -/
def quotedModule (line : List Char) : Option (List Char) :=
  match line.dropWhile fun c => !isQuote c with
  | [] => none
  | quote :: tail => if quote ∈ tail then some (tail.takeWhile (· ≠ quote)) else none

/-- The first word behind a prefix, without semicolons at the end of the line. -/
def declaredWord (front : String) (line : List Char) : Option (List Char) := do
  let rest ← Text.stripPrefix front.toList line
  (splitWhitespace (rest.reverse.dropWhile (· = ';')).reverse).head?

/-- What a line of Rust imports. -/
def rustModules (line : List Char) : List (List Char) :=
  match (declaredWord "use " line).or (declaredWord "pub use " line) with
  | some module => [module]
  | none => (declaredWord "mod " line).toList

/-- What a line of Python imports. -/
def pythonModules (line : List Char) : List (List Char) :=
  match Text.stripPrefix "import ".toList line with
  | some rest => (rest.splitOn ',').filterMap fun part => (splitWhitespace part).head?
  | none =>
    match Text.stripPrefix "from ".toList line with
    | some rest => (splitWhitespace rest).head?.toList
    | none => []

/-- Whether a line of TypeScript looks like one that imports what it quotes. -/
def looksLikeImport (line : List Char) : Bool :=
  "import ".toList.isPrefixOf line || "export ".toList.isPrefixOf line ||
    contains " require(".toList line

/-- What a line of TypeScript imports. -/
def typeScriptModules (line : List Char) : List (List Char) :=
  match quotedModule line with
  | some module => if looksLikeImport line then [module] else []
  | none => []

/-- What a line of Go imports, and whether the lines behind it are in a block of imports. -/
def goModules (goBlock : Bool) (line : List Char) : List (List Char) × Bool :=
  if line = "import (".toList then ([], true)
  else if goBlock ∧ line = [')'] then ([], false)
  else
    match quotedModule ((Text.stripPrefix "import ".toList line).getD line) with
    | some module =>
      (if goBlock || "import ".toList.isPrefixOf line then [module] else [], goBlock)
    | none => ([], goBlock)

/-- What a line of C imports. -/
def cModules (line : List Char) : List (List Char) :=
  ((Text.stripPrefix "#include".toList line).bind quotedModule).toList

/-- What a line imports, and whether the lines behind it are in a block of imports. -/
def lineModules (language : Language) (goBlock : Bool) (line : List Char) :
    List (List Char) × Bool :=
  match language with
  | .rust => (rustModules line, goBlock)
  | .python => (pythonModules line, goBlock)
  | .typeScript | .tsx => (typeScriptModules line, goBlock)
  | .go => goModules goBlock line
  | .c | .cpp => (cModules line, goBlock)

/-- What is at a path, behind all links. -/
inductive FileKind where
  | file
  | dir
  | other
  deriving DecidableEq, Repr

/-- What there is to know of the files, by any path that leads to them. -/
structure FileTree where
  kind : List UInt8 → Option FileKind
  /-- The path without links. -/
  canonicalize : List UInt8 → Except String OsPath
  readToString : OsPath → Except String (List Char)

/-- Whether something is there, behind all links. -/
def FileTree.found (tree : FileTree) (path : List UInt8) : Bool := (tree.kind path).isSome

namespace OsPath

/-- A path as the operating system takes it. -/
def bytes (path : OsPath) : List UInt8 := 0x2F :: path.joined

/-- The names that a path without links and steps upwards is made of. -/
def ofBytes (path : List UInt8) : OsPath :=
  (path.splitOn 0x2F).filter fun name => name ≠ [] ∧ name ≠ [0x2E]

/-- The names as texts. -/
def names (path : OsPath) : AbsPath := path.map fun name => String.ofList (decodeLossy name)

end OsPath

/-- Some files with their texts and some directories, without any links. -/
def FileTree.plain (files : List (OsPath × List Char)) (dirs : List OsPath) : FileTree where
  kind := fun path =>
    if OsPath.ofBytes path ∈ files.map Prod.fst then some .file
    else if OsPath.ofBytes path ∈ dirs then some .dir
    else none
  canonicalize := fun path =>
    if OsPath.ofBytes path ∈ files.map Prod.fst ++ dirs then .ok (OsPath.ofBytes path)
    else .error "not found"
  readToString := fun path =>
    match files.find? fun file => file.1 = path with
    | some file => .ok file.2
    | none => .error "not found"

/-- The part of a name of Rust in front of the first pair of colons. -/
def firstSegment : List Char → List Char
  | ':' :: ':' :: _ => []
  | [] => []
  | c :: rest => c :: firstSegment rest

/-- Where the file is looked for that a name of TypeScript stands for. -/
def typeScriptCandidates (baseDir : List UInt8) (module : List Char) : List (List UInt8) :=
  ["ts", "tsx", "js", "jsx"].flatMap fun ext =>
    [joinPath baseDir (module ++ '.' :: ext.toList),
      joinPath (joinPath baseDir module) ("index.".toList ++ ext.toList)]

/-- Where the file is looked for that a name of Python stands for. -/
def pythonCandidates (baseDir : List UInt8) (module : List Char) : List (List UInt8) :=
  let trimmed := (module.dropWhile (· = '.')).map fun c => if c = '.' then '/' else c
  [joinPath baseDir (trimmed ++ ".py".toList), joinPath (joinPath baseDir trimmed) "__init__.py".toList]

/-- Where the file is looked for that a name of Rust stands for. -/
def rustCandidates (baseDir : List UInt8) (module : List Char) : List (List UInt8) :=
  let rel := firstSegment module
  [joinPath baseDir (rel ++ ".rs".toList), joinPath (joinPath baseDir rel) "mod.rs".toList]

/-- Where the file is looked for that a name stands for. -/
def importCandidates (language : Language) (baseDir : List UInt8) (module : List Char) :
    List (List UInt8) :=
  match language with
  | .typeScript | .tsx =>
    if module.head? = some '.' then typeScriptCandidates baseDir module else []
  | .python => if module.head? = some '.' then pythonCandidates baseDir module else []
  | .rust => rustCandidates baseDir module
  | .go | .c | .cpp => []

section

variable (tree : FileTree) (root : OsPath)

/-- How a file is reported, if it is below the root. -/
def shownBelow (file : List UInt8) : Option String := do
  let canon ← (tree.canonicalize file).toOption
  if root <+: canon then
    some (String.ofList (decodeLossy (OsPath.joined (canon.drop root.length))))
  else none

/-- The file below the root that a name stands for, if there is one. -/
def resolveImportPath (module : List Char) (baseDir : OsPath) (language : Language) :
    Option String :=
  ((importCandidates language baseDir.bytes module).find? tree.found).bind (shownBelow tree root)

/-- An entry for a name, with the file that it stands for. -/
def importEntry (module : List Char) (line : Nat) (baseDir : OsPath) (language : Language) :
    ImportEntry :=
  { module := String.ofList module,
    resolvedPath := resolveImportPath tree root module baseDir language, line }

/-- The loop over the lines, behind so many of them. -/
def importsFrom (language : Language) (baseDir : OsPath) :
    Nat → Bool → List (List Char) → List ImportEntry
  | _, _, [] => []
  | idx, goBlock, rawLine :: rest =>
    let (modules, goBlock) := lineModules language goBlock (trim rawLine)
    modules.map (fun module => importEntry tree root module (idx + 1) baseDir language) ++
      importsFrom language baseDir (idx + 1) goBlock rest

/-- What a source imports. -/
def extractImports (language : Language) (content : List Char) (baseDir : OsPath) :
    List ImportEntry :=
  importsFrom tree root language baseDir 0 false (lines content)

/-- What a file imports. -/
def codeImports (path : String) : Except RpcError CodeImportsResult := do
  let abs ← resolveWithin root path
    (tree.canonicalize (joinPath root.bytes path.toList))
  let language := Language.detect abs.names
  match tree.readToString abs with
  | .error e => .error { code := -32080, message := s!"read: {e}" }
  | .ok content =>
    let baseDir := if abs = [] then root else abs.dropLast
    let imports := match language with
      | some language => extractImports tree root language content baseDir
      | none => []
    .ok { path, language := language.map Language.name, imports }

/-- The files that a file imports, as far as they are found. -/
def edgesFrom (path : String) : List DependencyEdge :=
  match codeImports tree root path with
  | .error _ => []
  | .ok result => result.imports.filterMap fun entry =>
    entry.resolvedPath.map fun target =>
      { source := path, target, module := entry.module, line := entry.line }

/-- How many files are looked at if the request does not say it. -/
def dependenciesMaxFiles : Nat := 4096

/-- The `code.dependencies` method, given what the walker yields. -/
def codeDependencies (yielded : List (Option DirEntry)) (params : CodeDependenciesParams) :
    CodeDependenciesResult :=
  let files := (sourceFiles root.names (params.maxFiles.getD dependenciesMaxFiles) yielded).map
    "/".intercalate
  let allEdges := files.flatMap (edgesFrom tree root)
  match params.path with
  | none => { filesScanned := files.length, dependencies := allEdges, dependents := [] }
  | some focus =>
    { filesScanned := files.length,
      dependencies := allEdges.filter fun edge => edge.source = focus,
      dependents := allEdges.filter fun edge => edge.target = focus }

end

end McpCli
