import McpCli.Daemon.Search

/-! What the third-party walker skips: overrides, ignore files and hidden names, in that order. -/

namespace McpCli

/-- The first verdict that decides. -/
def Match.first : List Match → Match
  | [] => .none
  | .none :: rest => first rest
  | verdict :: _ => verdict

/-- The paths from this one up to the root, as relative paths. -/
def upwards (path : RelPath) : List RelPath := path.inits.reverse

/-- A name that begins with a dot. -/
def isHidden (path : RelPath) : Bool :=
  -- The root itself has no name.
  match path.getLast? with
  | some name => name.toList.head? = some '.'
  | none => false

/--
The third-party reading of one ignore file: `matched content rel isDir` is what its rules say of
an entry, and nothing of what is above or below the entry.
-/
structure IgnoreRules (Content : Type) where
  matched : Content → RelPath → Bool → Match

/-- Whatever else a walk asks besides the `.gitignore` files below the project root. -/
structure WalkSources where
  /-- The globs of the request. -/
  overrides : RelPath → Bool → Match
  /-- The `.ignore` files. -/
  dotIgnore : RelPath → Bool → Match
  /-- What is asked last: `.git/info/exclude`, the global ignore file and files above the root. -/
  excludes : RelPath → Bool → Match
  /-- The directories with a repository of their own, whose ignore files are asked last. -/
  hasGit : RelPath → Bool

namespace IgnoreRules

variable {Content : Type} (rules : IgnoreRules Content) (disk : Disk Content) (root : AbsPath)

/-- What the `.gitignore` of a directory says of an entry below it. -/
def verdict (dir entry : RelPath) (isDir : Bool) : Match :=
  -- Rules are read relative to the directory that their file is in.
  match disk (Filter.gitignorePath (root ++ dir)) with
  | none => .none
  | some content => rules.matched content (entry.drop dir.length) isDir

/-- The directories up to the first one that has a repository of its own. -/
def upToRepository (hasGit : RelPath → Bool) : List RelPath → List RelPath
  | [] => []
  | dir :: rest => if hasGit dir then [dir] else dir :: upToRepository hasGit rest

/-- What the `.gitignore` files of some directories say of an entry, the first one deciding. -/
def ruling (dirs : List RelPath) (entry : RelPath) (isDir : Bool) : Match :=
  -- A nearer file overrules the ones above it.
  Match.first (dirs.map fun dir => rules.verdict disk root dir entry isDir)

/-- Whether a walk takes an entry. -/
def passes (sources : WalkSources) (hidden : Bool) (entry : RelPath) (isDir : Bool) : Bool :=
  -- Globs decide before any ignore file, and a name they list may be hidden.
  match sources.overrides entry isDir with
  | .ignore => false
  | .whitelist => true
  | .none =>
    let dirs := upToRepository sources.hasGit (upwards entry.dropLast)
    let files := [sources.dotIgnore entry isDir, rules.ruling disk root dirs entry isDir,
      sources.excludes entry isDir]
    match Match.first files with
    | .ignore => false
    | .whitelist => true
    | .none => !(hidden && isHidden entry)

/-- Whether a walk from a directory comes to a file: it takes every entry on the way. -/
def reached (sources : WalkSources) (hidden : Bool) (base file : RelPath) : Bool :=
  -- Directories are asked for as such, and only the last entry as a file.
  decide (base <+: file) &&
    (upwards file).all fun entry =>
      entry.length ≤ base.length ||
        rules.passes disk root sources hidden entry (decide (entry ≠ file))

end IgnoreRules

namespace SearchTools

variable {Content Matcher Overrides Walker : Type}

/-- The walker comes to an entry while the tree does not change. -/
inductive Yields (tools : SearchTools Content Matcher Overrides Walker) (disk : Disk Content) :
    Walker → DirEntry → Prop where
  | here {walker rest entry} (found : tools.next disk walker = some (some entry, rest)) :
    Yields tools disk walker entry
  | later {walker rest entry} {yielded : Option DirEntry}
    (found : tools.next disk walker = some (yielded, rest)) (there : Yields tools disk rest entry) :
    Yields tools disk walker entry

end SearchTools

end McpCli
