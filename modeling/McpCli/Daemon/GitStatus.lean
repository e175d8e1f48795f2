import McpCli.Daemon.Compact
import McpCli.Daemon.Metrics
import McpCli.Daemon.Watcher

/-! The `git.status` method, with a row for each file or with their roll-up. -/

namespace McpCli

/-- What the third-party library says of a file. -/
inductive StatusFlag where
  | indexNew
  | indexModified
  | indexDeleted
  | indexRenamed
  | indexTypechange
  | wtNew
  | wtModified
  | wtDeleted
  | wtRenamed
  | wtTypechange
  | ignored
  | conflicted
  deriving DecidableEq, Repr

/-- The flags in the order in which they are looked at. -/
def StatusFlag.all : List StatusFlag :=
  [.indexNew, .indexModified, .indexDeleted, .indexRenamed, .indexTypechange, .wtNew, .wtModified,
    .wtDeleted, .wtRenamed, .wtTypechange, .ignored, .conflicted]

/-- How a flag is written. -/
def StatusFlag.name : StatusFlag → String
  | indexNew => "index_new"
  | indexModified => "index_modified"
  | indexDeleted => "index_deleted"
  | indexRenamed => "index_renamed"
  | indexTypechange => "index_typechange"
  | wtNew => "wt_new"
  | wtModified => "wt_modified"
  | wtDeleted => "wt_deleted"
  | wtRenamed => "wt_renamed"
  | wtTypechange => "wt_typechange"
  | ignored => "ignored"
  | conflicted => "conflicted"

/-- The flags of a file. -/
abbrev GitFlags := StatusFlag → Bool

/-- The flags of a file as a text. -/
def formatStatus (status : GitFlags) : List Char :=
  let parts := (StatusFlag.all.filter status).map fun flag => flag.name.toList
  if parts = [] then "clean".toList else [','].intercalate parts

/-- What the head of a repository refers to. -/
structure GitHead where
  shorthand : Option String
  target : Option String

/-- What the third-party library makes of a repository. -/
structure StatusRepository where
  head : Option GitHead
  /-- The files with their paths, as far as these are texts. -/
  statuses : Except String (List (Option (List Char) × GitFlags))

/-- How a request finds its repository. -/
structure StatusCalls where
  resolveWithin : RelPath → Except RpcError AbsPath
  discover : AbsPath → Except String StatusRepository

/-- The request of `git.status`. -/
structure GitStatusParams where
  /-- Where the repository is, below the project root. -/
  repo : Option RelPath
  compact : Bool

/-- The answer of `git.status`. -/
structure GitStatusResult where
  branch : Option String
  head : Option String
  entries : List GitStatusEntry
  compact : Option GitStatusCompact

/-- How many directories there are in a roll-up for each class. -/
def gitStatusTopDirsPerClass : Nat := 16

/-- The row of a file, if its path is a text. -/
def statusEntry : Option (List Char) × GitFlags → Option GitStatusEntry
  | (none, _) => none
  | (some path, status) => some { path, status := formatStatus status }

/-- The repository of a request. -/
def StatusCalls.open (calls : StatusCalls) (root : AbsPath) (repo : Option RelPath) :
    Except RpcError StatusRepository :=
  match repo.elim (.ok root) calls.resolveWithin with
  | .error error => .error error
  | .ok repoRoot =>
    match calls.discover repoRoot with
    | .error e => .error { code := -32020, message := s!"discover repo: {e}" }
    | .ok repo => .ok repo

/-- The `git.status` method, with what it records of the sizes of its answers. -/
def gitStatus (calls : StatusCalls) (root : AbsPath) (serializedSize : GitStatusResult → UInt64)
    (params : GitStatusParams) : Except RpcError (GitStatusResult × MetricsCall) :=
  match calls.open root params.repo with
  | .error error => .error error
  | .ok repo =>
    let branch := repo.head.bind GitHead.shorthand
    let head := repo.head.bind GitHead.target
    match repo.statuses with
    | .error e => .error { code := -32021, message := s!"statuses: {e}" }
    | .ok statuses =>
      let entries := statuses.filterMap statusEntry
      let raw : GitStatusResult := { branch, head, entries, compact := none }
      let result : GitStatusResult :=
        if params.compact then
          let compact := gitStatusCompact entries gitStatusTopDirsPerClass
          { branch, head, entries := [], compact := some compact }
        else raw
      .ok (result, .record "git.status" (serializedSize raw) (serializedSize result))

end McpCli
