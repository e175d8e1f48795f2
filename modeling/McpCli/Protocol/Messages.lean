import Mathlib.Data.Nat.Notation

/-! The request and response data that bridge and daemon share. -/

namespace McpCli

/-- A path below the project root, component by component. -/
abbrev RelPath := List String

/-- Why a method refused a request. -/
structure RpcError where
  code : Int
  message : String
  deriving DecidableEq, Repr

/-- A request as it goes over the stream. -/
structure Request (Value : Type) where
  id : Nat
  method : String
  params : Value
  deriving DecidableEq, Repr

/-- A response as it comes back. -/
structure Response (Value : Type) where
  id : Nat
  result : Option Value
  error : Option RpcError
  deriving DecidableEq, Repr

/-- What happened to a file. -/
inductive ChangeKind where
  | created
  | modified
  | removed
  deriving DecidableEq, Repr

/-- One recorded event, stamped with the version it brought about. -/
structure ChangeEntry where
  path : RelPath
  kind : ChangeKind
  version : Nat
  deriving DecidableEq, Repr

/-- The answer of `fs.changes`. -/
structure FsChangesResult where
  version : Nat
  changes : List ChangeEntry
  /-- The client missed events and should do a fresh full scan. -/
  overflowed : Bool
  deriving DecidableEq, Repr

/-- The answer of `fs.scan` when no roll-up is asked for. -/
structure FsScanResult where
  /-- The version captured at the start of the walk. -/
  version : Nat
  files : List RelPath
  truncated : Bool
  deriving DecidableEq, Repr

/-- The request of `fs.read`, as far as it chooses the bytes. -/
structure FsReadParams where
  path : RelPath
  offset : Nat
  length : Option Nat
  /-- The bytes are returned in base64, and otherwise as a text. -/
  binary : Bool
  deriving DecidableEq, Repr

/-- The answer of `fs.read`, with the bytes that were read as they are. -/
structure FsReadResult where
  path : RelPath
  /-- The version of the log observed before the read, for `expected_version` of a write. -/
  version : Nat
  /-- The modification time of the file, for `expected_mtime_ns` of a write. -/
  mtimeNs : Nat
  bytesRead : Nat
  totalSize : Nat
  content : List UInt8
  encoding : String
  truncated : Bool
  deriving DecidableEq, Repr

/-- A region of a file that was elided, and how many lines it had. -/
structure StrippedRegion where
  kind : String
  /-- Lines are counted from 1. -/
  startLine : Nat
  endLine : Nat
  lines : Nat
  deriving DecidableEq, Repr

/-- The request of `fs.apply_patch`. -/
structure FsApplyPatchParams where
  path : RelPath
  patch : List Char
  /-- A version previously returned by `fs.read` or `fs.snapshot`. -/
  expectedVersion : Option Nat
  /-- A modification time previously returned by `fs.read`. -/
  expectedMtimeNs : Option Nat
  deriving DecidableEq, Repr

/-- The answer of `fs.apply_patch`. -/
structure FsApplyPatchResult where
  path : RelPath
  applied : Bool
  version : Nat
  mtimeNs : Nat
  deriving DecidableEq, Repr

/-- The request of `fs.replace_all`. -/
structure FsReplaceAllParams where
  path : RelPath
  search : List Char
  replacement : List Char
  expectedVersion : Option Nat
  expectedMtimeNs : Option Nat
  /-- A cap on the replacements, beyond which nothing is written. -/
  maxReplacements : Option Nat
  deriving DecidableEq, Repr

/-- The answer of `fs.replace_all`. -/
structure FsReplaceAllResult where
  path : RelPath
  replacements : Nat
  version : Nat
  mtimeNs : Nat
  deriving DecidableEq, Repr

/-- The request of `search.grep` when no roll-up is asked for. -/
structure SearchGrepParams where
  pattern : String
  /-- Where to search, the whole project if there is none. -/
  path : Option RelPath
  glob : Option String
  maxResults : Option Nat
  caseInsensitive : Bool
  /-- How many lines before and after each match are wanted. -/
  context : Nat
  deriving DecidableEq, Repr

/-- A line near a match. -/
structure SearchContextLine where
  lineNumber : Nat
  line : List Char
  deriving DecidableEq, Repr

/-- A line that matches, with the lines around it. -/
structure SearchHit where
  path : RelPath
  lineNumber : Nat
  line : List Char
  context : List SearchContextLine
  deriving DecidableEq, Repr

/-- The answer of `search.grep` when no roll-up is asked for. -/
structure SearchGrepResult where
  hits : List SearchHit
  truncated : Bool
  deriving DecidableEq, Repr

/-- What one item of a `for_each` step came to. -/
structure PipeItemResult (Value : Type) where
  result : Option Value
  error : Option RpcError
  deriving DecidableEq, Repr

/-- A declaration in the outline of a file, with the bytes and the lines that it takes. -/
structure CodeOutlineEntry where
  name : String
  startByte : Nat
  endByte : Nat
  /-- Lines are counted from 1. -/
  startLine : Nat
  endLine : Nat
  deriving DecidableEq, Repr

/-- The answer of `code.outline`. -/
structure CodeOutlineResult where
  language : Option String
  entries : List CodeOutlineEntry
  deriving DecidableEq, Repr

/-- The request of `fs.read_skeleton`. -/
structure FsReadSkeletonParams where
  path : RelPath
  targetLine : Option Nat
  targetSymbol : Option String
  deriving DecidableEq, Repr

/-- The lines of a file that a skeleton does not show. -/
structure SkeletonElidedRegion where
  symbol : String
  startLine : Nat
  endLine : Nat
  /-- How many lines these are. -/
  lines : Nat
  deriving DecidableEq, Repr

/-- The answer of `fs.read_skeleton`. -/
structure FsReadSkeletonResult where
  path : RelPath
  language : Option String
  content : List Char
  elidedRegions : List SkeletonElidedRegion
  deriving DecidableEq, Repr

/-- The request of `code.find_occurrences`. -/
structure CodeFindOccurrencesParams where
  identifier : String
  path : Option RelPath
  maxResults : Option Nat
  deriving DecidableEq, Repr

/-- Where an identifier stands. -/
structure CodeOccurrence where
  path : RelPath
  /-- Lines and columns are counted from 1. -/
  line : Nat
  column : Nat
  kind : String
  deriving DecidableEq, Repr

/-- The answer of `code.find_occurrences`. -/
structure CodeFindOccurrencesResult where
  occurrences : List CodeOccurrence
  truncated : Bool
  deriving DecidableEq, Repr

/-- The request of `tool.read_logs`. -/
structure ToolReadLogsParams where
  jobId : Nat
  offset : Nat
  maxBytes : Option Nat
  deriving DecidableEq, Repr

/-- The answer of `tool.read_logs`. -/
structure ToolReadLogsResult where
  jobId : Nat
  output : List Char
  nextOffset : Nat
  exitCode : Option Int
  running : Bool
  killed : Bool
  deriving DecidableEq, Repr

/-- The answer of `tool.kill`. -/
structure ToolKillResult where
  jobId : Nat
  killed : Bool
  exitCode : Option Int
  deriving DecidableEq, Repr

/-- A variable of the environment of a command. -/
structure ToolRunEnv where
  name : String
  value : String
  deriving DecidableEq, Repr

/-- The request of `tool.run`. -/
structure ToolRunParams where
  /-- The name of an executable, or its absolute path. -/
  command : String
  args : List String
  /-- Where the command runs, the project root if nothing is said. -/
  cwd : Option String
  env : List ToolRunEnv
  /-- A cap on each of the two outputs. -/
  maxOutputBytes : Option Nat
  /-- A result may be used again as long as the version is the same. -/
  cache : Bool
  deriving DecidableEq, Repr

/-- The answer of `tool.run`. -/
structure ToolRunResult where
  command : String
  args : List String
  cwd : List Char
  exitCode : Option Int
  success : Bool
  stdout : List Char
  stderr : List Char
  stdoutTruncated : Bool
  stderrTruncated : Bool
  /-- The tail of both outputs if the command failed. -/
  failureOutput : List Char
  cached : Bool
  deriving DecidableEq, Repr

/-- The request of `git.log`. -/
structure GitLogParams where
  /-- Where the repository is, below the project root. -/
  repo : Option RelPath
  maxCount : Option Nat
  /-- A branch, tag or commit to start from, the head if there is none. -/
  revision : Option String
  /-- A path to filter the commits by, as it is written in the request. -/
  path : Option (List Char)
  deriving DecidableEq, Repr

/-- One commit of a log. -/
structure GitCommit where
  sha : String
  author : String
  date : String
  message : String
  deriving DecidableEq, Repr

/-- The answer of `git.log`. -/
structure GitLogResult where
  commits : List GitCommit
  deriving DecidableEq, Repr

/-- The request of `git.history`. -/
structure GitHistoryParams where
  repo : Option RelPath
  path : List Char
  maxCount : Option Nat
  deriving DecidableEq, Repr

/-- The answer of `git.history`. -/
structure GitHistoryResult where
  path : List Char
  commits : List GitCommit
  deriving DecidableEq, Repr

/-- A file of `git.status`, with its flags in a row. -/
structure GitStatusEntry where
  path : List Char
  status : List Char
  deriving DecidableEq, Repr

/-- How many entries there are in a directory. -/
structure GitStatusDirCount where
  dir : List Char
  count : Nat
  deriving DecidableEq, Repr

/-- The entries of one status class. -/
structure GitStatusClassBucket where
  statusClass : String
  count : Nat
  /-- The top directories, ordered by count descending. -/
  byDir : List GitStatusDirCount
  deriving DecidableEq, Repr

/-- The roll-up of `git.status`. -/
structure GitStatusCompact where
  byClass : List GitStatusClassBucket
  total : Nat
  deriving DecidableEq, Repr

/-- How many files there are in a directory. -/
structure FsScanDirBucket where
  dir : List Char
  count : Nat
  deriving DecidableEq, Repr

/-- The roll-up of `fs.scan`. -/
structure FsScanCompact where
  byDir : List FsScanDirBucket
  total : Nat
  deriving DecidableEq, Repr

/-- A statement of a source that imports something. -/
structure ImportEntry where
  module : String
  /-- The file that it stands for, below the project root. -/
  resolvedPath : Option String
  line : Nat
  deriving DecidableEq, Repr

/-- The answer of `code.imports`. -/
structure CodeImportsResult where
  path : String
  language : Option String
  imports : List ImportEntry
  deriving DecidableEq, Repr

/-- The request of `code.dependencies`. -/
structure CodeDependenciesParams where
  /-- A file whose imports and importers are asked for. -/
  path : Option String
  maxFiles : Option Nat
  deriving DecidableEq, Repr

/-- A file that imports another one. -/
structure DependencyEdge where
  source : String
  target : String
  module : String
  line : Nat
  deriving DecidableEq, Repr

/-- The answer of `code.dependencies`. -/
structure CodeDependenciesResult where
  filesScanned : Nat
  dependencies : List DependencyEdge
  dependents : List DependencyEdge
  deriving DecidableEq, Repr

end McpCli
