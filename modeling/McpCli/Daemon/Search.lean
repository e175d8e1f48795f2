import McpCli.Daemon.Scan

/-! The walk of `search.grep` over the files of the project. -/

namespace McpCli

/-- How many hits there are at most when the request sets no limit. -/
def searchDefaultLimit : Nat := 200

/-- How many lines of context there are at most. -/
def searchContextCap : Nat := 20

/-- Where a line stands that the searcher reports beside the matches. -/
inductive SinkContextKind where
  | before
  | after
  | other
  deriving DecidableEq, Repr

/-- A line of a file that the searcher reports, as a text. -/
inductive SinkLine where
  | matched (lineNumber : Option Nat) (line : List Char)
  | context (kind : SinkContextKind) (lineNumber : Option Nat) (line : List Char)
  deriving DecidableEq, Repr

/-- What collects the hits of one file behind those of the files before. -/
structure ContextSink where
  path : RelPath
  hits : List SearchHit
  maxHits : Nat
  /-- The most recent hit of this file. -/
  lastHitIdx : Option Nat
  /-- The lines that belong before the next hit. -/
  pendingBefore : List SearchContextLine
  deriving DecidableEq, Repr

namespace ContextSink

/-- A sink for a file of which no line has been seen. -/
def new (path : RelPath) (hits : List SearchHit) (maxHits : Nat) : ContextSink :=
  { path, hits, maxHits, lastHitIdx := none, pendingBefore := [] }

/-- A line without what ends it. -/
def stripCrlf (line : List Char) : List Char :=
  -- A carriage return is only dropped behind a line feed, or at the end of the file.
  let line := if line.getLast? = some '\n' then line.dropLast else line
  if line.getLast? = some '\r' then line.dropLast else line

/-- Take a line that matches, and say whether to go on. -/
def matched (sink : ContextSink) (lineNumber : Option Nat) (line : List Char) :
    Bool × ContextSink :=
  if sink.maxHits ≤ sink.hits.length then (false, sink)
  else
    let hit : SearchHit :=
      { path := sink.path
        lineNumber := lineNumber.getD 0
        line := stripCrlf line
        context := sink.pendingBefore }
    let hits := sink.hits ++ [hit]
    -- The hit that reaches the limit is kept, and the searcher is told to stop.
    (decide (hits.length < sink.maxHits),
      { sink with hits, lastHitIdx := some sink.hits.length, pendingBefore := [] })

/-- Take a line near a match, and say whether to go on. -/
def context (sink : ContextSink) (kind : SinkContextKind) (lineNumber : Option Nat)
    (line : List Char) : Bool × ContextSink :=
  if sink.maxHits ≤ sink.hits.length then (false, sink)
  else
    let entry : SearchContextLine := { lineNumber := lineNumber.getD 0, line := stripCrlf line }
    match kind with
    -- A line before a match waits for the hit that it belongs to.
    | .before => (true, { sink with pendingBefore := sink.pendingBefore ++ [entry] })
    | .after | .other =>
      -- A line behind a match goes to the hit that has just been made.
      match sink.lastHitIdx with
      | some idx =>
        let hits := sink.hits.modify idx fun hit => { hit with context := hit.context ++ [entry] }
        (true, { sink with hits })
      | none => (true, sink)

/-- Take the reported lines until there are no more of them or the sink wants none. -/
def take (sink : ContextSink) : List SinkLine → ContextSink
  | [] => sink
  | .matched lineNumber line :: rest =>
    match sink.matched lineNumber line with
    | (true, sink) => take sink rest
    -- A sink that wants no more is not asked again.
    | (false, sink) => sink
  | .context kind lineNumber line :: rest =>
    match sink.context kind lineNumber line with
    | (true, sink) => take sink rest
    | (false, sink) => sink

end ContextSink

/-- Why a glob was refused. -/
inductive GlobFault where
  | add (message : String)
  | build (message : String)
  deriving DecidableEq, Repr

/-- How the walker is set up. -/
structure WalkOptions (Overrides : Type) where
  standardFilters : Bool
  /-- Skip the entries whose names begin with a dot. -/
  hidden : Bool
  overrides : Option Overrides

/-- The third-party matcher, walker and searcher. -/
structure SearchTools (Content Matcher Overrides Walker : Type) where
  compile : Bool → String → Except String Matcher
  /-- A glob as the override of a walk from a directory. -/
  addGlob : AbsPath → String → Except GlobFault Overrides
  walk : AbsPath → WalkOptions Overrides → Walker
  /-- The next entry or error, found in the tree as it is now. -/
  next : Disk Content → Walker → Option (Option DirEntry × Walker)
  /-- The lines that are reported of a file, with so many lines of context. -/
  report : Matcher → Nat → Content → List SinkLine

/-- What makes two requests the same to the cache. -/
structure SearchKey where
  pattern : String
  path : Option RelPath
  glob : Option String
  maxResults : Option Nat
  caseInsensitive : Bool
  context : Nat
  deriving DecidableEq, Repr

namespace SearchGrepParams

/-- How many lines of context are given. -/
def contextLines (params : SearchGrepParams) : Nat := min params.context searchContextCap

/-- How many hits there are at most. -/
def maxHits (params : SearchGrepParams) : Nat := params.maxResults.getD searchDefaultLimit

/-- The key of a request. -/
def key (params : SearchGrepParams) : SearchKey :=
  { pattern := params.pattern
    path := params.path
    glob := params.glob
    maxResults := params.maxResults
    caseInsensitive := params.caseInsensitive
    context := params.contextLines }

/-- The directory or file to walk, if no link is on the way to it. -/
def searchRoot (params : SearchGrepParams) (root : AbsPath) : AbsPath :=
  match params.path with
  | some path => root ++ path
  | none => root

end SearchGrepParams

/-- A walk under way, with the hits so far. -/
structure SearchWalk (Matcher Walker : Type) where
  matcher : Matcher
  walker : Walker
  hits : List SearchHit

namespace SearchTools

variable {Content Matcher Overrides Walker : Type}

/-- What a request that the cache cannot answer starts with. -/
def begin (tools : SearchTools Content Matcher Overrides Walker) (root : AbsPath)
    (params : SearchGrepParams) : Except RpcError (SearchWalk Matcher Walker) :=
  -- The pattern is refused before the glob is looked at.
  match tools.compile params.caseInsensitive params.pattern with
  | .error e => .error { code := -32030, message := s!"regex: {e}" }
  | .ok matcher =>
    let searchRoot := params.searchRoot root
    match params.glob with
    | none =>
      let options := { standardFilters := true, hidden := false, overrides := none }
      .ok { matcher, walker := tools.walk searchRoot options, hits := [] }
    | some glob =>
      match tools.addGlob searchRoot glob with
      | .error (.add e) => .error { code := -32031, message := s!"glob: {e}" }
      | .error (.build e) => .error { code := -32032, message := s!"glob build: {e}" }
      | .ok built =>
        let options := { standardFilters := true, hidden := false, overrides := some built }
        .ok { matcher, walker := tools.walk searchRoot options, hits := [] }

/-- The hits after a file has been searched, which may be gone by now. -/
def searchPath (tools : SearchTools Content Matcher Overrides Walker) (disk : Disk Content)
    (root : AbsPath) (params : SearchGrepParams) (matcher : Matcher) (hits : List SearchHit)
    (path : RelPath) : List SearchHit :=
  -- A file that cannot be opened any more is passed over without an error.
  match disk (root ++ path) with
  | none => hits
  | some content =>
    let lines := tools.report matcher params.contextLines content
    ((ContextSink.new path hits params.maxHits).take lines).hits

/-- Go on to the next entry: the walk goes on behind it, or it is over with a result. -/
def advance (tools : SearchTools Content Matcher Overrides Walker) (disk : Disk Content)
    (root : AbsPath) (params : SearchGrepParams) (walk : SearchWalk Matcher Walker) :
    SearchWalk Matcher Walker ⊕ SearchGrepResult :=
  match tools.next disk walk.walker with
  -- Only a walk that comes to its end is not truncated.
  | none => .inr { hits := walk.hits, truncated := false }
  -- An error of the walker is skipped.
  | some (none, walker) => .inl { walk with walker }
  | some (some entry, walker) =>
    if !entry.isFile then .inl { walk with walker }
    else
      let hits := tools.searchPath disk root params walk.matcher walk.hits entry.path
      -- The limit is looked at after every file, full or not.
      if params.maxHits ≤ hits.length then .inr { hits, truncated := true }
      else .inl { walk with walker, hits }

/-- Walk to the end over a tree that does not change, if so many steps are enough. -/
def finish (tools : SearchTools Content Matcher Overrides Walker) (disk : Disk Content)
    (root : AbsPath) (params : SearchGrepParams) :
    Nat → SearchWalk Matcher Walker → Option SearchGrepResult
  | 0, _ => none
  | fuel + 1, walk =>
    match tools.advance disk root params walk with
    | .inl walk => finish tools disk root params fuel walk
    | .inr result => some result

end SearchTools

end McpCli
