import McpCli.Daemon.Search
import McpCli.Daemon.SearchCache

/-! Searches side by side, while files change and the changes are recorded. -/

namespace McpCli

/-- How far a search has come. -/
inductive SearchPhase (Matcher Walker : Type) where
  | resolved (params : SearchGrepParams)
  /-- It has taken its snapshot of the log. -/
  | observed (params : SearchGrepParams) (version : Nat)
  /-- The cache had no answer. -/
  | missed (params : SearchGrepParams) (version : Nat)
  | walking (params : SearchGrepParams) (version : Nat) (walk : SearchWalk Matcher Walker)
  /-- The result is still to be entered in the cache. -/
  | walked (params : SearchGrepParams) (version : Nat) (raw : SearchGrepResult)
  | returned (params : SearchGrepParams) (version : Nat) (raw : SearchGrepResult) (cached : Bool)
  | failed (error : RpcError)

/-- The tree, the log and the cache of a daemon, and the searches in the order of their arrival. -/
structure SearchRace (Content Matcher Walker : Type) where
  root : AbsPath
  disk : Disk Content
  /-- How many changes of files are still to be recorded. -/
  unrecorded : Nat
  log : ChangeLog
  cache : SearchCache SearchKey SearchGrepResult
  searches : List (SearchPhase Matcher Walker)

namespace SearchRace

/-- The next thing that happens. -/
inductive Action (Content : Type) where
  /-- A request arrives, and its path is resolved or not. -/
  | arrive (params : SearchGrepParams) (canonicalize : Except String Unit)
  /-- One of the searches takes its next step. -/
  | advance (search : Nat)
  /-- A file that a search can read changes, which leaves the tree like this. -/
  | change (disk : Disk Content)
  /-- Something else changes in the tree. -/
  | other (disk : Disk Content)
  /-- The log takes an event, with which so many of the changes are recorded. -/
  | record (path : RelPath) (kind : ChangeKind) (covered : Nat)

variable {Content Matcher Overrides Walker : Type}

/-- What a request is at first. -/
def arrival (params : SearchGrepParams) (canonicalize : Except String Unit) :
    SearchPhase Matcher Walker :=
  -- Only a request that names a path can be refused for it, before it looks at the log.
  match params.path, canonicalize with
  | some path, .error e =>
    let candidate := "/".intercalate path
    .failed { code := -32001, message := s!"canonicalize {candidate}: {e}" }
  | _, _ => .resolved params

/-- The next step of a search, if there is one, with what it leaves in the cache. -/
def next (tools : SearchTools Content Matcher Overrides Walker)
    (s : SearchRace Content Matcher Walker) :
    SearchPhase Matcher Walker →
      Option (SearchPhase Matcher Walker × SearchCache SearchKey SearchGrepResult)
  -- The version is taken before the cache is asked and before the walk.
  | .resolved params => some (.observed params s.log.snapshot.1, s.cache)
  | .observed params version =>
    -- A lookup under another version empties the cache first.
    match s.cache.get version params.key with
    | (some raw, cache) => some (.returned params version raw true, cache)
    | (none, cache) => some (.missed params version, cache)
  | .missed params version =>
    -- The matcher and the globs are only built once the cache has had nothing.
    match tools.begin s.root params with
    | .error error => some (.failed error, s.cache)
    | .ok walk => some (.walking params version walk, s.cache)
  | .walking params version walk =>
    -- Each entry is looked up in the tree as it is by now.
    match tools.advance s.disk s.root params walk with
    | .inl walk => some (.walking params version walk, s.cache)
    | .inr raw => some (.walked params version raw, s.cache)
  | .walked params version raw =>
    -- The answer is entered under the version from before the walk.
    some (.returned params version raw false, s.cache.insert version params.key raw)
  | .returned .. | .failed _ => none

/-- Take one step, if it is possible. -/
def step (tools : SearchTools Content Matcher Overrides Walker)
    (s : SearchRace Content Matcher Walker) :
    Action Content → Option (SearchRace Content Matcher Walker)
  | .arrive params canonicalize =>
    some { s with searches := s.searches ++ [arrival params canonicalize] }
  | .advance search =>
    match s.searches[search]? with
    | none => none
    | some phase =>
      (s.next tools phase).map fun moved =>
        { s with searches := s.searches.set search moved.1, cache := moved.2 }
  | .change disk => some { s with disk, unrecorded := s.unrecorded + 1 }
  | .other disk => some { s with disk }
  | .record path kind covered =>
    -- A record covers some of the changes that wait for one, or none of them.
    if s.unrecorded < covered then none
    else
      some { s with log := s.log.record path kind, unrecorded := s.unrecorded - covered }

end SearchRace

end McpCli
