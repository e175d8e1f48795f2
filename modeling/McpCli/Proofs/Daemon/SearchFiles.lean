import McpCli.Proofs.Daemon.IgnoreWalk
import McpCli.Proofs.Daemon.SearchRace

/-! The files that a search reads, and those of which the watcher records the changes. -/

namespace McpCli.SearchTools

open IgnoreRules

variable {Content Matcher Overrides Walker : Type}
  {tools : SearchTools Content Matcher Overrides Walker} {rules : IgnoreRules Content}
  {gitignore : Gitignore Content} {disk : Disk Content} {root : AbsPath}
  {sources : RelPath → Option Overrides → WalkSources}

/-- The directory below the project root that a request asks to search. -/
def base (params : SearchGrepParams) : RelPath := params.path.getD []

/-- The globs of a request, as the walker takes them. -/
def globs (tools : SearchTools Content Matcher Overrides Walker) (root : AbsPath)
    (params : SearchGrepParams) : Option Overrides :=
  params.glob.bind fun glob => (tools.addGlob (params.searchRoot root) glob).toOption

/-- The search of a request comes to a regular file. -/
def Reads (tools : SearchTools Content Matcher Overrides Walker) (disk : Disk Content)
    (root : AbsPath) (params : SearchGrepParams) (file : RelPath) : Prop :=
  ∃ walk, tools.begin root params = .ok walk ∧
    tools.Yields disk walk.walker { path := file, isFile := true }

/-- The files of a tree that the rules do not keep a search from. -/
def Open (tools : SearchTools Content Matcher Overrides Walker) (rules : IgnoreRules Content)
    (disk : Disk Content) (root : AbsPath)
    (sources : RelPath → Option Overrides → WalkSources) (params : SearchGrepParams)
    (file : RelPath) : Prop :=
  (disk (root ++ file)).isSome ∧
    rules.reached disk root (sources (base params) (tools.globs root params)) false (base params)
      file = true

end McpCli.SearchTools

namespace McpCli

/-- The verdict on a path and its parents as it is documented. -/
def IgnoreRules.gitignore {Content : Type} (rules : IgnoreRules Content) : Gitignore Content where
  matchedPathOrAnyParents content rel :=
    Match.first (((upwards rel).filter fun entry => entry ≠ []).map fun entry =>
      rules.matched content entry (decide (entry ≠ rel)))

/-- No other source has a say, and the project has one repository. -/
def silent : WalkSources where
  overrides _ _ := .none
  dotIgnore _ _ := .none
  excludes _ _ := .none
  hasGit dir := decide (dir = [])

/-- A project with a file, and the files of its repository. -/
def repository (ignored : List String) : Disk (List String) := fun path =>
  if path = ["p", "a"] then some []
  else if path = ["p", ".gitignore"] then some ignored
  else if path = ["p", ".git", "config"] then some []
  else none

namespace SearchTools

/-- A daemon that has seen nothing yet. -/
def quiet : Watcher (List String) Unit where
  filter := Filter.new ["p"]
  log := ChangeLog.withCapacity 64
  parseCache := { capacity := 0, entries := [] }

end SearchTools

end McpCli
