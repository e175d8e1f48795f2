import McpCli.Daemon.Watcher
import McpCli.Text.Lossy

/-! The `git.log` and `git.history` methods: a walk over commits, and which of them it keeps. -/

namespace McpCli

open Text

/-- The bytes of a path in a repository. -/
abbrev GitPath := List UInt8

/-- The digits of an object id. -/
abbrev Oid := String

/-- What a tree has under a path. -/
inductive TreeEntry where
  | blob (mode : Nat) (id : Oid)
  | tree (id : Oid)
  deriving DecidableEq, Repr

/-- A file that differs between two trees, with its path in each of them. -/
structure GitDelta where
  oldFile : Option GitPath
  newFile : Option GitPath
  deriving DecidableEq, Repr

/-- A commit as it is looked up, of which the tree may be missing. -/
structure CommitObject (Tree : Type) where
  parents : List Oid
  tree : Except String Tree
  author : Option String
  seconds : Int
  summary : Option String

/-- What the third-party library makes of a repository. -/
structure GitRepository (Tree : Type) where
  revwalk : Except String Unit
  revparseSingle : String → Except String Oid
  /-- The ids that the walk yields from a commit on, some of which may be errors. -/
  push : Oid → Except String (List (Except String Oid))
  pushHead : Except String (List (Except String Oid))
  findCommit : Oid → Except String (CommitObject Tree)
  diffTreeToTree : Tree → Tree → Except String (List GitDelta)
  getPath : Tree → GitPath → Option TreeEntry

/-- How a request finds its repository, and how a time is written. -/
structure GitCalls (Tree : Type) where
  resolveWithin : RelPath → Except RpcError AbsPath
  discover : AbsPath → Except String (GitRepository Tree)
  toRfc3339 : Int → Option String

/-- How a request fails. -/
inductive GitFault where
  | refused (error : RpcError)
  | panicked
  deriving DecidableEq, Repr

/-- A request that is refused. -/
def refuse {α : Type} (code : Int) (message : String) : Except GitFault α :=
  .error (.refused { code, message })

/-- How many commits there are at most when the request sets no limit. -/
def gitLogDefaultCount : Nat := 50

/-- How many commits there are at most. -/
def GitLogParams.max (params : GitLogParams) : Nat := params.maxCount.getD gitLogDefaultCount

/-- The path of a delta reads as the text. -/
def readsAs (path : List Char) (file : Option GitPath) : Bool :=
  file.any fun bytes => decodeLossy bytes = path

section

variable {Tree : Type}

/-- Whether a commit touches a path. -/
def GitRepository.touches (repo : GitRepository Tree) (path : List Char)
    (commit : CommitObject Tree) : Except GitFault Bool :=
  match commit.parents with
  | first :: _ =>
    -- Whatever fails here is unwrapped.
    match repo.findCommit first with
    | .error _ => .error .panicked
    | .ok parent =>
      match commit.tree, parent.tree with
      | .ok tree, .ok parentTree =>
        match repo.diffTreeToTree parentTree tree with
        | .error _ => .error .panicked
        | .ok deltas =>
          .ok (deltas.any fun delta => readsAs path delta.newFile || readsAs path delta.oldFile)
      | _, _ => .error .panicked
  | [] =>
    match commit.tree with
    | .error e => refuse (-32045) s!"commit tree: {e}"
    | .ok tree => .ok (repo.getPath tree (encodeUtf8 path)).isSome

/-- Whether a commit is kept, which all are without a path. -/
def GitRepository.keeps (repo : GitRepository Tree) (path : Option (List Char))
    (commit : CommitObject Tree) : Except GitFault Bool :=
  match path with
  | none => .ok true
  | some path => repo.touches path commit

/-- A commit as it is returned. -/
def gitCommit (toRfc3339 : Int → Option String) (id : Oid) (commit : CommitObject Tree) :
    GitCommit where
  sha := id
  author := commit.author.getD "unknown"
  date := (toRfc3339 commit.seconds).getD "unknown"
  message := commit.summary.getD ""

/-- The loop over the ids, with the commits that were kept before. -/
def GitRepository.logFrom (repo : GitRepository Tree) (toRfc3339 : Int → Option String)
    (path : Option (List Char)) (max : Nat) :
    List (Except String Oid) → List GitCommit → Except GitFault GitLogResult
  | [], commits => .ok { commits }
  | .error e :: _, _ => refuse (-32044) s!"walk: {e}"
  | .ok id :: rest, commits =>
    match repo.findCommit id with
    | .error e => refuse (-32045) s!"find commit: {e}"
    | .ok commit =>
      match repo.keeps path commit with
      | .error fault => .error fault
      | .ok false => logFrom repo toRfc3339 path max rest commits
      | .ok true =>
        let commits := commits ++ [gitCommit toRfc3339 id commit]
        -- The limit is looked at behind the commit that was just added.
        if max ≤ commits.length then .ok { commits }
        else logFrom repo toRfc3339 path max rest commits

/-- The ids from where the request starts. -/
def GitRepository.walk (repo : GitRepository Tree) (revision : Option String) :
    Except GitFault (List (Except String Oid)) :=
  match repo.revwalk with
  | .error e => refuse (-32040) s!"revwalk: {e}"
  | .ok () =>
    match revision with
    | some rev =>
      match repo.revparseSingle rev with
      | .error e => refuse (-32041) s!"revparse {rev}: {e}"
      | .ok id =>
        match repo.push id with
        | .error e => refuse (-32042) s!"push rev: {e}"
        | .ok ids => .ok ids
    | none =>
      match repo.pushHead with
      | .error e => refuse (-32043) s!"push head: {e}"
      | .ok ids => .ok ids

/-- The repository of a request. -/
def GitCalls.open (calls : GitCalls Tree) (root : AbsPath) (repo : Option RelPath) :
    Except GitFault (GitRepository Tree) :=
  match repo.elim (.ok root) calls.resolveWithin with
  | .error error => .error (.refused error)
  | .ok repoRoot =>
    match calls.discover repoRoot with
    | .error e => refuse (-32020) s!"discover repo: {e}"
    | .ok repo => .ok repo

/-- The `git.log` method. -/
def gitLog (calls : GitCalls Tree) (root : AbsPath) (params : GitLogParams) :
    Except GitFault GitLogResult :=
  match calls.open root params.repo with
  | .error fault => .error fault
  | .ok repo =>
    match repo.walk params.revision with
    | .error fault => .error fault
    | .ok ids => repo.logFrom calls.toRfc3339 params.path params.max ids []

/-- The `git.history` method, a log from the head. -/
def gitHistory (calls : GitCalls Tree) (root : AbsPath) (params : GitHistoryParams) :
    Except GitFault GitHistoryResult :=
  let log := gitLog calls root
    { repo := params.repo, maxCount := params.maxCount, revision := none, path := some params.path }
  match log with
  | .error fault => .error fault
  | .ok log => .ok { path := params.path, commits := log.commits }

end

end McpCli
