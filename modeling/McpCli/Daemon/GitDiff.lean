import McpCli.Daemon.Watcher
import McpCli.Text.Utf8

/-! The `git.diff` method, which puts together what the third-party library prints. -/

namespace McpCli

open Text

/-- A line of a printed diff, which may also be several lines, or the end of one. -/
structure PrintedLine where
  /-- What the line is: `+`, `-` or a blank for the lines of a hunk, and other characters. -/
  origin : Char
  content : List UInt8
  deriving DecidableEq, Repr

/-- What the third-party library makes of a repository. -/
structure DiffRepository (Object Tree Diff : Type) where
  revparseSingle : String → Except String Object
  peelToTree : Object → Except String Tree
  diffTreeToTree : Tree → Tree → Option String → Except String Diff
  diffTreeToWorkdirWithIndex : Tree → Option String → Except String Diff
  print : Diff → Except String (List PrintedLine)

/-- How a request finds its repository. -/
structure DiffCalls (Object Tree Diff : Type) where
  resolveWithin : RelPath → Except RpcError AbsPath
  discover : AbsPath → Except String (DiffRepository Object Tree Diff)

/-- The request of `git.diff`. -/
structure GitDiffParams where
  /-- Where the repository is, below the project root. -/
  repo : Option RelPath
  /-- The revision to start from, the head if there is none. -/
  base : Option String
  /-- The revision to get to, the working tree if there is none. -/
  target : Option String
  path : Option String
  deriving DecidableEq, Repr

/-- The answer of `git.diff`. -/
structure GitDiffResult where
  diff : List Char
  deriving DecidableEq, Repr

/-- What is put into the answer for a line. -/
def PrintedLine.text (line : PrintedLine) : List Char :=
  (if line.origin = '+' ∨ line.origin = '-' ∨ line.origin = ' ' then [line.origin] else []) ++
    -- What is no text is left out.
    (decodeUtf8 line.content).getD []

section

variable {Object Tree Diff : Type}

/-- The tree of a revision. -/
def DiffRepository.treeOf (repo : DiffRepository Object Tree Diff) (rev : String) :
    Except RpcError Tree :=
  match repo.revparseSingle rev with
  | .error e => .error { code := -32041, message := s!"revparse {rev}: {e}" }
  | .ok object =>
    match repo.peelToTree object with
    | .error e => .error { code := -32046, message := s!"peel to tree: {e}" }
    | .ok tree => .ok tree

/-- The difference that a request asks for. -/
def DiffRepository.diffOf (repo : DiffRepository Object Tree Diff) (params : GitDiffParams) :
    Except RpcError Diff :=
  match repo.treeOf (params.base.getD "HEAD") with
  | .error error => .error error
  | .ok base =>
    match params.target with
    | some target =>
      match repo.treeOf target with
      | .error error => .error error
      | .ok target =>
        match repo.diffTreeToTree base target params.path with
        | .error e => .error { code := -32047, message := s!"diff: {e}" }
        | .ok diff => .ok diff
    | none =>
      match repo.diffTreeToWorkdirWithIndex base params.path with
      | .error e => .error { code := -32047, message := s!"diff: {e}" }
      | .ok diff => .ok diff

/-- What is printed for a request. -/
def DiffCalls.printed (calls : DiffCalls Object Tree Diff) (root : AbsPath)
    (params : GitDiffParams) : Except RpcError (List PrintedLine) :=
  match params.repo.elim (.ok root) calls.resolveWithin with
  | .error error => .error error
  | .ok repoRoot =>
    match calls.discover repoRoot with
    | .error e => .error { code := -32020, message := s!"discover repo: {e}" }
    | .ok repo =>
      match repo.diffOf params with
      | .error error => .error error
      | .ok diff =>
        match repo.print diff with
        | .error e => .error { code := -32048, message := s!"print diff: {e}" }
        | .ok lines => .ok lines

/-- The `git.diff` method. -/
def gitDiff (calls : DiffCalls Object Tree Diff) (root : AbsPath) (params : GitDiffParams) :
    Except RpcError GitDiffResult :=
  match calls.printed root params with
  | .error error => .error error
  | .ok lines => .ok { diff := lines.flatMap PrintedLine.text }

end

end McpCli
