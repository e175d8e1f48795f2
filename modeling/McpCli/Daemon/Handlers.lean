import McpCli.Daemon.ChangeLog
import McpCli.Daemon.Patch
import McpCli.Text.Replace

/-! The handlers that write files: `fs.apply_patch` and `fs.replace_all`. -/

namespace McpCli

open Text

/-- A regular file. -/
structure FileEntry where
  content : List Char
  mtimeNs : Nat
  deriving DecidableEq, Repr

/-- The file that a handler works on, and the log of its daemon. -/
structure Project where
  file : Option FileEntry
  /-- The file may be opened for writing, or created. -/
  writable : Bool
  log : ChangeLog
  deriving DecidableEq, Repr

/-- What the operating system says about a file that is not there. -/
def notFound : String := "No such file or directory (os error 2)"

namespace Project

/-- The file's contents. -/
def readToString (project : Project) : Except RpcError (List Char) :=
  match project.file with
  | none => .error { code := -32080, message := "read: " ++ notFound }
  | some file => .ok file.content

/-- The file's modification time. -/
def metadata (project : Project) : Except RpcError Nat :=
  match project.file with
  | none => .error { code := -32011, message := "stat: " ++ notFound }
  | some file => .ok file.mtimeNs

/-- Write the file at a given time. -/
def writeFileChecked (project : Project) (now : Nat) (content : List Char) :
    Except RpcError Project :=
  if project.writable then .ok { project with file := some { content, mtimeNs := now } }
  else .error { code := -32081, message := "write: Permission denied (os error 13)" }

/-- Record a write in the log. -/
def recordDaemonWrite (project : Project) (path : RelPath) : Project :=
  { project with log := project.log.record path .modified }

/-- Refuse a write whose expectations no longer hold. -/
def checkWritePreconditions (project : Project) (expectedVersion expectedMtimeNs : Option Nat) :
    Except RpcError Unit :=
  let current := project.log.snapshot.1
  match expectedVersion.filter fun expected => current ≠ expected with
  | some expected =>
    .error
      { code := -32082
        message := s!"stale write: expected version {expected}, current version {current}" }
  | none =>
    -- The file is looked at only if a time is expected of it.
    match expectedMtimeNs with
    | none => .ok ()
    | some expected =>
      match project.metadata with
      | .error error => .error error
      | .ok current =>
        if current = expected then .ok ()
        else
          .error
            { code := -32083
              message := s!"stale write: expected mtime_ns {expected}, current mtime_ns {current}" }

end Project

/-- The new contents that a replacement asks for, if it asks for any. -/
def FsReplaceAllParams.replaced (params : FsReplaceAllParams) (content : List Char) :
    Except RpcError (Option (List Char)) :=
  let replacements := matchCount params.search 0 content
  match params.maxReplacements.filter fun max => max < replacements with
  | some max =>
    .error
      { code := -32086
        message := s!"replacement count {replacements} exceeds max_replacements {max}" }
  | none =>
    -- A text without a match is left alone.
    if 0 < replacements then
      .ok (some (replaceMatches params.search params.replacement 0 content))
    else .ok none

/-- The `fs.apply_patch` method, run without interruption. -/
def fsApplyPatch (project : Project) (now : Nat) (params : FsApplyPatchParams) :
    Except HandlerFault FsApplyPatchResult × Project :=
  match project.checkWritePreconditions params.expectedVersion params.expectedMtimeNs with
  | .error error => (.error (.rpc error), project)
  | .ok () =>
    match project.readToString with
    | .error error => (.error (.rpc error), project)
    | .ok content =>
      match applyUnifiedPatch content params.patch with
      | .error fault => (.error fault, project)
      | .ok patched =>
        match project.writeFileChecked now patched with
        | .error error => (.error (.rpc error), project)
        | .ok project =>
          let project := project.recordDaemonWrite params.path
          match project.metadata with
          | .error error => (.error (.rpc error), project)
          | .ok mtimeNs =>
            -- The version of the answer counts the write that was just recorded.
            let version := project.log.snapshot.1
            (.ok { path := params.path, applied := true, version, mtimeNs }, project)

/-- The `fs.replace_all` method, run without interruption. -/
def fsReplaceAll (project : Project) (now : Nat) (params : FsReplaceAllParams) :
    Except HandlerFault FsReplaceAllResult × Project :=
  if params.search = [] then
    (.error (.rpc { code := -32602, message := "search must not be empty" }), project)
  else
    match project.checkWritePreconditions params.expectedVersion params.expectedMtimeNs with
    | .error error => (.error (.rpc error), project)
    | .ok () =>
      match project.readToString with
      | .error error => (.error (.rpc error), project)
      | .ok content =>
        let replacements := matchCount params.search 0 content
        match params.replaced content with
        | .error error => (.error (.rpc error), project)
        | .ok replaced =>
          -- Without an occurrence nothing is written and nothing is recorded.
          let written : Except RpcError Project :=
            match replaced with
            | none => .ok project
            | some replaced =>
              (project.writeFileChecked now replaced).map fun project =>
                project.recordDaemonWrite params.path
          match written with
          | .error error => (.error (.rpc error), project)
          | .ok project =>
            match project.metadata with
            | .error error => (.error (.rpc error), project)
            | .ok mtimeNs =>
              let version := project.log.snapshot.1
              (.ok { path := params.path, replacements, version, mtimeNs }, project)

end McpCli
