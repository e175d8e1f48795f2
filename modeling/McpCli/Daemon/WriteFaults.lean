import McpCli.Daemon.Handlers
import McpCli.Daemon.Watcher
import McpCli.Text.Utf8

/-! The writing handlers once more, on bytes, when every filesystem call of theirs may fail. -/

namespace McpCli

open Text

/-- What the filesystem calls of one handler answer. -/
structure FsCalls where
  /-- The canonical form of the requested path, or why there is none. -/
  canonicalize : Except String AbsPath
  /-- The modification time that the precondition check sees. -/
  statBefore : Except String Nat
  /-- Why the file cannot be read, if it cannot. -/
  read : Option String
  /-- Why the file cannot be opened and truncated, if it cannot. -/
  openTruncate : Option String
  /-- How many bytes come out before the write fails, and why it fails, if it does. -/
  write : Option (Nat × String)
  /-- The modification time that is reported in the end. -/
  statAfter : Except String Nat

/-- The bytes of the file that a handler works on, and the log of its daemon. -/
structure Served where
  bytes : List UInt8
  log : ChangeLog
  deriving DecidableEq, Repr

namespace FsCalls

/-- The canonical path of a candidate, which must lie below the root. -/
def resolveWithin (calls : FsCalls) (root : AbsPath) (candidate : RelPath) :
    Except RpcError AbsPath :=
  let shown := "/".intercalate candidate
  match calls.canonicalize with
  | .error e => .error { code := -32001, message := s!"canonicalize {shown}: {e}" }
  | .ok canon =>
    let shown := "/" ++ "/".intercalate canon
    -- Links have been followed by now.
    if root <+: canon then .ok canon
    else .error { code := -32002, message := s!"path escapes root: {shown}" }

/-- Refuse a write whose expectations no longer hold. -/
def checkWritePreconditions (calls : FsCalls) (s : Served)
    (expectedVersion expectedMtimeNs : Option Nat) : Except RpcError Unit :=
  let current := s.log.snapshot.1
  match expectedVersion.filter fun expected => current ≠ expected with
  | some expected =>
    .error
      { code := -32082
        message := s!"stale write: expected version {expected}, current version {current}" }
  | none =>
    -- The time is only looked at when the version is right.
    match expectedMtimeNs with
    | none => .ok ()
    | some expected =>
      match calls.statBefore with
      | .error e => .error { code := -32011, message := s!"stat: {e}" }
      | .ok current =>
        if current = expected then .ok ()
        else
          .error
            { code := -32083
              message := s!"stale write: expected mtime_ns {expected}, current mtime_ns {current}" }

/-- The contents of the file, which must be a text. -/
def readToString (calls : FsCalls) (s : Served) : Except RpcError (List Char) :=
  match calls.read with
  | some e => .error { code := -32080, message := s!"read: {e}" }
  | none =>
    match decodeUtf8 s.bytes with
    | none =>
      .error { code := -32080, message := "read: stream did not contain valid UTF-8" }
    | some content => .ok content

/-- Empty the file, then write the new bytes into it. -/
def writeFileChecked (calls : FsCalls) (s : Served) (bytes : List UInt8) :
    Except RpcError Unit × Served :=
  match calls.openTruncate with
  | some e => (.error { code := -32081, message := s!"write: {e}" }, s)
  | none =>
    match calls.write with
    | some (written, e) =>
      -- What came out before the failure stays in the file.
      (.error { code := -32081, message := s!"write: {e}" }, { s with bytes := bytes.take written })
    | none => (.ok (), { s with bytes })

/-- Record a write under the path below the root. -/
def recordDaemonWrite (root path : AbsPath) (s : Served) : Served :=
  { s with log := s.log.record ((stripPrefix root path).getD path) .modified }

/-- The modification time of the file after the write. -/
def metadata (calls : FsCalls) : Except RpcError Nat :=
  match calls.statAfter with
  | .error e => .error { code := -32011, message := s!"stat: {e}" }
  | .ok mtimeNs => .ok mtimeNs

/-- Write and record the new contents, if there are any. -/
def writeAndRecord (calls : FsCalls) (root path : AbsPath) (s : Served)
    (new : Option (List UInt8)) : Except RpcError Unit × Served :=
  match new with
  -- A replacement that finds nothing writes nothing.
  | none => (.ok (), s)
  | some bytes =>
    match calls.writeFileChecked s bytes with
    | (.error error, s) => (.error error, s)
    | (.ok (), s) => (.ok (), recordDaemonWrite root path s)

/-- What both handlers do last: write, record, and report the version and the time. -/
def commit {Result : Type} (calls : FsCalls) (root path : AbsPath) (s : Served)
    (new : Option (List UInt8)) (report : (version mtimeNs : Nat) → Result) :
    Except HandlerFault Result × Served :=
  match calls.writeAndRecord root path s new with
  | (.error error, s) => (.error (.rpc error), s)
  | (.ok (), s) =>
    -- The write has been made by now, whatever this says.
    match calls.metadata with
    | .error error => (.error (.rpc error), s)
    | .ok mtimeNs => (.ok (report s.log.snapshot.1 mtimeNs), s)

/-- The canonical path and the contents of a file whose preconditions hold. -/
def openChecked (calls : FsCalls) (root : AbsPath) (s : Served) (path : RelPath)
    (expectedVersion expectedMtimeNs : Option Nat) : Except RpcError (AbsPath × List Char) :=
  match calls.resolveWithin root path with
  | .error error => .error error
  | .ok path =>
    match calls.checkWritePreconditions s expectedVersion expectedMtimeNs with
    | .error error => .error error
    | .ok () => (calls.readToString s).map fun content => (path, content)

/-- The `fs.apply_patch` method. -/
def fsApplyPatch (calls : FsCalls) (root : AbsPath) (s : Served) (params : FsApplyPatchParams) :
    Except HandlerFault FsApplyPatchResult × Served :=
  match calls.openChecked root s params.path params.expectedVersion params.expectedMtimeNs with
  | .error error => (.error (.rpc error), s)
  | .ok (path, content) =>
    match applyUnifiedPatch content params.patch with
    | .error fault => (.error fault, s)
    | .ok patched =>
      calls.commit root path s (some (encodeUtf8 patched)) fun version mtimeNs =>
        { path := params.path, applied := true, version, mtimeNs }

/-- The `fs.replace_all` method. -/
def fsReplaceAll (calls : FsCalls) (root : AbsPath) (s : Served) (params : FsReplaceAllParams) :
    Except HandlerFault FsReplaceAllResult × Served :=
  if params.search = [] then
    (.error (.rpc { code := -32602, message := "search must not be empty" }), s)
  else
    match calls.openChecked root s params.path params.expectedVersion params.expectedMtimeNs with
    | .error error => (.error (.rpc error), s)
    | .ok (path, content) =>
      match params.replaced content with
      | .error error => (.error (.rpc error), s)
      | .ok replaced =>
        let replacements := matchCount params.search 0 content
        calls.commit root path s (replaced.map encodeUtf8) fun version mtimeNs =>
          { path := params.path, replacements, version, mtimeNs }

end FsCalls

end McpCli
