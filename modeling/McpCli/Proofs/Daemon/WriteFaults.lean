import McpCli.Daemon.WriteFaults
import McpCli.Proofs.Daemon.ChangeLog

/-! When a handler that returns an error has left the file and the log as they were. -/

namespace McpCli

open Text

namespace FsCalls

/-- The bytes that `fs.apply_patch` is about to write, if it gets as far as that. -/
def patchWrites (calls : FsCalls) (root : AbsPath) (s : Served) (params : FsApplyPatchParams) :
    Option (List UInt8) :=
  match calls.openChecked root s params.path params.expectedVersion params.expectedMtimeNs with
  | .error _ => none
  | .ok (_, content) => (applyUnifiedPatch content params.patch).toOption.map encodeUtf8

/-- The bytes that `fs.replace_all` is about to write, if it gets as far as that. -/
def replaceWrites (calls : FsCalls) (root : AbsPath) (s : Served) (params : FsReplaceAllParams) :
    Option (List UInt8) :=
  if params.search = [] then none
  else
    match calls.openChecked root s params.path params.expectedVersion params.expectedMtimeNs with
    | .error _ => none
    | .ok (_, content) => (params.replaced content).toOption.join.map encodeUtf8

/-- The write is cut short and leaves other bytes than there were. -/
def CutShort (calls : FsCalls) (s : Served) (new : List UInt8) : Prop :=
  ∃ written e, calls.write = some (written, e) ∧ new.take written ≠ s.bytes

/-- The write comes out whole, and the file can no longer be looked at behind it. -/
def LostBehind (calls : FsCalls) : Prop :=
  calls.write = none ∧ ∃ e, calls.statAfter = .error e

/-- The file is opened for the new bytes, and the handler fails from there on. -/
def FailsMidway (calls : FsCalls) (s : Served) (writes : Option (List UInt8)) : Prop :=
  ∃ new, writes = some new ∧ calls.openTruncate = none ∧ (calls.CutShort s new ∨ calls.LostBehind)

/-- Nothing that is not opened is changed. -/
theorem not_failsMidway_none (calls : FsCalls) (s : Served) : ¬ calls.FailsMidway s none := by
  intro failed
  obtain ⟨new, writes, _⟩ := failed
  cases writes

/-- A recorded write shows in the log. -/
theorem recordDaemonWrite_ne (root path : AbsPath) (s : Served) (bytes : List UInt8) :
    recordDaemonWrite root path { s with bytes } ≠ s := by
  -- The version has moved on.
  intro same
  have version := congrArg (fun served => served.log.version) same
  simp only [recordDaemonWrite, ChangeLog.record_version] at version
  omega

/-- A failed commit leaves everything as it was, unless it fails midway through its write. -/
theorem commit_error_iff {Result : Type} (calls : FsCalls) (root path : AbsPath) (s : Served)
    (new : Option (List UInt8)) (report : Nat → Nat → Result) :
    (∀ fault, (calls.commit root path s new report).1 = .error fault →
      (calls.commit root path s new report).2 = s) ↔ ¬ calls.FailsMidway s new := by
  cases new with
  | none =>
    -- Without a write the last stat is all that can fail.
    have untouched : (calls.commit root path s none report).2 = s := by
      unfold commit writeAndRecord
      cases calls.metadata <;> rfl
    simp [untouched, not_failsMidway_none]
  | some bytes =>
    cases opened : calls.openTruncate with
    | some e =>
      -- A file that cannot be opened is not emptied either.
      have untouched : (calls.commit root path s (some bytes) report).2 = s := by
        simp [commit, writeAndRecord, writeFileChecked, opened]
      simp [untouched, FailsMidway, opened]
    | none =>
      cases wrote : calls.write with
      | some failure =>
        obtain ⟨written, e⟩ := failure
        have left : calls.commit root path s (some bytes) report =
            (.error (.rpc { code := -32081, message := s!"write: {e}" }),
              { s with bytes := bytes.take written }) := by
          simp [commit, writeAndRecord, writeFileChecked, opened, wrote]
        have same : { s with bytes := bytes.take written } = s ↔ bytes.take written = s.bytes :=
          ⟨fun equal => congrArg Served.bytes equal, fun equal => by rw [equal]⟩
        simp [left, same, FailsMidway, CutShort, LostBehind, opened, wrote]
      | none =>
        cases stat : calls.statAfter with
        | error e =>
          -- The write is in the file and in the log by the time of the last stat.
          have left : calls.commit root path s (some bytes) report =
              (.error (.rpc { code := -32011, message := s!"stat: {e}" }),
                recordDaemonWrite root path { s with bytes }) := by
            simp [commit, writeAndRecord, writeFileChecked, metadata, opened, wrote, stat]
          simp [left, recordDaemonWrite_ne, FailsMidway, LostBehind, opened, wrote, stat]
        | ok mtimeNs =>
          have succeeded : ∀ fault,
              (calls.commit root path s (some bytes) report).1 ≠ .error fault := by
            simp [commit, writeAndRecord, writeFileChecked, metadata, opened, wrote, stat]
          simp [succeeded, FailsMidway, CutShort, LostBehind, opened, wrote, stat]

/-- A failed `fs.apply_patch` leaves no trace, unless it fails midway through its write. -/
theorem fsApplyPatch_error_iff (calls : FsCalls) (root : AbsPath) (s : Served)
    (params : FsApplyPatchParams) :
    (∀ fault, (calls.fsApplyPatch root s params).1 = .error fault →
      (calls.fsApplyPatch root s params).2 = s) ↔
      ¬ calls.FailsMidway s (calls.patchWrites root s params) := by
  unfold fsApplyPatch patchWrites
  -- Until the commit the file is only read.
  cases calls.openChecked root s params.path params.expectedVersion params.expectedMtimeNs with
  | error error => simp [not_failsMidway_none]
  | ok opened =>
    cases patched : applyUnifiedPatch opened.2 params.patch with
    | error fault => simp [patched, Except.toOption, not_failsMidway_none]
    | ok text =>
      simp only [patched, Except.toOption, Option.map_some]
      exact calls.commit_error_iff root opened.1 s (some (encodeUtf8 text)) _

/-- A failed `fs.replace_all` leaves no trace, unless it fails midway through its write. -/
theorem fsReplaceAll_error_iff (calls : FsCalls) (root : AbsPath) (s : Served)
    (params : FsReplaceAllParams) :
    (∀ fault, (calls.fsReplaceAll root s params).1 = .error fault →
      (calls.fsReplaceAll root s params).2 = s) ↔
      ¬ calls.FailsMidway s (calls.replaceWrites root s params) := by
  unfold fsReplaceAll replaceWrites
  -- Until the commit the file is only read.
  by_cases empty : params.search = []
  · simp [empty, not_failsMidway_none]
  · simp only [if_neg empty]
    cases calls.openChecked root s params.path params.expectedVersion params.expectedMtimeNs with
    | error error => simp [not_failsMidway_none]
    | ok opened =>
      cases replaced : params.replaced opened.2 with
      | error error => simp [replaced, Except.toOption, not_failsMidway_none]
      | ok text =>
        simp only [replaced, Except.toOption, Option.join_some]
        exact calls.commit_error_iff root opened.1 s (text.map encodeUtf8) _

/--
A writing handler that returns an error has left the file and the log as they were, exactly when
it did not fail between opening the file for its new bytes and its last look at it.
-/
theorem error_leaves_no_trace_iff (calls : FsCalls) (root : AbsPath) (s : Served) :
    (∀ params : FsApplyPatchParams,
      (∀ fault, (calls.fsApplyPatch root s params).1 = .error fault →
        (calls.fsApplyPatch root s params).2 = s) ↔
        ¬ calls.FailsMidway s (calls.patchWrites root s params)) ∧
    (∀ params : FsReplaceAllParams,
      (∀ fault, (calls.fsReplaceAll root s params).1 = .error fault →
        (calls.fsReplaceAll root s params).2 = s) ↔
        ¬ calls.FailsMidway s (calls.replaceWrites root s params)) :=
  ⟨calls.fsApplyPatch_error_iff root s, calls.fsReplaceAll_error_iff root s⟩

/-- Every call succeeds, on a file with the given modification times before and after. -/
structure Faultless (calls : FsCalls) (root : AbsPath) (path : RelPath) (before after : Nat) :
    Prop where
  canonical : calls.canonicalize = .ok (root ++ path)
  statBefore : calls.statBefore = .ok before
  read : calls.read = none
  opened : calls.openTruncate = none
  wrote : calls.write = none
  statAfter : calls.statAfter = .ok after

/-- The bytes and the log of a project whose file is there. -/
def Served.holds (s : Served) (project : Project) (file : FileEntry) : Prop :=
  project.file = some file ∧ project.writable = true ∧ s.bytes = encodeUtf8 file.content ∧
    s.log = project.log

/-- Without faults, a file is opened as soon as the preconditions hold for the project. -/
theorem Faultless.openChecked {calls : FsCalls} {root : AbsPath} {path : RelPath}
    {before after : Nat} (faultless : calls.Faultless root path before after) {s : Served}
    {project : Project} {file : FileEntry} (holds : Served.holds s project file)
    (time : file.mtimeNs = before) (expectedVersion expectedMtimeNs : Option Nat) :
    calls.openChecked root s path expectedVersion expectedMtimeNs =
      (project.checkWritePreconditions expectedVersion expectedMtimeNs).map
        fun _ => (root ++ path, file.content) := by
  obtain ⟨held, _, bytes, log⟩ := holds
  have resolved : calls.resolveWithin root path = .ok (root ++ path) := by
    simp [resolveWithin, faultless.canonical]
  have checked : calls.checkWritePreconditions s expectedVersion expectedMtimeNs =
      project.checkWritePreconditions expectedVersion expectedMtimeNs := by
    -- Both look at the version first, and at the time of the file only behind it.
    simp only [FsCalls.checkWritePreconditions, Project.checkWritePreconditions, log]
    cases expectedVersion.filter fun expected => decide (project.log.snapshot.1 ≠ expected) with
    | some expected => rfl
    | none =>
      cases expectedMtimeNs with
      | none => rfl
      | some expected => simp only [faultless.statBefore, Project.metadata, held, time]
  have content : calls.readToString s = .ok file.content := by
    simp [readToString, faultless.read, bytes]
  simp only [FsCalls.openChecked, resolved, checked, content]
  cases project.checkWritePreconditions expectedVersion expectedMtimeNs <;> rfl

/-- Without faults, `fs.apply_patch` does to the bytes what it does to the project. -/
theorem Faultless.fsApplyPatch {calls : FsCalls} {root : AbsPath} {params : FsApplyPatchParams}
    {before now : Nat} (faultless : calls.Faultless root params.path before now) {s : Served}
    {project : Project} {file : FileEntry} (holds : Served.holds s project file)
    (time : file.mtimeNs = before) :
    (calls.fsApplyPatch root s params).1 = (McpCli.fsApplyPatch project now params).1 ∧
      ∃ later, Served.holds (calls.fsApplyPatch root s params).2
        (McpCli.fsApplyPatch project now params).2 later := by
  obtain ⟨held, writable, bytes, log⟩ := holds
  unfold FsCalls.fsApplyPatch McpCli.fsApplyPatch
  rw [faultless.openChecked ⟨held, writable, bytes, log⟩ time]
  cases checked : project.checkWritePreconditions params.expectedVersion
      params.expectedMtimeNs with
  | error error => exact ⟨rfl, file, held, writable, bytes, log⟩
  | ok _ =>
    have content : project.readToString = .ok file.content := by simp [Project.readToString, held]
    simp only [Except.map, content]
    cases applyUnifiedPatch file.content params.patch with
    | error fault => exact ⟨rfl, file, held, writable, bytes, log⟩
    | ok patched =>
      -- From here on both write the same text, record it and report the same time.
      have named : (stripPrefix root (root ++ params.path)).getD (root ++ params.path) =
          params.path := by simp [stripPrefix]
      simp only [commit, writeAndRecord, writeFileChecked, faultless.opened, faultless.wrote,
        FsCalls.metadata, faultless.statAfter, Project.writeFileChecked, writable, if_true,
        Project.metadata, Project.recordDaemonWrite, recordDaemonWrite, named, log]
      exact ⟨trivial, _, rfl, rfl, rfl, rfl⟩

/-- Without faults, `fs.replace_all` does to the bytes what it does to the project. -/
theorem Faultless.fsReplaceAll {calls : FsCalls} {root : AbsPath} {params : FsReplaceAllParams}
    {before now : Nat} (faultless : calls.Faultless root params.path before now) {s : Served}
    {project : Project} {file : FileEntry} (holds : Served.holds s project file)
    (time : file.mtimeNs = before) (replaces : params.replaced file.content ≠ .ok none) :
    (calls.fsReplaceAll root s params).1 = (McpCli.fsReplaceAll project now params).1 ∧
      ∃ later, Served.holds (calls.fsReplaceAll root s params).2
        (McpCli.fsReplaceAll project now params).2 later := by
  obtain ⟨held, writable, bytes, log⟩ := holds
  unfold FsCalls.fsReplaceAll McpCli.fsReplaceAll
  by_cases empty : params.search = []
  · simp only [if_pos empty]
    exact ⟨trivial, file, held, writable, bytes, log⟩
  · simp only [if_neg empty]
    -- The checks in front of the write see the same file.
    rw [faultless.openChecked ⟨held, writable, bytes, log⟩ time]
    cases checked : project.checkWritePreconditions params.expectedVersion
        params.expectedMtimeNs with
    | error error => exact ⟨rfl, file, held, writable, bytes, log⟩
    | ok _ =>
      have content : project.readToString = .ok file.content := by
        simp [Project.readToString, held]
      simp only [Except.map, content]
      cases replaced : params.replaced file.content with
      | error error => exact ⟨rfl, file, held, writable, bytes, log⟩
      | ok text =>
        cases text with
        | none => exact absurd replaced replaces
        | some text =>
          -- The file lies below the root, so it is recorded under its relative path.
          have named : (stripPrefix root (root ++ params.path)).getD (root ++ params.path) =
              params.path := by simp [stripPrefix]
          simp only [commit, writeAndRecord, writeFileChecked, faultless.opened, faultless.wrote,
            FsCalls.metadata, faultless.statAfter, Project.writeFileChecked, writable, if_true,
            Project.metadata, Project.recordDaemonWrite, recordDaemonWrite, named, log,
            Option.map_some]
          exact ⟨trivial, _, rfl, rfl, rfl, rfl⟩

/-- A disk that is full: the file is emptied, and nothing comes out any more. -/
def diskFull : FsCalls where
  canonicalize := .ok ["repo", "a"]
  statBefore := .ok 1
  read := none
  openTruncate := none
  write := some (0, "No space left on device (os error 28)")
  statAfter := .ok 2

/-- A file that is taken away behind the write. -/
def takenAway : FsCalls where
  canonicalize := .ok ["repo", "a"]
  statBefore := .ok 1
  read := none
  openTruncate := none
  write := none
  statAfter := .error notFound

/-- Replace one letter. -/
def replaceLetter : FsReplaceAllParams where
  path := ["a"]
  search := ['x']
  replacement := ['y']
  expectedVersion := none
  expectedMtimeNs := none
  maxReplacements := none

/-- A project with one file of one letter. -/
def oneLetter : Served where
  bytes := encodeUtf8 ['x']
  log := ChangeLog.withCapacity 64

/--
On a full disk a replacement fails and leaves an empty file that the log knows nothing of.
With the file taken away behind the write it fails as well, and the log has a new version.
-/
theorem failed_replacement_empties_file :
    (diskFull.fsReplaceAll ["repo"] oneLetter replaceLetter).1 =
        .error (.rpc { code := -32081
                       message := "write: No space left on device (os error 28)" }) ∧
      (diskFull.fsReplaceAll ["repo"] oneLetter replaceLetter).2.bytes = [] ∧
      oneLetter.bytes ≠ [] ∧
      (takenAway.fsReplaceAll ["repo"] oneLetter replaceLetter).1 =
        .error (.rpc { code := -32011
                       message := "stat: No such file or directory (os error 2)" }) ∧
      (takenAway.fsReplaceAll ["repo"] oneLetter replaceLetter).2.log.version = 1 := by
  -- Both runs get as far as the write, with the letter replaced.
  have readable : decodeUtf8 oneLetter.bytes = some ['x'] := decodeUtf8_encodeUtf8 ['x']
  have opened : ∀ calls : FsCalls, calls.canonicalize = .ok ["repo", "a"] → calls.read = none →
      calls.openChecked ["repo"] oneLetter ["a"] none none = .ok (["repo", "a"], ['x']) := by
    intro calls canonical read
    simp [openChecked, resolveWithin, checkWritePreconditions, readToString, canonical, read,
      readable, Except.map]
  have replaced : replaceLetter.replaced ['x'] = .ok (some ['y']) := by decide
  have full := opened diskFull rfl rfl
  have gone := opened takenAway rfl rfl
  have named : replaceLetter.search ≠ [] := by decide
  unfold fsReplaceAll
  simp only [if_neg named]
  rw [show replaceLetter.path = ["a"] from rfl, show replaceLetter.expectedVersion = none from rfl,
    show replaceLetter.expectedMtimeNs = none from rfl, full, gone]
  simp only [replaced]
  refine ⟨rfl, rfl, ?_, rfl, rfl⟩
  decide

end FsCalls

end McpCli
