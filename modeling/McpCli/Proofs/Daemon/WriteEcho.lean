import McpCli.Daemon.WriteEcho
import McpCli.Proofs.Daemon.Restart
import McpCli.Proofs.Daemon.Watcher
import McpCli.Proofs.Daemon.WriteRace

/-! When each write of the daemon is counted once, by its handler and not by the watcher too. -/

namespace McpCli

open Transition

variable {Parsed : Type} {gitignore : Gitignore (List Char)}

namespace Filter

/-- Walking the directories leaves the root where it was. -/
theorem keepFrom_root (disk : Disk (List Char)) (rel : RelPath) (dirs : List AbsPath)
    (filter : Filter (List Char)) :
    (keepFrom gitignore disk rel dirs filter).2.root = filter.root := by
  -- A lookup only fills the cache.
  have looked : ∀ (filter : Filter (List Char)) (dir : AbsPath),
      (filter.gitignoreFor disk dir).2.root = filter.root := by
    intro filter dir
    unfold gitignoreFor
    cases filter.cache dir <;> rfl
  induction dirs generalizing filter with
  | nil => rfl
  | cons dir rest ih =>
    have root := looked filter dir
    have later := ih (filter.gitignoreFor disk dir).2
    rw [root] at later
    simp only [keepFrom]
    cases (filter.gitignoreFor disk dir).1 with
    | none => exact later
    | some rules =>
      cases stripPrefix dir ((filter.gitignoreFor disk dir).2.root ++ rel) with
      | none => exact later
      | some relToGi =>
        simp only
        cases gitignore.matchedPathOrAnyParents rules relToGi with
        | ignore => exact root
        | whitelist => exact root
        | none => exact later

/-- Judging a path leaves the root where it was. -/
theorem keep_root (gitignore : Gitignore (List Char)) (disk : Disk (List Char))
    (filter : Filter (List Char)) (path : AbsPath) :
    (filter.keep gitignore disk path).2.root = filter.root := by
  -- Only the cache of ignore rules can change.
  unfold keep
  cases stripPrefix filter.root path with
  | none => rfl
  | some rel =>
    simp only
    split
    · rfl
    · exact keepFrom_root disk rel _ filter

end Filter

namespace Watcher

/-- The watcher keeps a path below its root, judged after the path's own rules were dropped. -/
def heeds (gitignore : Gitignore (List Char)) (disk : Disk (List Char))
    (watcher : Watcher (List Char) Parsed) (path : AbsPath) : Bool :=
  let filter :=
    if path.getLast? = some ".gitignore" then watcher.filter.invalidate path.dropLast
    else watcher.filter
  (filter.keep gitignore disk path).1 && (stripPrefix watcher.filter.root path).any (· ≠ [])

/-- A write that is heard of moves the log on exactly when the watcher heeds it. -/
theorem handleEvent_write (disk : Disk (List Char)) (watcher : Watcher (List Char) Parsed)
    (path : AbsPath) :
    (watcher.handleEvent gitignore disk { kind := .modify .data, paths := [path] }).log.version =
        watcher.log.version + (if watcher.heeds gitignore disk path then 1 else 0) ∧
      (watcher.handleEvent gitignore disk
        { kind := .modify .data, paths := [path] }).filter.root = watcher.filter.root := by
  -- The event names one path, under one kind.
  have single : watcher.handleEvent gitignore disk { kind := .modify .data, paths := [path] } =
      watcher.handlePath gitignore disk path .modified := rfl
  rw [single]
  unfold handlePath heeds
  generalize chosen : (if path.getLast? = some ".gitignore" then
    watcher.filter.invalidate path.dropLast else watcher.filter) = filter
  have root : filter.root = watcher.filter.root := by
    rw [← chosen]
    split <;> rfl
  have same := Filter.keep_root gitignore disk filter path
  rw [root] at same
  simp only [Filter.relative, same]
  rcases Bool.eq_false_or_eq_true (filter.keep gitignore disk path).1 with kept | ignored
  · simp only [kept]
    cases stripPrefix watcher.filter.root path with
    | none => exact ⟨by simp, same⟩
    | some rel => by_cases top : rel = [] <;> simp [top, same]
  · simp only [ignored]
    exact ⟨by simp, same⟩

end Watcher

/-- The error code of a write that expected another version. -/
def staleVersion : Int := -32082

/-- The fault is not that the write expected another version. -/
def HandlerFault.fresh : HandlerFault → Prop
  | .rpc error => error.code ≠ staleVersion
  | .panic => True

/-- A patch that does not apply is not a stale one. -/
theorem patchError_fresh (message : String) : (HandlerFault.rpc (patchError message)).fresh := by
  show (-32084 : Int) ≠ -32082
  decide

/-- No hunk header is refused for its version. -/
theorem enterHunk_fresh {originalLines : List (List Char)} {header : List Char}
    {st : PatchState} {fault : HandlerFault}
    (failed : enterHunk originalLines header st = .error fault) : fault.fresh := by
  unfold enterHunk at failed
  cases parsed : parseHunkHeader header with
  | error error =>
    -- Both errors of the header have the code of a patch.
    simp only [parsed] at failed
    cases failed
    unfold parseHunkHeader at parsed
    split at parsed
    · cases parsed
      exact patchError_fresh _
    · simp only at parsed
      split at parsed
      · cases parsed
        exact patchError_fresh _
      · cases parsed
  | ok range =>
    simp only [parsed] at failed
    split at failed
    · cases failed
      exact patchError_fresh _
    · -- The slice of the original can only panic.
      split at failed
      · cases failed
        exact trivial
      · cases failed

/-- No line of a hunk is refused for its version. -/
theorem applyHunkLine_fresh {originalLines : List (List Char)} {line : List Char}
    {st : PatchState} {fault : HandlerFault}
    (failed : applyHunkLine originalLines line st = .error fault) : fault.fresh := by
  -- Every way out is a success, a panic, or an error of the patch.
  unfold applyHunkLine at failed
  repeat' split at failed
  all_goals
    rcases failed with ⟨⟩
    try first
      | exact patchError_fresh _
      | exact trivial

/-- No line of a patch is refused for its version. -/
theorem applyPatchLines_fresh {originalLines patchLines : List (List Char)} {inHunk : Bool}
    {st : PatchState} {fault : HandlerFault}
    (failed : applyPatchLines originalLines inHunk patchLines st = .error fault) : fault.fresh := by
  -- The lines are gone through one after another, and the first fault ends the walk.
  induction patchLines generalizing inHunk st with
  | nil =>
    simp only [applyPatchLines] at failed
    cases failed
  | cons line rest ih =>
    simp only [applyPatchLines] at failed
    split at failed
    · split at failed
      · rename_i entered
        cases failed
        exact enterHunk_fresh entered
      · exact ih failed
    · split at failed
      · exact ih failed
      · split at failed
        · exact ih failed
        · split at failed
          · exact ih failed
          · split at failed
            · rename_i applied
              cases failed
              exact applyHunkLine_fresh applied
            · exact ih failed

/-- No patch is refused for its version. -/
theorem applyUnifiedPatch_fresh {original patch : List Char} {fault : HandlerFault}
    (failed : applyUnifiedPatch original patch = .error fault) : fault.fresh := by
  unfold applyUnifiedPatch at failed
  simp only at failed
  -- It fails in the walk over its lines, or because there was no hunk at all.
  split at failed
  · rename_i walked
    cases failed
    exact applyPatchLines_fresh walked
  · split at failed
    · cases failed
      exact patchError_fresh _
    · split at failed
      · cases failed
        exact trivial
      · cases failed

/-- What a request asks for is not refused for its version. -/
theorem WriteRequest.edit_fresh {request : WriteRequest} {content : List Char}
    {fault : HandlerFault} (failed : request.edit content = .error fault) : fault.fresh := by
  -- A patch that does not apply and too many replacements have codes of their own.
  cases request with
  | applyPatch params =>
    cases patched : applyUnifiedPatch content params.patch with
    | error other =>
      simp only [edit, patched, Except.map] at failed
      cases failed
      exact applyUnifiedPatch_fresh patched
    | ok text => simp [edit, patched, Except.map] at failed
  | replaceAll params =>
    simp only [edit, FsReplaceAllParams.replaced] at failed
    split at failed
    · cases failed
      show (-32086 : Int) ≠ -32082
      decide
    · split at failed <;> cases failed

/-- A file that is not there is not refused for its version. -/
theorem Project.metadata_fresh {project : Project} {error : RpcError}
    (missing : project.metadata = .error error) : (HandlerFault.rpc error).fresh := by
  -- The error is the one of a file that cannot be read.
  cases held : project.file with
  | none =>
    simp only [Project.metadata, held] at missing
    cases missing
    show (-32011 : Int) ≠ -32082
    decide
  | some file => simp [Project.metadata, held] at missing

/-- A request is only refused for its version when it expected another one. -/
theorem WriteRequest.check_fresh {request : WriteRequest} {project : Project} {error : RpcError}
    (failed : request.check project = .error error)
    (expected : ∀ version, request.expectedVersion = some version →
      project.log.version = version) : (HandlerFault.rpc error).fresh := by
  -- With the expected version in place, only the modification time is left to differ.
  have timed : ∀ expectedVersion expectedMtimeNs : Option Nat,
      (∀ version, expectedVersion = some version → project.log.version = version) →
      project.checkWritePreconditions expectedVersion expectedMtimeNs = .error error →
      (HandlerFault.rpc error).fresh := by
    intro expectedVersion expectedMtimeNs met refused
    have passed : (expectedVersion.filter fun expected =>
        decide (project.log.snapshot.1 ≠ expected)) = none := by
      cases expectedVersion with
      | none => rfl
      | some version => simp [ChangeLog.snapshot, met version rfl]
    simp only [Project.checkWritePreconditions, passed] at refused
    split at refused
    · cases refused
    · split at refused
      · rename_i stat
        cases refused
        exact Project.metadata_fresh stat
      · split at refused
        · cases refused
        · cases refused
          show (-32083 : Int) ≠ -32082
          decide
  cases request with
  | applyPatch params => exact timed _ _ expected failed
  | replaceAll params =>
    simp only [check] at failed
    split at failed
    · cases failed
      show (-32602 : Int) ≠ -32082
      decide
    · exact timed _ _ expected failed

/-- A handler only fails for its version when it has just arrived and expected another one. -/
theorem WriteRace.failure_fresh {project : Project} {handler : Handler} {fault : HandlerFault}
    (failed : WriteRace.failure project handler = some fault)
    (expected : handler.phase = .arrived → ∀ version,
      handler.request.expectedVersion = some version → project.log.version = version) :
    fault.fresh := by
  -- Only the check of the arriving request compares versions; every later error has another code.
  cases phase : handler.phase with
  | arrived =>
    simp only [failure, phase] at failed
    split at failed
    · rename_i refused
      cases failed
      exact WriteRequest.check_fresh refused (expected phase)
    · cases failed
  | checked =>
    cases held : project.file with
    | none =>
      simp only [failure, phase, Project.readToString, held, Option.some.injEq] at failed
      subst failed
      show (-32080 : Int) ≠ -32082
      decide
    | some file => simp [failure, phase, Project.readToString, held] at failed
  | read content =>
    simp only [failure, phase] at failed
    split at failed
    · rename_i edited
      cases failed
      exact WriteRequest.edit_fresh edited
    · cases failed
    · simp only [Project.writeFileChecked] at failed
      split at failed
      · rename_i written
        cases failed
        split at written
        · cases written
        · cases written
          show (-32081 : Int) ≠ -32082
          decide
      · cases failed
  | unchanged =>
    simp only [failure, phase] at failed
    split at failed
    · rename_i missing
      cases failed
      exact Project.metadata_fresh missing
    · cases failed
  | recorded =>
    simp only [failure, phase] at failed
    split at failed
    · rename_i missing
      cases failed
      exact Project.metadata_fresh missing
    · cases failed
  | wrote => simp [failure, phase] at failed
  | succeeded wrote => simp [failure, phase] at failed
  | failed fault => simp [failure, phase] at failed

namespace WriteEcho

/-- Move a handler on. -/
def moved (s : WriteEcho Parsed) (id : Nat) (handler : Handler) (phase : HandlerPhase) :
    WriteEcho Parsed :=
  { s with handlers := s.handlers.set id { handler with phase } }

section
variable (s : WriteEcho Parsed) (id : Nat) (handler : Handler) (phase : HandlerPhase)

@[simp] theorem moved_files : (s.moved id handler phase).files = s.files := rfl

@[simp] theorem moved_watcher : (s.moved id handler phase).watcher = s.watcher := rfl

@[simp] theorem moved_undelivered :
    (s.moved id handler phase).undelivered = s.undelivered := rfl

@[simp] theorem moved_ownRecords : (s.moved id handler phase).ownRecords = s.ownRecords := rfl

@[simp] theorem moved_echoes : (s.moved id handler phase).echoes = s.echoes := rfl

@[simp] theorem moved_returned : (s.moved id handler phase).returned = s.returned := rfl

end

/-- Everything a step can be. -/
inductive Step (gitignore : Gitignore (List Char)) (s : WriteEcho Parsed) :
    Action → WriteEcho Parsed → Prop where
  | arrive (request : WriteRequest) :
      Step gitignore s (.arrive request)
        { s with handlers := s.handlers ++ [{ request, phase := .arrived }] }
  | check (id : Nat) (handler : Handler) (here : s.handlers[id]? = some handler)
      (arrived : handler.phase = .arrived) :
      Step gitignore s (.handler id .check) (s.moved id handler .checked)
  | read (id : Nat) (handler : Handler) (content : List Char)
      (here : s.handlers[id]? = some handler) (checked : handler.phase = .checked) :
      Step gitignore s (.handler id .read) (s.moved id handler (.read content))
  | write (id : Nat) (handler : Handler) (now : Nat) (content : List Char) (file : FileEntry)
      (here : s.handlers[id]? = some handler) (reading : handler.phase = .read content) :
      Step gitignore s (.handler id (.write now))
        { s.moved id handler .wrote with
          files := Function.update s.files (s.target handler) (some file)
          undelivered := s.undelivered ++ [id] }
  | skip (id : Nat) (handler : Handler) (content : List Char)
      (here : s.handlers[id]? = some handler) (reading : handler.phase = .read content) :
      Step gitignore s (.handler id .skip) (s.moved id handler .unchanged)
  | record (id : Nat) (handler : Handler) (here : s.handlers[id]? = some handler)
      (wrote : handler.phase = .wrote) :
      Step gitignore s (.handler id .record)
        { s.moved id handler .recorded with
          watcher := { s.watcher with
            log := s.watcher.log.record handler.request.path .modified }
          ownRecords := s.ownRecords ++ [id] }
  | finishWritten (id : Nat) (handler : Handler) (here : s.handlers[id]? = some handler)
      (recorded : handler.phase = .recorded) :
      Step gitignore s (.handler id .finish)
        { s.moved id handler (.succeeded true) with returned := some s.watcher.log.version }
  | finishUnchanged (id : Nat) (handler : Handler) (here : s.handlers[id]? = some handler)
      (unchanged : handler.phase = .unchanged) :
      Step gitignore s (.handler id .finish) (s.moved id handler (.succeeded false))
  | fail (id : Nat) (handler : Handler) (fault : HandlerFault)
      (here : s.handlers[id]? = some handler)
      (why : WriteRace.failure (s.facing handler).project handler = some fault) :
      Step gitignore s (.handler id .fail) (s.moved id handler (.failed fault))
  | deliver (id : Nat) (handler : Handler) (watcher : Watcher (List Char) Parsed)
      (here : s.handlers[id]? = some handler) (flying : id ∈ s.undelivered)
      (heard : s.watcher.handleEvent gitignore s.disk (s.notification handler) = watcher) :
      Step gitignore s (.deliver id)
        { s with
          watcher
          undelivered := s.undelivered.erase id
          echoes :=
            if watcher.log.version = s.watcher.log.version then s.echoes
            else s.echoes ++ [id] }

/-- A step is one of these. -/
theorem step_spec {s next : WriteEcho Parsed} {action : Action}
    (taken : s.step gitignore action = some next) : Step gitignore s action next := by
  cases action with
  | arrive request =>
    cases taken
    exact .arrive request
  | deliver id =>
    simp only [step] at taken
    split at taken
    · cases taken
    · rename_i handler here
      split at taken
      · rename_i flying
        cases taken
        exact .deliver id handler _ here flying rfl
      · cases taken
  | handler id what =>
    simp only [step] at taken
    split at taken
    · cases taken
    · rename_i handler here
      simp only [Option.map_eq_some_iff] at taken
      obtain ⟨race, taken, reached⟩ := taken
      -- A handler that only looks leaves its file as it was.
      have looked : Function.update s.files (s.target handler) (s.files (s.target handler)) =
          s.files := Function.update_eq_self _ _
      by_cases failing : what = .fail
      · subst failing
        simp only [WriteRace.handlerStep, Option.map_eq_some_iff] at taken
        obtain ⟨fault, why, same⟩ := taken
        subst same
        subst reached
        simp only [WriteRace.move, facing, looked]
        exact .fail id handler fault here why
      · cases WriteRace.handlerStep_spec taken with
        | check arrived passed =>
          subst reached
          simp only [WriteRace.move, facing, looked]
          exact .check id handler here arrived
        | read file checked held =>
          subst reached
          simp only [WriteRace.move, facing, looked]
          exact .read id handler file.content here checked
        | write now content new reading =>
          subst reached
          exact .write id handler now content _ here reading
        | skip content reading =>
          subst reached
          simp only [WriteRace.move, facing, looked]
          exact .skip id handler content here reading
        | record wrote =>
          subst reached
          simp only [WriteRace.move, facing, Project.recordDaemonWrite, looked]
          exact .record id handler here wrote
        | finishWritten recorded =>
          subst reached
          simp only [WriteRace.move, facing, recorded, looked]
          exact .finishWritten id handler here recorded
        | finishUnchanged unchanged =>
          subst reached
          simp only [WriteRace.move, facing, unchanged, looked]
          exact .finishUnchanged id handler here unchanged
        | fail fault => exact absurd rfl failing

/-- The handler has recorded its write. -/
def hasRecorded (s : WriteEcho Parsed) (id : Nat) : Bool :=
  s.handlers[id]?.any fun handler => handler.phase.hasRecorded

/-- Every record of a write is accounted for, and every write leaves its file there. -/
structure Counts (s : WriteEcho Parsed) : Prop where
  own : ∀ id, s.ownRecords.count id = if s.hasRecorded id then 1 else 0
  written : ∀ id, id ∈ s.undelivered ∨ id ∈ s.echoes →
    ∃ handler, s.handlers[id]? = some handler ∧ handler.phase.hasWritten = true
  present : ∀ (id : Nat) (handler : Handler), s.handlers[id]? = some handler →
    handler.phase.hasWritten = true → (s.files (s.target handler)).isSome

/-- Before any request there is nothing to account for. -/
structure Fresh (s : WriteEcho Parsed) : Prop where
  handlers : s.handlers = []
  undelivered : s.undelivered = []
  ownRecords : s.ownRecords = []
  echoes : s.echoes = []
  returned : s.returned = none

/-- A fresh daemon has accounted for everything. -/
theorem Fresh.counts {s : WriteEcho Parsed} (fresh : s.Fresh) : s.Counts := by
  -- Nothing has been asked, heard or recorded.
  refine ⟨?_, ?_, ?_⟩
  · intro id
    simp [fresh.ownRecords, hasRecorded, fresh.handlers]
  · intro id told
    simp [fresh.undelivered, fresh.echoes] at told
  · intro id handler here
    simp [fresh.handlers] at here

/-- Whether a handler has recorded, after one handler has moved. -/
theorem hasRecorded_moved {s : WriteEcho Parsed} {id : Nat} {handler : Handler}
    (here : s.handlers[id]? = some handler) (phase : HandlerPhase) (other : Nat) :
    (s.moved id handler phase).hasRecorded other =
      if other = id then phase.hasRecorded else s.hasRecorded other := by
  -- The others are where they were.
  unfold hasRecorded moved
  by_cases same : other = id
  · subst same
    simp [Population.moved_self here]
  · simp [same, List.getElem?_set_ne (Ne.symm same)]

/-- A move that neither writes nor records keeps everything accounted for. -/
theorem Counts.moved {s : WriteEcho Parsed} (counts : s.Counts) {id : Nat} {handler : Handler}
    (here : s.handlers[id]? = some handler) {phase : HandlerPhase}
    (recorded : phase.hasRecorded = handler.phase.hasRecorded)
    (written : phase.hasWritten = handler.phase.hasWritten) :
    (s.moved id handler phase).Counts := by
  -- Neither a record nor a write is new, so all three accounts read the same as before.
  refine ⟨?_, ?_, ?_⟩
  · intro other
    rw [hasRecorded_moved here]
    by_cases same : other = id
    · subst same
      simpa [hasRecorded, here, recorded] using counts.own other
    · simpa [same] using counts.own other
  · intro other told
    obtain ⟨found, there, wrote⟩ := counts.written other told
    by_cases same : other = id
    · subst same
      rw [here] at there
      cases there
      exact ⟨_, Population.moved_self here, written.trans wrote⟩
    · exact ⟨found, Population.moved_other there same, wrote⟩
  · intro other found there wrote
    rcases Population.moved there with ⟨_, rfl⟩ | ⟨_, there⟩
    · exact counts.present id handler here (written.symm.trans wrote)
    · exact counts.present other found there wrote

/-- A handler that fails has not written. -/
theorem Counts.fails {s : WriteEcho Parsed} (counts : s.Counts) {id : Nat} {handler : Handler}
    (here : s.handlers[id]? = some handler) {fault : HandlerFault}
    (why : WriteRace.failure (s.facing handler).project handler = some fault) :
    handler.phase.hasWritten = false := by
  -- Behind a write only the last look at the file could fail, and the file is there.
  cases phase : handler.phase with
  | recorded =>
    have there := counts.present id handler here (by rw [phase]; rfl)
    obtain ⟨file, held⟩ := Option.isSome_iff_exists.mp there
    simp [WriteRace.failure, phase, facing, Project.metadata, held] at why
  | wrote => simp [WriteRace.failure, phase] at why
  | succeeded wrote => simp [WriteRace.failure, phase] at why
  | _ => rfl

/-- A request that arrives has nothing to account for. -/
theorem Counts.arrive {s : WriteEcho Parsed} (counts : s.Counts) (request : WriteRequest) :
    Counts { s with handlers := s.handlers ++ [{ request, phase := .arrived }] } := by
  refine ⟨?_, ?_, ?_⟩
  · intro id
    have same : hasRecorded { s with
        handlers := s.handlers ++ [{ request, phase := .arrived }] } id = s.hasRecorded id := by
      unfold hasRecorded
      -- An older handler is found where it was; at the new position nobody had been.
      by_cases old : id < s.handlers.length
      · simp [List.getElem?_append_left old]
      · have absent : s.handlers[id]? = none := List.getElem?_eq_none (by omega)
        rw [List.getElem?_append_right (by omega), List.getElem?_singleton, absent]
        split <;> rfl
    rw [same]
    exact counts.own id
  · intro id told
    obtain ⟨handler, here, wrote⟩ := counts.written id told
    exact ⟨handler, Population.joined_old here, wrote⟩
  · intro id handler here wrote
    rcases Population.joined here with ⟨_, rfl⟩ | ⟨_, here⟩
    · cases wrote
    · exact counts.present id handler here wrote

/-- A handler that writes joins the ones whose writes are to be heard of. -/
theorem Counts.write {s : WriteEcho Parsed} (counts : s.Counts) {id : Nat} {handler : Handler}
    {content : List Char} (here : s.handlers[id]? = some handler)
    (reading : handler.phase = .read content) (file : FileEntry) :
    Counts { s.moved id handler .wrote with
      files := Function.update s.files (s.target handler) (some file)
      undelivered := s.undelivered ++ [id] } := by
  -- It had not recorded before, and does not do so yet.
  have unrecorded : ∀ other, (s.moved id handler .wrote).hasRecorded other =
      s.hasRecorded other := by
    intro other
    rw [hasRecorded_moved here]
    by_cases same : other = id
    · subst same
      simp [hasRecorded, here, reading, HandlerPhase.hasRecorded]
    · simp [same]
  refine ⟨?_, ?_, ?_⟩
  · intro other
    exact (counts.own other).trans (by rw [← unrecorded other]; rfl)
  · intro other told
    by_cases same : other = id
    · subst same
      exact ⟨_, Population.moved_self here, rfl⟩
    · have before : other ∈ s.undelivered ∨ other ∈ s.echoes := by
        simpa [same] using told
      obtain ⟨found, there, wrote⟩ := counts.written other before
      exact ⟨found, Population.moved_other there same, wrote⟩
  · intro other found there wrote
    show (Function.update s.files (s.target handler) (some file) (s.target found)).isSome
    by_cases located : s.target found = s.target handler
    · simp [located]
    · rw [Function.update_of_ne located]
      rcases Population.moved there with ⟨_, rfl⟩ | ⟨_, there⟩
      · exact absurd rfl located
      · exact counts.present other found there wrote

/-- A handler that records does so for the first time. -/
theorem Counts.record {s : WriteEcho Parsed} (counts : s.Counts) {id : Nat} {handler : Handler}
    (here : s.handlers[id]? = some handler) (wrote : handler.phase = .wrote) :
    Counts { s.moved id handler .recorded with
      watcher := { s.watcher with log := s.watcher.log.record handler.request.path .modified }
      ownRecords := s.ownRecords ++ [id] } := by
  refine ⟨?_, ?_, ?_⟩
  · -- Its own count goes from zero to one, and nobody else records.
    intro other
    have recorded := hasRecorded_moved here .recorded other
    have before := counts.own other
    show (s.ownRecords ++ [id]).count other =
      if (s.moved id handler .recorded).hasRecorded other then 1 else 0
    rw [recorded, List.count_append, before]
    by_cases same : other = id
    · subst same
      simp [hasRecorded, here, wrote, HandlerPhase.hasRecorded]
    · simp [same, Ne.symm same]
  · intro other told
    obtain ⟨found, there, written⟩ := counts.written other told
    by_cases same : other = id
    · subst same
      exact ⟨_, Population.moved_self here, rfl⟩
    · exact ⟨found, Population.moved_other there same, written⟩
  · intro other found there written
    rcases Population.moved there with ⟨_, rfl⟩ | ⟨_, there⟩
    · exact counts.present id handler here (by rw [wrote]; rfl)
    · exact counts.present other found there written

/-- A write that is heard of was waiting for that, and its file stays where it is. -/
theorem Counts.deliver {s : WriteEcho Parsed} (counts : s.Counts) {id : Nat}
    (flying : id ∈ s.undelivered) {watcher : Watcher (List Char) Parsed}
    (root : watcher.filter.root = s.watcher.filter.root) :
    Counts { s with
      watcher
      undelivered := s.undelivered.erase id
      echoes :=
        if watcher.log.version = s.watcher.log.version then s.echoes
        else s.echoes ++ [id] } := by
  refine ⟨counts.own, ?_, ?_⟩
  · intro other told
    have before : other ∈ s.undelivered ∨ other ∈ s.echoes := by
      -- Whatever is an echo now was one before, or was in flight.
      rcases told with waiting | echoed
      · exact Or.inl (List.mem_of_mem_erase waiting)
      · simp only at echoed
        split at echoed
        · exact Or.inr echoed
        · rcases List.mem_append.mp echoed with old | new
          · exact Or.inr old
          · rw [List.mem_singleton.mp new]
            exact Or.inl flying
    exact counts.written other before
  · intro other found there wrote
    have located : target { s with
        watcher
        undelivered := s.undelivered.erase id
        echoes := if watcher.log.version = s.watcher.log.version then s.echoes
          else s.echoes ++ [id] } found = s.target found := by
      show watcher.filter.root ++ found.request.path = _
      rw [root]
      rfl
    rw [located]
    exact counts.present other found there wrote

/-- Every step keeps everything accounted for. -/
theorem Counts.step {s next : WriteEcho Parsed} {action : Action} (counts : s.Counts)
    (taken : Step gitignore s action next) : next.Counts := by
  cases taken with
  | arrive request => exact counts.arrive request
  | check id handler here arrived =>
    exact counts.moved here (by rw [arrived]; rfl) (by rw [arrived]; rfl)
  | read id handler content here checked =>
    exact counts.moved here (by rw [checked]; rfl) (by rw [checked]; rfl)
  | skip id handler content here reading =>
    exact counts.moved here (by rw [reading]; rfl) (by rw [reading]; rfl)
  | finishUnchanged id handler here unchanged =>
    exact counts.moved here (by rw [unchanged]; rfl) (by rw [unchanged]; rfl)
  | finishWritten id handler here recorded =>
    have moved : (s.moved id handler (.succeeded true)).Counts :=
      counts.moved here (by rw [recorded]; rfl) (by rw [recorded]; rfl)
    exact ⟨moved.own, moved.written, moved.present⟩
  | fail id handler fault here why =>
    have unwritten := counts.fails here why
    -- It records after it writes, so a handler that has not written has not recorded.
    have unrecorded : handler.phase.hasRecorded = false := by
      cases phase : handler.phase with
      | recorded => rw [phase] at unwritten; cases unwritten
      | succeeded wrote => cases wrote <;> rw [phase] at unwritten <;> first | rfl | cases unwritten
      | _ => rfl
    exact counts.moved here unrecorded.symm unwritten.symm
  | write id handler now content file here reading => exact counts.write here reading file
  | record id handler here wrote => exact counts.record here wrote
  | deliver id handler watcher here flying heard =>
    have root : watcher.filter.root = s.watcher.filter.root := by
      rw [← heard]
      exact (Watcher.handleEvent_write s.disk s.watcher (s.target handler)).2
    exact counts.deliver flying root

/-- Echoes are never taken back. -/
theorem Step.echoes {s next : WriteEcho Parsed} {action : Action}
    (taken : Step gitignore s action next) : s.echoes <+: next.echoes := by
  -- Only a delivery can add one.
  cases taken with
  | deliver id handler watcher here flying heard =>
    simp only
    split
    · exact List.prefix_refl _
    · exact List.prefix_append _ _
  | _ => exact List.prefix_refl _

/-- Over a whole run as well, echoes are never taken back. -/
theorem run_echoes {s last : WriteEcho Parsed} {actions : List Action}
    (ran : run (WriteEcho.step gitignore) s actions = some last) : s.echoes <+: last.echoes :=
  run_invariant (fun state => s.echoes <+: state.echoes)
    (fun _ _ _ grown taken => grown.trans (step_spec taken).echoes) (List.prefix_refl _) ran

/-- The watcher does not heed the writes that it hears of. -/
def Unheeded (gitignore : Gitignore (List Char)) (s : WriteEcho Parsed) : Action → Prop
  | .deliver id => ∀ handler, s.handlers[id]? = some handler →
      s.watcher.heeds gitignore s.disk (s.target handler) = false
  | _ => True

/-- A step leaves no echo exactly when the watcher does not heed what it hears. -/
theorem Step.unheeded_iff {s next : WriteEcho Parsed} {action : Action}
    (taken : Step gitignore s action next) :
    s.Unheeded gitignore action ↔ next.echoes = s.echoes := by
  cases taken with
  | deliver id handler watcher here flying heard =>
    have version : watcher.log.version = s.watcher.log.version +
        (if s.watcher.heeds gitignore s.disk (s.target handler) then 1 else 0) := by
      rw [← heard]
      exact (Watcher.handleEvent_write s.disk s.watcher (s.target handler)).1
    -- The delivery asks about the one handler whose write is heard.
    have same : s.Unheeded gitignore (.deliver id) ↔
        s.watcher.heeds gitignore s.disk (s.target handler) = false := by
      simp [Unheeded, here]
    rw [same]
    cases heeded : s.watcher.heeds gitignore s.disk (s.target handler) with
    | false => simp [version, heeded]
    | true => simp [version, heeded]
  | _ => exact ⟨fun _ => rfl, fun _ => trivial⟩

/-- A run leaves no echo exactly when the watcher heeds nothing that it hears. -/
theorem run_unheeded_iff {s last : WriteEcho Parsed} {actions : List Action}
    (ran : run (WriteEcho.step gitignore) s actions = some last) :
    Along (WriteEcho.step gitignore) (Unheeded gitignore) s actions ↔ last.echoes = s.echoes := by
  -- Echoes only grow, so a run without new ones has none at any of its steps.
  induction actions generalizing s with
  | nil =>
    simp only [run_nil, Option.some.injEq] at ran
    subst ran
    exact ⟨fun _ => rfl, fun _ => trivial⟩
  | cons action rest ih =>
    obtain ⟨next, taken, ran⟩ := run_cons_eq_some.mp ran
    have here := (step_spec taken).unheeded_iff
    have later := ih ran
    have unfolded : Along (WriteEcho.step gitignore) (Unheeded gitignore) s (action :: rest) ↔
        s.Unheeded gitignore action ∧
          Along (WriteEcho.step gitignore) (Unheeded gitignore) next rest := by
      simp only [Along, taken]
    rw [unfolded, here, later]
    constructor
    · intro both
      obtain ⟨first, others⟩ := both
      exact others.trans first
    · intro same
      have grown := (step_spec taken).echoes
      have further := run_echoes ran
      rw [same] at further
      have first := (grown.eq_of_length_le further.length_le).symm
      exact ⟨first, same.trans first.symm⟩

/-- Every write that succeeded is counted by exactly one version of the log. -/
def CountedOnce (s : WriteEcho Parsed) : Prop :=
  ∀ (id : Nat) (handler : Handler), s.handlers[id]? = some handler →
    handler.phase = .succeeded true → (s.ownRecords ++ s.echoes).count id = 1

/-- Every handler has returned. -/
def AtRest (s : WriteEcho Parsed) : Prop :=
  ∀ handler ∈ s.handlers, handler.phase.ended = true

/-- Without an echo, every write that succeeded is counted by its own record alone. -/
theorem Counts.countedOnce {s : WriteEcho Parsed} (counts : s.Counts) (quiet : s.echoes = []) :
    s.CountedOnce := by
  intro id handler here succeeded
  have own := counts.own id
  rw [quiet, List.append_nil, own]
  simp [hasRecorded, here, succeeded, HandlerPhase.hasRecorded]

/-- At rest, an echo is one version too many for some write that succeeded. -/
theorem Counts.quiet {s : WriteEcho Parsed} (counts : s.Counts) (rest : s.AtRest)
    (once : s.CountedOnce) : s.echoes = [] := by
  cases echoes : s.echoes with
  | nil => rfl
  | cons id others =>
    obtain ⟨handler, here, wrote⟩ := counts.written id (Or.inr (by simp [echoes]))
    have ended := rest handler (List.mem_of_getElem? here)
    -- A handler that wrote and has returned has succeeded, with a record of its own.
    have succeeded : handler.phase = .succeeded true := by
      cases phase : handler.phase with
      | succeeded wrote' =>
        cases wrote' with
        | true => rfl
        | false => rw [phase] at wrote; cases wrote
      | failed fault => rw [phase] at wrote; cases wrote
      | _ => rw [phase] at ended; cases ended
    have total := once id handler here succeeded
    have own := counts.own id
    have recorded : s.hasRecorded id = true := by
      simp [hasRecorded, here, succeeded, HandlerPhase.hasRecorded]
    rw [List.count_append, own, recorded, echoes, List.count_cons_self] at total
    simp at total

/--
One client at a time writes, and passes on the version that its last write returned, if any.
-/
def SoleWriter (s : WriteEcho Parsed) : Action → Prop
  | .arrive request => s.AtRest ∧
      ∀ version, request.expectedVersion = some version → s.returned = some version
  | _ => True

/-- What a sole writer has to show can be looked up. -/
instance (s : WriteEcho Parsed) : (action : Action) → Decidable (s.SoleWriter action)
  | .arrive request =>
    decidable_of_iff ((∀ handler ∈ s.handlers, handler.phase.ended = true) ∧
        ∀ version ∈ request.expectedVersion, s.returned = some version) Iff.rfl
  | .handler _ _ | .deliver _ => isTrue trivial

/-- No handler has refused its request for the version that it expected. -/
def NeverStale (s : WriteEcho Parsed) : Prop :=
  ∀ (id : Nat) (handler : Handler) (fault : HandlerFault), s.handlers[id]? = some handler →
    handler.phase = .failed fault → fault.fresh

/-- What keeps a sole writer from being refused: its version is current when it comes back. -/
structure Tuned (s : WriteEcho Parsed) : Prop where
  single : ∀ (i j : Nat) (one other : Handler), s.handlers[i]? = some one →
    s.handlers[j]? = some other → one.phase.ended = false → other.phase.ended = false → i = j
  expects : ∀ (id : Nat) (handler : Handler) (version : Nat), s.handlers[id]? = some handler →
    handler.phase = .arrived → handler.request.expectedVersion = some version →
    s.returned = some version
  current : ∀ version, s.returned = some version →
    (∀ (id : Nat) (handler : Handler), s.handlers[id]? = some handler →
      handler.phase ≠ .recorded) → s.watcher.log.version = version
  fresh : s.NeverStale

/-- Before the first request there is no version to be out of step with. -/
theorem Fresh.tuned {s : WriteEcho Parsed} (fresh : s.Fresh) : s.Tuned := by
  -- There is no handler yet.
  refine ⟨?_, ?_, ?_, ?_⟩
  · intro i j one other here
    simp [fresh.handlers] at here
  · intro id handler version here
    simp [fresh.handlers] at here
  · intro version returned
    simp [fresh.returned] at returned
  · intro id handler fault here
    simp [fresh.handlers] at here

/-- While a handler is under way that has not recorded, the returned version is current. -/
theorem Tuned.version {s : WriteEcho Parsed} (tuned : s.Tuned) {id : Nat} {handler : Handler}
    (here : s.handlers[id]? = some handler) (active : handler.phase.ended = false)
    (unrecorded : handler.phase ≠ .recorded) {version : Nat}
    (returned : s.returned = some version) : s.watcher.log.version = version := by
  apply tuned.current version returned
  -- Nobody else is under way, so nobody is between its record and its end.
  intro other found there recorded
  have same := tuned.single id other handler found here there active (by rw [recorded]; rfl)
  subst same
  rw [here, Option.some.injEq] at there
  subst there
  exact unrecorded recorded

/-- A handler that moves on without touching the log leaves the writer in tune. -/
theorem Tuned.moved {s : WriteEcho Parsed} (tuned : s.Tuned) {id : Nat} {handler : Handler}
    (here : s.handlers[id]? = some handler) {phase : HandlerPhase}
    (active : handler.phase.ended = false) (unrecorded : handler.phase ≠ .recorded)
    (forward : phase ≠ .arrived) (fresh : ∀ fault, phase = .failed fault → fault.fresh) :
    (s.moved id handler phase).Tuned := by
  -- The handler that moves was the only one under way.
  have alone : ∀ (other : Nat) (found : Handler),
      (s.moved id handler phase).handlers[other]? = some found →
      found.phase.ended = false → other = id := by
    intro other found there busy
    rcases Population.moved there with ⟨same, _⟩ | ⟨_, there⟩
    · exact same
    · exact tuned.single other id found handler there here busy active
  refine ⟨?_, ?_, ?_, ?_⟩
  · intro i j one other isOne isOther busyOne busyOther
    rw [alone i one isOne busyOne, alone j other isOther busyOther]
  · intro other found version there arrived expected
    rcases Population.moved there with ⟨_, rfl⟩ | ⟨_, there⟩
    · exact absurd arrived forward
    · exact tuned.expects other found version there arrived expected
  · intro version returned _
    exact tuned.version here active unrecorded returned
  · intro other found fault there failed
    rcases Population.moved there with ⟨_, rfl⟩ | ⟨_, there⟩
    · exact fresh fault failed
    · exact tuned.fresh other found fault there failed

/-- A request that arrives alone, and expects what was returned, leaves the writer in tune. -/
theorem Tuned.arrives {s : WriteEcho Parsed} (tuned : s.Tuned) {request : WriteRequest}
    (rest : s.AtRest)
    (expects : ∀ version, request.expectedVersion = some version → s.returned = some version) :
    Tuned { s with handlers := s.handlers ++ [{ request, phase := .arrived }] } := by
  -- All others have come to their ends.
  have ended : ∀ (id : Nat) (handler : Handler), s.handlers[id]? = some handler →
      handler.phase.ended = true := fun _ _ here => rest _ (List.mem_of_getElem? here)
  refine ⟨?_, ?_, ?_, ?_⟩
  · intro i j one other isOne isOther busyOne busyOther
    rcases Population.joined isOne with ⟨first, _⟩ | ⟨_, isOne⟩
    · rcases Population.joined isOther with ⟨second, _⟩ | ⟨_, isOther⟩
      · rw [first, second]
      · rw [ended j other isOther] at busyOther
        cases busyOther
    · rw [ended i one isOne] at busyOne
      cases busyOne
  · intro id handler version here arrived expected
    rcases Population.joined here with ⟨_, rfl⟩ | ⟨_, here⟩
    · exact expects version expected
    · exact tuned.expects id handler version here arrived expected
  · intro version returned _
    apply tuned.current version returned
    intro id handler here recorded
    have returned := ended id handler here
    rw [recorded] at returned
    cases returned
  · intro id handler fault here failed
    rcases Population.joined here with ⟨_, rfl⟩ | ⟨_, here⟩
    · cases failed
    · exact tuned.fresh id handler fault here failed

/-- So does a handler that returns the version that it has recorded. -/
theorem Tuned.finishes {s : WriteEcho Parsed} (tuned : s.Tuned) {id : Nat} {handler : Handler}
    (here : s.handlers[id]? = some handler) (recorded : handler.phase = .recorded) :
    Tuned { s.moved id handler (.succeeded true) with
      returned := some s.watcher.log.version } := by
  -- It was the only one under way.
  have alone : ∀ (other : Nat) (found : Handler), s.handlers[other]? = some found →
      found.phase.ended = false → other = id := fun other found there busy =>
    tuned.single other id found handler there here busy (by rw [recorded]; rfl)
  refine ⟨?_, ?_, ?_, ?_⟩
  · intro i j one other isOne isOther busyOne busyOther
    rcases Population.moved isOne with ⟨_, rfl⟩ | ⟨_, there⟩
    · cases busyOne
    · rcases Population.moved isOther with ⟨_, rfl⟩ | ⟨_, thereToo⟩
      · cases busyOther
      · exact tuned.single i j one other there thereToo busyOne busyOther
  · intro other found version there arrived expected
    rcases Population.moved there with ⟨_, rfl⟩ | ⟨apart, there⟩
    · cases arrived
    · exact absurd (alone other found there (by rw [arrived]; rfl)) apart
  · intro version returned _
    exact Option.some.inj returned
  · intro other found fault there failed
    rcases Population.moved there with ⟨_, rfl⟩ | ⟨_, there⟩
    · cases failed
    · exact tuned.fresh other found fault there failed

/-- Without echoes, a sole writer stays in tune. -/
theorem Tuned.step {s next : WriteEcho Parsed} {action : Action} (tuned : s.Tuned)
    (counts : s.Counts) (unheeded : s.Unheeded gitignore action) (sole : s.SoleWriter action)
    (taken : Step gitignore s action next) : next.Tuned := by
  have quiet := taken.unheeded_iff.mp unheeded
  cases taken with
  | arrive request => exact tuned.arrives sole.1 sole.2
  | check id handler here arrived =>
    exact tuned.moved here (by rw [arrived]; rfl) (by simp [arrived]) (by simp) (by simp)
  | read id handler content here checked =>
    exact tuned.moved here (by rw [checked]; rfl) (by simp [checked]) (by simp) (by simp)
  | skip id handler content here reading =>
    exact tuned.moved here (by rw [reading]; rfl) (by simp [reading]) (by simp) (by simp)
  | write id handler now content file here reading =>
    have moved : (s.moved id handler .wrote).Tuned :=
      tuned.moved here (by rw [reading]; rfl) (by simp [reading]) (by simp) (by simp)
    exact ⟨moved.single, moved.expects, moved.current, moved.fresh⟩
  | record id handler here wrote =>
    have moved : (s.moved id handler .recorded).Tuned :=
      tuned.moved here (by rw [wrote]; rfl) (by simp [wrote]) (by simp) (by simp)
    refine ⟨moved.single, moved.expects, ?_, moved.fresh⟩
    -- The version has moved on, which the handler is about to return.
    intro version returned past
    exact absurd rfl (past id { handler with phase := .recorded } (Population.moved_self here))
  | finishUnchanged id handler here unchanged =>
    exact tuned.moved here (by rw [unchanged]; rfl) (by simp [unchanged]) (by simp) (by simp)
  | finishWritten id handler here recorded => exact tuned.finishes here recorded
  | fail id handler fault here why =>
    have unwritten := counts.fails here why
    have active : handler.phase.ended = false := by
      cases phase : handler.phase with
      | succeeded wrote => simp [WriteRace.failure, phase] at why
      | failed other => simp [WriteRace.failure, phase] at why
      | _ => rfl
    have unrecorded : handler.phase ≠ .recorded := by
      intro recorded
      rw [recorded] at unwritten
      cases unwritten
    have fresh : fault.fresh := by
      apply WriteRace.failure_fresh why
      intro arrived version expected
      exact tuned.version here active unrecorded
        (tuned.expects id handler version here arrived expected)
    refine tuned.moved here active unrecorded (by simp) ?_
    intro other same
    cases same
    exact fresh
  | deliver id handler watcher here flying heard =>
    -- What is not heeded leaves the log alone.
    have version : watcher.log.version = s.watcher.log.version := by
      simp only at quiet
      split at quiet
      · assumption
      · simp at quiet
    refine ⟨tuned.single, tuned.expects, ?_, tuned.fresh⟩
    intro expected returned past
    exact version.trans (tuned.current expected returned past)

/-- Everything is accounted for in every state of a run of a fresh daemon. -/
theorem Fresh.counts_run {start s : WriteEcho Parsed} (fresh : start.Fresh)
    {actions : List Action} (ran : run (WriteEcho.step gitignore) start actions = some s) :
    s.Counts :=
  run_invariant Counts (fun _ _ _ counts taken => counts.step (step_spec taken)) fresh.counts ran

/--
Along every run on which the watcher heeds no write that it hears of, each write that succeeded
is counted by one version, and a sole writer is never refused for its version. Of the runs at
whose end every handler has returned, these are the only ones.
-/
theorem written_once_iff {start s : WriteEcho Parsed} (fresh : start.Fresh)
    {actions : List Action} (ran : run (WriteEcho.step gitignore) start actions = some s) :
    (Along (WriteEcho.step gitignore) (Unheeded gitignore) start actions →
      s.CountedOnce ∧
        (Along (WriteEcho.step gitignore) SoleWriter start actions → s.NeverStale)) ∧
    (s.AtRest →
      ((s.CountedOnce ∧
          (Along (WriteEcho.step gitignore) SoleWriter start actions → s.NeverStale)) ↔
        Along (WriteEcho.step gitignore) (Unheeded gitignore) start actions)) := by
  have counts := fresh.counts_run ran
  have enough : Along (WriteEcho.step gitignore) (Unheeded gitignore) start actions →
      s.CountedOnce ∧
        (Along (WriteEcho.step gitignore) SoleWriter start actions → s.NeverStale) := by
    intro unheeded
    refine ⟨counts.countedOnce ?_, ?_⟩
    · rw [(run_unheeded_iff ran).mp unheeded, fresh.echoes]
    · intro sole
      have kept := run_invariant_along (fun state => state.Counts ∧ state.Tuned)
        (fun _ _ _ held met taken =>
          ⟨held.1.step (step_spec taken), held.2.step held.1 met.1 met.2 (step_spec taken)⟩)
        ⟨fresh.counts, fresh.tuned⟩ (unheeded.and sole) ran
      exact kept.2.fresh
  refine ⟨enough, ?_⟩
  intro rest
  refine ⟨?_, enough⟩
  -- A write heard and heeded is in the log twice once its handler has returned.
  rintro ⟨once, _⟩
  rw [run_unheeded_iff ran, counts.quiet rest once, fresh.echoes]

/-- A project of one file, with nothing ignored, and a daemon that has served no request. -/
def oneFile : WriteEcho Unit where
  files := fun path =>
    if path = ["repo", "a"] then some { content := ['x'], mtimeNs := 0 } else none
  writable := fun _ => true
  watcher :=
    { filter := Filter.new ["repo"]
      log := ChangeLog.withCapacity 64
      parseCache := { capacity := 0, entries := [] } }
  handlers := []
  undelivered := []
  ownRecords := []
  echoes := []
  returned := none

/-- The replacement of one letter by another. -/
def replaceLetter (search replacement : Char) (expectedVersion : Option Nat) : WriteRequest :=
  .replaceAll
    { path := ["a"], search := [search], replacement := [replacement], expectedVersion
      expectedMtimeNs := none, maxReplacements := none }

/-- One replacement from its arrival to its end. -/
def replaceOnce : List Action :=
  [.arrive (replaceLetter 'x' 'y' none), .handler 0 .check, .handler 0 .read,
    .handler 0 (.write 1), .handler 0 .record, .handler 0 .finish]

/-- The same project with a `.gitignore` that names its file. -/
def ignoredFile : WriteEcho Unit :=
  { oneFile with
    files := fun path =>
      if path = ["repo", ".gitignore"] then some { content := ['a'], mtimeNs := 0 }
      else oneFile.files path }

/-- A set of rules is the one name that it ignores. -/
def oneName : Gitignore (List Char) where
  matchedPathOrAnyParents rules rel := if rel = [String.ofList rules] then .ignore else .none

/-- A second replacement, with the version that the first one has returned. -/
def replaceAgain : List Action :=
  [.arrive (replaceLetter 'y' 'z' (some 1)), .handler 1 .check, .handler 1 .read,
    .handler 1 (.write 2), .handler 1 .record, .handler 1 .finish]

/-- Two writes to an ignored file, of both of which the watcher hears, are counted once each. -/
theorem written_once_ignored :
    ∃ s, run (WriteEcho.step oneName) ignoredFile
        (replaceOnce ++ .deliver 0 :: replaceAgain ++ [.deliver 1]) = some s ∧
      s.ownRecords = [0, 1] ∧ s.CountedOnce ∧ s.NeverStale := by
  have ended : (run (WriteEcho.step oneName) ignoredFile
      (replaceOnce ++ .deliver 0 :: replaceAgain ++ [.deliver 1])).map
        (fun s => (s.ownRecords, s.echoes)) = some ([0, 1], []) := by
    decide +kernel
  obtain ⟨s, ran, same⟩ := Option.map_eq_some_iff.mp ended
  obtain ⟨records, quiet⟩ := Prod.mk.inj same
  have fresh : ignoredFile.Fresh := ⟨rfl, rfl, rfl, rfl, rfl⟩
  -- The watcher has recorded neither of the writes.
  have unheeded := (run_unheeded_iff ran).mpr quiet
  obtain ⟨once, never⟩ := (written_once_iff fresh ran).1 unheeded
  have sole : Along (WriteEcho.step oneName) SoleWriter ignoredFile
      (replaceOnce ++ .deliver 0 :: replaceAgain ++ [.deliver 1]) := by
    decide +kernel
  exact ⟨s, ran, records, once, never sole⟩

/--
The client replaces a letter and is told version 1. The watcher hears of the write, which is now
counted twice, and the client's next write with version 1 is refused as stale.
-/
theorem sole_writer_refused :
    ∃ s error, run (WriteEcho.step { matchedPathOrAnyParents := fun _ _ => .none }) oneFile
        (replaceOnce ++ [.deliver 0, .arrive (replaceLetter 'y' 'z' (some 1)),
          .handler 1 .fail]) = some s ∧
      Along (WriteEcho.step { matchedPathOrAnyParents := fun _ _ => .none }) SoleWriter oneFile
        (replaceOnce ++ [.deliver 0, .arrive (replaceLetter 'y' 'z' (some 1)),
          .handler 1 .fail]) ∧
      (s.ownRecords ++ s.echoes).count 0 = 2 ∧
      s.handlers[1]?.map Handler.phase = some (.failed (.rpc error)) ∧
      error.code = staleVersion := by
  refine ⟨_, _, rfl, ?_, rfl, rfl, rfl⟩
  -- Of the steps, only the two arrivals have something to show.
  refine ⟨⟨?_, ?_⟩, trivial, trivial, trivial, trivial, trivial, trivial, ⟨?_, ?_⟩, trivial,
    trivial⟩
  · intro handler here
    cases here
  · intro version expected
    cases expected
  · intro handler here
    rw [List.mem_singleton.mp here]
    rfl
  · intro version expected
    cases expected
    rfl

end WriteEcho

end McpCli
