import McpCli.Daemon.WriteRace
import McpCli.Proofs.Daemon.ChangeLog

/-! When a conditional write is the only one between its check and its effect. -/

namespace McpCli

open Text Transition

namespace HandlerPhase

/-- How far along its way a phase is, up to the write. -/
def rank : HandlerPhase → Nat
  | .arrived => 0
  | .checked => 1
  | .read _ => 2
  | _ => 3

/-- The handler has checked, and may still write. -/
def inWindow : HandlerPhase → Bool
  | .checked | .read _ => true
  | _ => false

/-- The handler has checked, and may still write or has its write still to record. -/
def inSpan : HandlerPhase → Bool
  | .checked | .read _ | .wrote => true
  | _ => false

/-- The handler has written the file, and has not failed since. -/
def hasWritten : HandlerPhase → Bool
  | .wrote | .recorded | .succeeded true => true
  | _ => false

/-- The handler has recorded its write, and has not failed since. -/
def hasRecorded : HandlerPhase → Bool
  | .recorded | .succeeded true => true
  | _ => false

/-- A handler that has written and is not about to record has recorded. -/
theorem hasRecorded_of_hasWritten {phase : HandlerPhase} (written : phase.hasWritten = true)
    (past : phase ≠ .wrote) : phase.hasRecorded = true := by
  -- Behind the write there are the record and the end.
  cases phase with
  | wrote => exact absurd rfl past
  | recorded => rfl
  | succeeded wrote =>
    cases wrote with
    | true => rfl
    | false => cases written
  | _ => cases written

/-- The window is a part of the span from the check to the record. -/
theorem inSpan_of_inWindow {phase : HandlerPhase} (inside : phase.inWindow = true) :
    phase.inSpan = true := by
  -- The span is longer by the write that is not recorded yet.
  cases phase with
  | checked => rfl
  | read content => rfl
  | _ => cases inside

/-- The window is where a handler is behind its check and not past its read. -/
theorem inWindow_iff_rank (phase : HandlerPhase) :
    phase.inWindow = true ↔ 1 ≤ phase.rank ∧ phase.rank ≤ 2 := by
  cases phase <;> simp [inWindow, rank]

end HandlerPhase

/-- A check that passes finds the expected version. -/
theorem Project.checkWritePreconditions_version {project : Project}
    {expectedVersion expectedMtimeNs : Option Nat} {expected : Nat}
    (passed : project.checkWritePreconditions expectedVersion expectedMtimeNs = .ok ())
    (expects : expectedVersion = some expected) : project.log.version = expected := by
  by_contra differs
  -- A different version is what the first test refuses.
  subst expects
  simp [checkWritePreconditions, ChangeLog.snapshot, Option.filter, differs] at passed

/-- A request that passes its check finds the version that it expects. -/
theorem WriteRequest.check_version {request : WriteRequest} {project : Project} {expected : Nat}
    (passed : request.check project = .ok ())
    (expects : request.expectedVersion = some expected) :
    project.log.version = expected := by
  -- Replacing checks its pattern first.
  cases request with
  | applyPatch params => exact Project.checkWritePreconditions_version passed expects
  | replaceAll params =>
    simp only [check] at passed
    split at passed
    · cases passed
    · exact Project.checkWritePreconditions_version passed expects

/-- A request that expects a version is conditional. -/
theorem WriteRequest.conditional_of_version {request : WriteRequest} {expected : Nat}
    (expects : request.expectedVersion = some expected) : request.conditional = true := by
  simp [conditional, expects]

namespace WriteRace

/-- Everything a step of a handler can be. -/
inductive HandlerStep (s : WriteRace) (id : Nat) (handler : Handler) :
    HandlerAction → WriteRace → Prop where
  | check (arrived : handler.phase = .arrived)
      (passed : handler.request.check s.project = .ok ()) :
      HandlerStep s id handler .check (s.move id handler .checked)
  | read (file : FileEntry) (checked : handler.phase = .checked)
      (held : s.project.file = some file) :
      HandlerStep s id handler .read (s.move id handler (.read file.content))
  | write (now : Nat) (content new : List Char) (reading : handler.phase = .read content) :
      HandlerStep s id handler (.write now)
        { s.move id handler .wrote with
          project := { s.project with file := some { content := new, mtimeNs := now } } }
  | skip (content : List Char) (reading : handler.phase = .read content) :
      HandlerStep s id handler .skip (s.move id handler .unchanged)
  | record (wrote : handler.phase = .wrote) :
      HandlerStep s id handler .record
        { s.move id handler .recorded with
          project := s.project.recordDaemonWrite handler.request.path }
  | finishWritten (recorded : handler.phase = .recorded) :
      HandlerStep s id handler .finish (s.move id handler (.succeeded true))
  | finishUnchanged (unchanged : handler.phase = .unchanged) :
      HandlerStep s id handler .finish (s.move id handler (.succeeded false))
  | fail (fault : HandlerFault) :
      HandlerStep s id handler .fail (s.move id handler (.failed fault))

/-- A step of a handler is one of these. -/
theorem handlerStep_spec {s next : WriteRace} {id : Nat} {what : HandlerAction}
    {handler : Handler} (taken : s.handlerStep id what handler = some next) :
    HandlerStep s id handler what next := by
  obtain ⟨request, phase⟩ := handler
  -- Each kind of step is possible in one phase, or ends the handler.
  cases what with
  | check =>
    cases phase with
    | arrived =>
      simp only [handlerStep] at taken
      split at taken
      · cases taken
      · rename_i passed
        cases taken
        exact .check rfl passed
    | _ => simp [handlerStep] at taken
  | read =>
    cases phase with
    | checked =>
      cases held : s.project.file with
      | none => simp [handlerStep, Project.readToString, held] at taken
      | some file =>
        simp only [handlerStep, Project.readToString, held, Option.some.injEq] at taken
        subst taken
        exact .read file rfl held
    | _ => simp [handlerStep] at taken
  | write now =>
    cases phase with
    | read content =>
      simp only [handlerStep] at taken
      split at taken
      · cases taken
      · cases taken
      · rename_i new edited
        simp only [Project.writeFileChecked] at taken
        split at taken
        · cases taken
        · rename_i project written
          split at written
          · cases written
            cases taken
            exact .write now content new rfl
          · cases written
    | _ => simp [handlerStep] at taken
  | skip =>
    cases phase with
    | read content =>
      simp only [handlerStep] at taken
      split at taken
      · cases taken
      · cases taken
      · cases taken
        exact .skip content rfl
    | _ => simp [handlerStep] at taken
  | record =>
    cases phase with
    | wrote =>
      cases taken
      exact .record rfl
    | _ => simp [handlerStep] at taken
  | finish =>
    cases phase with
    | recorded =>
      simp only [handlerStep] at taken
      split at taken
      · cases taken
      · cases taken
        exact .finishWritten rfl
    | unchanged =>
      simp only [handlerStep] at taken
      split at taken
      · cases taken
      · cases taken
        exact .finishUnchanged rfl
    | _ => simp [handlerStep] at taken
  | fail =>
    simp only [handlerStep, Option.map_eq_some_iff] at taken
    obtain ⟨fault, _, taken⟩ := taken
    subst taken
    exact .fail fault

/-- Everything a step can be. -/
inductive Step (s : WriteRace) : Action → WriteRace → Prop where
  | arrive (request : WriteRequest) :
      Step s (.arrive request)
        { s with handlers := s.handlers ++ [{ request, phase := .arrived }] }
  | handler (id : Nat) (what : HandlerAction) (handler : Handler) (next : WriteRace)
      (here : s.handlers[id]? = some handler) (taken : HandlerStep s id handler what next) :
      Step s (.handler id what) next
  | observe (path : RelPath) (kind : ChangeKind) :
      Step s (.observe path kind)
        { s with project := { s.project with log := s.project.log.record path kind } }

/-- A step is one of these. -/
theorem step_spec {s next : WriteRace} {action : Action} (taken : s.step action = some next) :
    Step s action next := by
  -- Only the steps of handlers have cases of their own.
  cases action with
  | arrive request =>
    cases taken
    exact .arrive request
  | handler id what =>
    simp only [step, Option.bind_eq_some_iff] at taken
    obtain ⟨handler, here, taken⟩ := taken
    exact .handler id what handler next here (handlerStep_spec taken)
  | observe path kind =>
    cases taken
    exact .observe path kind

/-- A handler keeps its request, and never goes back on its way. -/
theorem Step.rank {s next : WriteRace} {action : Action} (taken : Step s action next) {id : Nat}
    {handler : Handler} (here : s.handlers[id]? = some handler) :
    ∃ later, next.handlers[id]? = some later ∧ later.request = handler.request ∧
      handler.phase.rank ≤ later.phase.rank := by
  -- Whatever phase the moving handler reaches, it ranks behind the one that it leaves.
  have moved : ∀ (other : Nat) (mover : Handler) (phase : HandlerPhase),
      s.handlers[other]? = some mover → mover.phase.rank ≤ phase.rank →
      ∃ later, (s.handlers.set other { mover with phase })[id]? = some later ∧
        later.request = handler.request ∧ handler.phase.rank ≤ later.phase.rank := by
    intro other mover phase there forward
    by_cases same : id = other
    · subst same
      rw [here] at there
      cases there
      exact ⟨_, Population.moved_self here, rfl, forward⟩
    · exact ⟨handler, Population.moved_other here same, rfl, Nat.le_refl _⟩
  cases taken with
  | arrive request => exact ⟨handler, Population.joined_old here, rfl, Nat.le_refl _⟩
  | observe path kind => exact ⟨handler, here, rfl, Nat.le_refl _⟩
  | handler other what mover next there taken =>
    cases taken with
    | check arrived passed => exact moved other mover _ there (by simp [arrived, HandlerPhase.rank])
    | read file checked held =>
      exact moved other mover _ there (by simp [checked, HandlerPhase.rank])
    | write now content new reading =>
      exact moved other mover _ there (by simp [reading, HandlerPhase.rank])
    | skip content reading =>
      exact moved other mover _ there (by simp [reading, HandlerPhase.rank])
    | record wrote => exact moved other mover _ there (by simp [wrote, HandlerPhase.rank])
    | finishWritten recorded =>
      exact moved other mover _ there (by simp [recorded, HandlerPhase.rank])
    | finishUnchanged unchanged =>
      exact moved other mover _ there (by simp [unchanged, HandlerPhase.rank])
    | fail fault =>
      exact moved other mover _ there (by cases mover.phase <;> simp [HandlerPhase.rank])

/-- Over a whole run as well, a handler keeps its request and never goes back. -/
theorem run_rank {s last : WriteRace} {actions : List Action}
    (ran : run WriteRace.step s actions = some last) {id : Nat} {handler : Handler}
    (here : s.handlers[id]? = some handler) :
    ∃ later, last.handlers[id]? = some later ∧ later.request = handler.request ∧
      handler.phase.rank ≤ later.phase.rank := by
  -- Each step moves one handler on and leaves the others where they are.
  have kept := run_invariant
    (fun state => ∃ later, state.handlers[id]? = some later ∧ later.request = handler.request ∧
      handler.phase.rank ≤ later.phase.rank)
    (fun state action next reached taken => by
      obtain ⟨now, found, same, behind⟩ := reached
      obtain ⟨later, found, kept, forward⟩ := (step_spec taken).rank found
      exact ⟨later, found, kept.trans same, Nat.le_trans behind forward⟩)
    ⟨handler, here, rfl, Nat.le_refl _⟩ ran
  exact kept

/--
No handler passes its check while another one is between its check and its record, if one of the
two is conditional.
-/
def SpansApart (s : WriteRace) : Action → Prop
  | .handler id .check => ∀ (other : Nat) (mine handler : Handler), other ≠ id →
      s.handlers[id]? = some mine → s.handlers[other]? = some handler →
      (mine.request.conditional = true ∨ handler.request.conditional = true) →
      handler.phase.inSpan = false
  | _ => True

/-- While a conditional handler is between its check and its record, no other one is. -/
def Alone (s : WriteRace) : Prop :=
  ∀ (one other : Nat) (handler handler' : Handler), one ≠ other →
    s.handlers[one]? = some handler → s.handlers[other]? = some handler' →
    handler.request.conditional = true → handler.phase.inSpan = true →
    handler'.phase.inSpan = false

/--
No handler writes while another conditional one is between its check and its write, and none
checks a version while another one that expected the same version has a write still to record.
-/
def Undisturbed (s : WriteRace) : Action → Prop
  | .handler id (.write _) => ∀ (other : Nat) (handler : Handler), other ≠ id →
      s.handlers[other]? = some handler → handler.request.conditional = true →
      handler.phase.inWindow = false
  | .handler id .check => ∀ (other : Nat) (mine handler : Handler) (expected : Nat), other ≠ id →
      s.handlers[id]? = some mine → mine.request.expectedVersion = some expected →
      s.handlers[other]? = some handler → handler.request.expectedVersion = some expected →
      handler.phase ≠ .wrote
  | _ => True

/-- A move that does not enter the span leaves a conditional handler alone in it. -/
theorem Alone.move {s : WriteRace} (alone : s.Alone) {id : Nat} {handler : Handler}
    (here : s.handlers[id]? = some handler) {phase : HandlerPhase}
    (within : phase.inSpan = true → handler.phase.inSpan = true) :
    (s.move id handler phase).Alone := by
  intro one other first second apart found found' conditional inside
  rcases Population.moved found with ⟨rfl, rfl⟩ | ⟨_, stays⟩
  · rcases Population.moved found' with ⟨same, _⟩ | ⟨_, stays'⟩
    · exact absurd same.symm apart
    · exact alone one other handler second apart here stays' conditional (within inside)
  · rcases Population.moved found' with ⟨rfl, rfl⟩ | ⟨_, stays'⟩
    · -- The handler that moves was outside, and so it has not come in.
      have outside := alone one other first handler apart stays here conditional inside
      refine Bool.eq_false_iff.mpr fun inside' => ?_
      rw [within inside'] at outside
      cases outside
    · exact alone one other first second apart stays stays' conditional inside

/-- The span is entered by a check only, and then nobody else is in it. -/
theorem Alone.step {s next : WriteRace} {action : Action} (alone : s.Alone)
    (apart : s.SpansApart action) (taken : Step s action next) : next.Alone := by
  cases taken with
  | arrive request =>
    intro one other first second distinct found found' conditional inside
    rcases Population.joined found with ⟨_, rfl⟩ | ⟨_, found⟩
    · cases inside
    · rcases Population.joined found' with ⟨_, rfl⟩ | ⟨_, found'⟩
      · rfl
      · exact alone one other first second distinct found found' conditional inside
  | observe path kind => exact alone
  | handler id what handler next here taken =>
    cases taken with
    | check arrived passed =>
      intro one other first second distinct found found' conditional inside
      rcases Population.moved found with ⟨rfl, rfl⟩ | ⟨_, stays⟩
      · rcases Population.moved found' with ⟨same, _⟩ | ⟨_, stays'⟩
        · exact absurd same.symm distinct
        · exact apart other handler second (Ne.symm distinct) here stays' (.inl conditional)
      · rcases Population.moved found' with ⟨rfl, rfl⟩ | ⟨_, stays'⟩
        · -- The other one would have been in the span when this one checked.
          have outside := apart one handler first distinct here stays (.inr conditional)
          rw [inside] at outside
          cases outside
        · exact alone one other first second distinct stays stays' conditional inside
    | read file checked held =>
      exact alone.move here fun _ => by simp [checked, HandlerPhase.inSpan]
    | write now content new reading =>
      exact alone.move here fun _ => by simp [reading, HandlerPhase.inSpan]
    | skip content reading => exact alone.move here nofun
    | record wrote => exact alone.move here nofun
    | finishWritten recorded => exact alone.move here nofun
    | finishUnchanged unchanged => exact alone.move here nofun
    | fail fault => exact alone.move here nofun

/-- A conditional handler that is alone in its span is not disturbed. -/
theorem Alone.undisturbed {s next : WriteRace} {action : Action} (alone : s.Alone)
    (apart : s.SpansApart action) (taken : Step s action next) : s.Undisturbed action := by
  cases taken with
  | arrive request => trivial
  | observe path kind => trivial
  | handler id what handler next here taken =>
    cases taken with
    | check arrived passed =>
      intro other mine second expected distinct found expects found' _ wrote
      have outside := apart other mine second distinct found found'
        (.inl (WriteRequest.conditional_of_version expects))
      rw [wrote] at outside
      cases outside
    | write now content new reading =>
      -- The handler that writes is in its span, so that no conditional one is.
      intro other second distinct found conditional
      refine Bool.eq_false_iff.mpr fun inside => ?_
      have outside := alone other id second handler distinct found here conditional
        (HandlerPhase.inSpan_of_inWindow inside)
      rw [reading] at outside
      cases outside
    | _ => trivial

/-- A run in which the spans are apart starts with nobody in one, and is undisturbed. -/
theorem undisturbed_of_spansApart {s : WriteRace} {actions : List Action} (alone : s.Alone)
    (apart : Along WriteRace.step SpansApart s actions) :
    Along WriteRace.step Undisturbed s actions := by
  have kept := visits_of_invariant Alone
    (fun _ _ _ inv apart taken => inv.step apart (step_spec taken)) alone apart
  exact kept.strengthen apart fun _ _ _ inv apart taken => inv.undisturbed apart (step_spec taken)

/-- A version that a handler found is behind every record made since. -/
def VersionsBehind (s : WriteRace) : Prop :=
  ∀ (id : Nat) (handler : Handler) (expected : Nat), s.handlers[id]? = some handler →
    handler.request.expectedVersion = some expected →
    (handler.phase.inWindow = true ∨ handler.phase.hasWritten = true →
      expected ≤ s.project.log.version) ∧
    (handler.phase.hasRecorded = true → expected < s.project.log.version)

/-- Once a handler has written, no other one that expected the same version has or will. -/
def OneWriter (s : WriteRace) : Prop :=
  ∀ (one other : Nat) (writer handler : Handler) (expected : Nat), one ≠ other →
    s.handlers[one]? = some writer → s.handlers[other]? = some handler →
    writer.request.expectedVersion = some expected →
    handler.request.expectedVersion = some expected →
    writer.phase.hasWritten = true →
    handler.phase.inWindow = false ∧ handler.phase.hasWritten = false

/-- What a conditional handler has read is what the file holds. -/
def ReadsCurrent (s : WriteRace) : Prop :=
  ∀ (id : Nat) (request : WriteRequest) (content : List Char),
    s.handlers[id]? = some { request, phase := .read content } → request.conditional = true →
    ∃ mtimeNs, s.project.file = some { content, mtimeNs }

/-- A phase that is no nearer to a write or a record keeps the versions behind. -/
theorem VersionsBehind.move {s : WriteRace} (behind : s.VersionsBehind) {id : Nat}
    {handler : Handler} (here : s.handlers[id]? = some handler) {phase : HandlerPhase}
    (near : phase.inWindow = true ∨ phase.hasWritten = true →
      handler.phase.inWindow = true ∨ handler.phase.hasWritten = true)
    (past : phase.hasRecorded = true → handler.phase.hasRecorded = true) :
    (s.move id handler phase).VersionsBehind := by
  -- The moved handler has what it had, and the others have not changed.
  intro other later expected found expects
  rcases Population.moved found with ⟨_, rfl⟩ | ⟨_, found⟩
  · obtain ⟨atMost, less⟩ := behind id handler expected here expects
    exact ⟨fun reached => atMost (near reached), fun reached => less (past reached)⟩
  · exact behind other later expected found expects

/-- The versions stay behind. -/
theorem VersionsBehind.step {s next : WriteRace} {action : Action} (behind : s.VersionsBehind)
    (taken : Step s action next) : next.VersionsBehind := by
  -- The log only grows, and a record grows it past the version that its handler found.
  cases taken with
  | arrive request =>
    intro id handler expected found expects
    rcases Population.joined found with ⟨_, rfl⟩ | ⟨_, found⟩
    · exact ⟨by simp [HandlerPhase.inWindow, HandlerPhase.hasWritten], nofun⟩
    · exact behind id handler expected found expects
  | observe path kind =>
    intro id handler expected found expects
    obtain ⟨atMost, less⟩ := behind id handler expected found expects
    simp only [ChangeLog.record_version]
    exact ⟨fun reached => by have := atMost reached; omega,
      fun reached => by have := less reached; omega⟩
  | handler id what handler next here taken =>
    cases taken with
    | check arrived passed =>
      intro other later expected found expects
      rcases Population.moved found with ⟨_, rfl⟩ | ⟨_, found⟩
      · have current := WriteRequest.check_version passed expects
        exact ⟨fun _ => by show expected ≤ s.project.log.version; omega, nofun⟩
      · exact behind other later expected found expects
    | read file checked held =>
      exact behind.move here (fun _ => Or.inl (by simp [checked, HandlerPhase.inWindow])) nofun
    | write now content new reading =>
      exact behind.move here (fun _ => Or.inl (by simp [reading, HandlerPhase.inWindow])) nofun
    | skip content reading =>
      exact behind.move here (by simp [HandlerPhase.inWindow, HandlerPhase.hasWritten]) nofun
    | record wrote =>
      intro other later expected found expects
      have grown : (s.project.recordDaemonWrite handler.request.path).log.version =
          s.project.log.version + 1 := ChangeLog.record_version _ _ _
      rcases Population.moved found with ⟨_, rfl⟩ | ⟨_, found⟩
      · have atMost := (behind id handler expected here expects).1
          (Or.inr (by simp [wrote, HandlerPhase.hasWritten]))
        exact ⟨fun _ => by rw [grown]; omega, fun _ => by rw [grown]; omega⟩
      · obtain ⟨atMost, less⟩ := behind other later expected found expects
        exact ⟨fun reached => by have := atMost reached; rw [grown]; omega,
          fun reached => by have := less reached; rw [grown]; omega⟩
    | finishWritten recorded =>
      exact behind.move here (fun _ => Or.inr (by simp [recorded, HandlerPhase.hasWritten]))
        (fun _ => by simp [recorded, HandlerPhase.hasRecorded])
    | finishUnchanged unchanged =>
      exact behind.move here (by simp [HandlerPhase.inWindow, HandlerPhase.hasWritten]) nofun
    | fail fault =>
      exact behind.move here (by simp [HandlerPhase.inWindow, HandlerPhase.hasWritten]) nofun

/-- A move into a phase that is no nearer to a write leaves one writer. -/
theorem OneWriter.move {s : WriteRace} (single : s.OneWriter) {id : Nat} {handler : Handler}
    (here : s.handlers[id]? = some handler) {phase : HandlerPhase}
    (window : phase.inWindow = true → handler.phase.inWindow = true)
    (written : phase.hasWritten = true → handler.phase.hasWritten = true) :
    (s.move id handler phase).OneWriter := by
  intro one other writer later expected apart found found' expects expects' wrote
  -- The handler that moves may be the writer, the one behind it, or neither.
  rcases Population.moved found with ⟨rfl, rfl⟩ | ⟨_, writes⟩
  · rcases Population.moved found' with ⟨same, _⟩ | ⟨_, stays⟩
    · exact absurd same.symm apart
    · exact single one other handler later expected apart here stays expects expects'
        (written wrote)
  · rcases Population.moved found' with ⟨rfl, rfl⟩ | ⟨_, stays⟩
    · obtain ⟨outside, unwritten⟩ :=
        single one other writer handler expected apart writes here expects expects' wrote
      refine ⟨Bool.eq_false_iff.mpr ?_, Bool.eq_false_iff.mpr ?_⟩
      · intro inside
        rw [window inside] at outside
        cases outside
      · intro has
        rw [written has] at unwritten
        cases unwritten
    · exact single one other writer later expected apart writes stays expects expects' wrote

/-- There stays one writer. -/
theorem OneWriter.step {s next : WriteRace} {action : Action} (single : s.OneWriter)
    (behind : s.VersionsBehind) (undisturbed : s.Undisturbed action)
    (taken : Step s action next) : next.OneWriter := by
  cases taken with
  | arrive request =>
    intro one other writer later expected apart found found' expects expects' wrote
    rcases Population.joined found with ⟨_, rfl⟩ | ⟨_, found⟩
    · cases wrote
    · rcases Population.joined found' with ⟨_, rfl⟩ | ⟨_, found'⟩
      · exact ⟨rfl, rfl⟩
      · exact single one other writer later expected apart found found' expects expects' wrote
  | observe path kind => exact single
  | handler id what handler next here taken =>
    cases taken with
    | check arrived passed =>
      -- Whoever has written has either recorded, past the found version, or is excluded.
      intro one other writer later expected apart found found' expects expects' wrote
      rcases Population.moved found with ⟨_, rfl⟩ | ⟨_, writes⟩
      · cases wrote
      · rcases Population.moved found' with ⟨rfl, rfl⟩ | ⟨_, stays⟩
        · exfalso
          have current := WriteRequest.check_version passed expects'
          have unrecorded := undisturbed one handler writer expected apart here expects' writes
            expects
          have recorded := HandlerPhase.hasRecorded_of_hasWritten wrote unrecorded
          have less := (behind one writer expected writes expects).2 recorded
          omega
        · exact single one other writer later expected apart writes stays expects expects' wrote
    | write now content new reading =>
      have reads : handler.phase.inWindow = true := by simp [reading, HandlerPhase.inWindow]
      intro one other writer later expected apart found found' expects expects' wrote
      rcases Population.moved found with ⟨rfl, rfl⟩ | ⟨_, writes⟩
      · rcases Population.moved found' with ⟨same, _⟩ | ⟨_, stays⟩
        · exact absurd same.symm apart
        · -- The others are outside their windows, and had one written, this one would be too.
          refine ⟨undisturbed other later (Ne.symm apart) stays
            (WriteRequest.conditional_of_version expects'), Bool.eq_false_iff.mpr ?_⟩
          intro has
          have outside := (single other one later handler expected (Ne.symm apart) stays here
            expects' expects has).1
          rw [reads] at outside
          cases outside
      · rcases Population.moved found' with ⟨rfl, rfl⟩ | ⟨_, stays⟩
        · have outside := (single one other writer handler expected apart writes here expects
            expects' wrote).1
          rw [reads] at outside
          cases outside
        · exact single one other writer later expected apart writes stays expects expects' wrote
    | read file checked held =>
      exact single.move here (fun _ => by simp [checked, HandlerPhase.inWindow]) nofun
    | skip content reading => exact single.move here nofun nofun
    | record wrote =>
      exact single.move here nofun (fun _ => by simp [wrote, HandlerPhase.hasWritten])
    | finishWritten recorded =>
      exact single.move here nofun (fun _ => by simp [recorded, HandlerPhase.hasWritten])
    | finishUnchanged unchanged => exact single.move here nofun nofun
    | fail fault => exact single.move here nofun nofun

/-- A move that neither writes nor reads leaves what others have read current. -/
theorem ReadsCurrent.move {s : WriteRace} (current : s.ReadsCurrent) {id : Nat}
    (handler : Handler) {phase : HandlerPhase} (noRead : ∀ content, phase ≠ .read content) :
    (s.move id handler phase).ReadsCurrent := by
  -- The moved handler has not read anything in this step.
  intro other request content found conditional
  rcases Population.moved found with ⟨_, same⟩ | ⟨_, found⟩
  · cases same
    exact absurd rfl (noRead content)
  · exact current other request content found conditional

/-- What conditional handlers have read stays current. -/
theorem ReadsCurrent.step {s next : WriteRace} {action : Action} (current : s.ReadsCurrent)
    (undisturbed : s.Undisturbed action) (taken : Step s action next) : next.ReadsCurrent := by
  cases taken with
  | arrive request =>
    intro id request' content found conditional
    rcases Population.joined found with ⟨_, same⟩ | ⟨_, found⟩
    · cases same
    · exact current id request' content found conditional
  | observe path kind => exact current
  | handler id what handler next here taken =>
    cases taken with
    | check arrived passed => exact current.move handler nofun
    | read file checked held =>
      intro other request content found conditional
      rcases Population.moved found with ⟨_, same⟩ | ⟨_, found⟩
      · cases same
        exact ⟨file.mtimeNs, held⟩
      · exact current other request content found conditional
    | write now content new reading =>
      -- Nobody else who is conditional has anything read at that moment.
      intro other request content' found conditional
      rcases Population.moved found with ⟨_, same⟩ | ⟨apart, found⟩
      · cases same
      · have outside := undisturbed other _ apart found conditional
        cases outside
    | skip content reading => exact current.move handler nofun
    | record wrote => exact current.move handler nofun
    | finishWritten recorded => exact current.move handler nofun
    | finishUnchanged unchanged => exact current.move handler nofun
    | fail fault => exact current.move handler nofun

/-- A conditional write replaces exactly the contents that it was computed from. -/
def WritesOnCurrent (s : WriteRace) : Action → Prop
  | .handler id (.write _) => ∀ (request : WriteRequest) (content : List Char),
      s.handlers[id]? = some { request, phase := .read content } → request.conditional = true →
      ∃ mtimeNs, s.project.file = some { content, mtimeNs }
  | _ => True

/-- No write takes effect between the check of a conditional handler and its own write. -/
def NoWriteBetween (actions : List Action) (last : WriteRace) : Prop :=
  ∀ (before between after : List Action) (id now : Nat) (handler : Handler),
    actions = before ++ .handler id .check :: (between ++ .handler id (.write now) :: after) →
    last.handlers[id]? = some handler → handler.request.conditional = true →
    ∀ other now', Action.handler other (.write now') ∉ between

/-- Of the requests that changed the file and expected the same version, one succeeded at most. -/
def OneSuccess (s : WriteRace) : Prop :=
  ∀ (one other : Nat) (handler handler' : Handler) (expected : Nat), one ≠ other →
    s.handlers[one]? = some handler → s.handlers[other]? = some handler' →
    handler.phase = .succeeded true → handler'.phase = .succeeded true →
    handler.request.expectedVersion = some expected →
    handler'.request.expectedVersion ≠ some expected

/-- A daemon that has started no handler yet. -/
def start (project : Project) : WriteRace := { project, handlers := [] }

/-- A handler that takes its check step is in its window afterwards. -/
theorem Step.of_check {s next : WriteRace} {id : Nat} (taken : Step s (.handler id .check) next) :
    ∃ handler, next.handlers[id]? = some handler ∧ 1 ≤ handler.phase.rank := by
  cases taken with
  | handler _ _ handler _ here taken =>
    cases taken with
    | check arrived passed => exact ⟨_, Population.moved_self here, Nat.le_refl _⟩

/-- A handler that takes its write step is at the end of its window before, and past it after. -/
theorem Step.of_write {s next : WriteRace} {id now : Nat}
    (taken : Step s (.handler id (.write now)) next) :
    (∃ handler, s.handlers[id]? = some handler ∧ handler.phase.rank = 2) ∧
      ∃ handler, next.handlers[id]? = some handler ∧ handler.phase.rank = 3 := by
  -- A write is taken after the read and nowhere else.
  cases taken with
  | handler _ _ handler _ here taken =>
    cases taken with
    | write now content new reading =>
      exact ⟨⟨handler, here, by simp [reading, HandlerPhase.rank]⟩,
        _, Population.moved_self here, rfl⟩

/-- In an undisturbed run no write comes between a conditional check and its write. -/
theorem noWriteBetween {s last : WriteRace} {actions : List Action}
    (undisturbed : Along WriteRace.step Undisturbed s actions)
    (ran : run WriteRace.step s actions = some last) : NoWriteBetween actions last := by
  intro before between after id now handler split found conditional other now' member
  obtain ⟨early, late, rfl⟩ := List.append_of_mem member
  subst split
  rw [List.append_assoc, List.cons_append] at ran undisturbed
  -- Follow the run to the check, to the write in between, and to the handler's own write.
  obtain ⟨atCheck, ranBefore, ran⟩ := run_append_eq_some.mp ran
  obtain ⟨checked, check, ran⟩ := run_cons_eq_some.mp ran
  obtain ⟨atOther, ranEarly, ran⟩ := run_append_eq_some.mp ran
  have ranFromOther := ran
  obtain ⟨afterOther, write, ran⟩ := run_cons_eq_some.mp ran
  obtain ⟨atWrite, ranLate, ran⟩ := run_append_eq_some.mp ran
  obtain ⟨afterWrite, ownWrite, _⟩ := run_cons_eq_some.mp ran
  obtain ⟨mine, checkedMine, behindCheck⟩ := (step_spec check).of_check
  obtain ⟨between, atOtherMine, _, forward⟩ := run_rank ranEarly checkedMine
  obtain ⟨⟨reading, atWriteMine, rankRead⟩, _⟩ := (step_spec ownWrite).of_write
  by_cases same : other = id
  · -- The handler would have to write twice.
    subst same
    obtain ⟨_, past, afterMine, rankPast⟩ := (step_spec write).of_write
    obtain ⟨later, found', _, forward'⟩ := run_rank ranLate afterMine
    rw [atWriteMine] at found'
    cases found'
    omega
  · -- At the other's write this handler is in its window, which the guard excludes.
    obtain ⟨later, found', sameRequest, forward'⟩ := run_rank
      (run_cons_eq_some.mpr ⟨afterOther, write, ranLate⟩) atOtherMine
    rw [atWriteMine] at found'
    cases found'
    have inWindow := (HandlerPhase.inWindow_iff_rank between.phase).mpr ⟨by omega, by omega⟩
    obtain ⟨final, finalFound, finalRequest, _⟩ := run_rank ranFromOther atOtherMine
    rw [found] at finalFound
    cases finalFound
    rw [finalRequest] at conditional
    have guarded := (((undisturbed.rest ranBefore).cons check).2.rest ranEarly).cons write
    have outside := guarded.1 id between (Ne.symm same) atOtherMine conditional
    rw [inWindow] at outside
    cases outside

/--
In every run in which no conditional handler's way from its check to its record overlaps another
one's, no write takes effect between the check of a conditional handler and its own write, of the
requests that expected the same version one succeeds in changing the file at most, and a
conditional write replaces exactly the contents that it was computed from.
-/
theorem conditional_writes_exclusive {project : Project} {actions : List Action}
    {last : WriteRace} (apart : Along WriteRace.step SpansApart (start project) actions)
    (ran : run WriteRace.step (start project) actions = some last) :
    NoWriteBetween actions last ∧ OneSuccess last ∧
      Along WriteRace.step WritesOnCurrent (start project) actions := by
  have undisturbed := undisturbed_of_spansApart
    (fun _ _ _ _ _ found => by simp [start] at found) apart
  -- The three parts of the invariant are kept together.
  have kept := visits_of_invariant
    (fun s => s.VersionsBehind ∧ s.OneWriter ∧ s.ReadsCurrent)
    (fun s action next inv undisturbed taken =>
      ⟨inv.1.step (step_spec taken), inv.2.1.step inv.1 undisturbed (step_spec taken),
        inv.2.2.step undisturbed (step_spec taken)⟩)
    ⟨fun _ _ _ found => by simp [start] at found,
      fun _ _ _ _ _ _ found => by simp [start] at found,
      fun _ _ _ found => by simp [start] at found⟩ undisturbed
  refine ⟨noWriteBetween undisturbed ran, ?_, ?_⟩
  · -- Two successes on one version would be two writes, and the second is excluded by the first.
    intro one other handler handler' expected distinct found found' ended ended' expects expects'
    have wrote : handler.phase.hasWritten = true := by rw [ended]; rfl
    have wrote' : handler'.phase.hasWritten = true := by rw [ended']; rfl
    have unwritten := ((kept.last ran).2.1 one other handler handler' expected distinct found found'
      expects expects' wrote).2
    rw [wrote'] at unwritten
    cases unwritten
  · apply kept.strengthen undisturbed
    intro s action next inv _ _
    cases action with
    | handler id what =>
      cases what with
      | write now => exact inv.2.2 id
      | _ => trivial
    | _ => trivial

/-- A handler that takes a step is the one that the step is about. -/
theorem step_handler {s : WriteRace} {id : Nat} {handler : Handler}
    (here : s.handlers[id]? = some handler) (what : HandlerAction) :
    s.step (.handler id what) = s.handlerStep id what handler := by
  simp [step, here]

/-- The steps of a handler that writes, one right after another. -/
def uninterrupted (id now : Nat) : List Action :=
  [.handler id .check, .handler id .read, .handler id (.write now), .handler id .record,
    .handler id .finish]

/-- The handler's steps, when none of them fails. -/
theorem run_uninterrupted {s : WriteRace} {id now : Nat} {request : WriteRequest}
    {file : FileEntry} {new : List Char}
    (here : s.handlers[id]? = some { request, phase := .arrived })
    (passed : request.check s.project = .ok ()) (held : s.project.file = some file)
    (edited : request.edit file.content = .ok (some new)) (writable : s.project.writable = true) :
    run WriteRace.step s (uninterrupted id now) = some
      { project :=
          { file := some { content := new, mtimeNs := now }
            writable := true
            log := s.project.log.record request.path .modified }
        handlers := s.handlers.set id { request, phase := .succeeded true } } := by
  have moved : ∀ (project : Project) (phase : HandlerPhase) (what : HandlerAction),
      step { project, handlers := s.handlers.set id { request, phase } } (.handler id what) =
        handlerStep { project, handlers := s.handlers.set id { request, phase } } id what
          { request, phase } :=
    fun _ _ what => step_handler (Population.moved_self here) what
  -- Each step finds the handler where the step before has put it.
  simp only [uninterrupted, run, step_handler here, handlerStep, passed, Option.bind_some, move,
    moved, Project.readToString, held, edited, Project.writeFileChecked, writable, if_true,
    List.set_set, Project.recordDaemonWrite, Project.metadata]

/-- Run without interruption, the steps of `fs.apply_patch` do what the handler does. -/
theorem run_fsApplyPatch {s : WriteRace} {id now : Nat} {params : FsApplyPatchParams}
    {result : FsApplyPatchResult} {project : Project}
    (here : s.handlers[id]? = some { request := .applyPatch params, phase := .arrived })
    (done : fsApplyPatch s.project now params = (.ok result, project)) :
    run WriteRace.step s (uninterrupted id now) = some
      { project
        handlers := s.handlers.set id
          { request := .applyPatch params, phase := .succeeded true } } := by
  unfold fsApplyPatch at done
  -- The handler has come through every point at which it could have failed.
  cases passed : s.project.checkWritePreconditions params.expectedVersion
      params.expectedMtimeNs with
  | error error => simp [passed] at done
  | ok _ =>
    cases held : s.project.file with
    | none => simp [passed, Project.readToString, held] at done
    | some file =>
      cases patched : applyUnifiedPatch file.content params.patch with
      | error fault => simp [passed, Project.readToString, held, patched] at done
      | ok new =>
        cases writable : s.project.writable with
        | false =>
          simp [passed, Project.readToString, held, patched, Project.writeFileChecked, writable]
            at done
        | true =>
          simp [passed, Project.readToString, held, patched, Project.writeFileChecked, writable,
            Project.metadata, Project.recordDaemonWrite] at done
          have edited : (WriteRequest.applyPatch params).edit file.content = .ok (some new) := by
            simp [WriteRequest.edit, patched, Except.map]
          rw [← done.2]
          exact run_uninterrupted here passed held edited writable

/-- The steps of a handler that finds nothing to write, one right after another. -/
def withoutWrite (id : Nat) : List Action :=
  [.handler id .check, .handler id .read, .handler id .skip, .handler id .finish]

/-- The handler's steps, when there is nothing to write and none of them fails. -/
theorem run_withoutWrite {s : WriteRace} {id : Nat} {request : WriteRequest} {file : FileEntry}
    (here : s.handlers[id]? = some { request, phase := .arrived })
    (passed : request.check s.project = .ok ()) (held : s.project.file = some file)
    (edited : request.edit file.content = .ok none) :
    run WriteRace.step s (withoutWrite id) = some
      { s with handlers := s.handlers.set id { request, phase := .succeeded false } } := by
  -- The handler is where its last step has put it.
  have moved : ∀ (phase : HandlerPhase) (what : HandlerAction),
      step { s with handlers := s.handlers.set id { request, phase } } (.handler id what) =
        handlerStep { s with handlers := s.handlers.set id { request, phase } } id what
          { request, phase } :=
    fun _ what => step_handler (Population.moved_self here) what
  simp only [withoutWrite, run, step_handler here, handlerStep, passed, Option.bind_some, move,
    moved, Project.readToString, held, edited, List.set_set, Project.metadata]

/-- Run without interruption, the steps of `fs.replace_all` do what the handler does. -/
theorem run_fsReplaceAll {s : WriteRace} {id now : Nat} {params : FsReplaceAllParams}
    {result : FsReplaceAllResult} {project : Project}
    (here : s.handlers[id]? = some { request := .replaceAll params, phase := .arrived })
    (done : fsReplaceAll s.project now params = (.ok result, project)) :
    run WriteRace.step s
        (if 0 < result.replacements then uninterrupted id now else withoutWrite id) = some
      { project
        handlers := s.handlers.set id
          { request := .replaceAll params
            phase := .succeeded (decide (0 < result.replacements)) } } := by
  unfold fsReplaceAll at done
  split at done
  · cases done
  · rename_i some_search
    cases passed : s.project.checkWritePreconditions params.expectedVersion
        params.expectedMtimeNs with
    | error error => simp [passed] at done
    | ok _ =>
      have checks : (WriteRequest.replaceAll params).check s.project = .ok () := by
        simp [WriteRequest.check, some_search, passed]
      cases held : s.project.file with
      | none => simp [passed, Project.readToString, held] at done
      | some file =>
        cases replaced : params.replaced file.content with
        | error error => simp [passed, Project.readToString, held, replaced] at done
        | ok edit =>
          have edited : (WriteRequest.replaceAll params).edit file.content = .ok edit := by
            simp [WriteRequest.edit, replaced, Except.mapError]
          -- Whether there is something to write is whether anything was found.
          have found : edit.isSome = decide (0 < matchCount params.search 0 file.content) := by
            simp only [FsReplaceAllParams.replaced] at replaced
            split at replaced
            · cases replaced
            · split at replaced
              · rename_i positive
                cases replaced
                simp [positive]
              · rename_i zero
                cases replaced
                simp [zero]
          cases edit with
          | none =>
            have zero : matchCount params.search 0 file.content = 0 := by simpa using found
            simp only [passed, Project.readToString, held, replaced, Project.metadata, zero,
              Prod.mk.injEq, Except.ok.injEq] at done
            rw [← done.1, ← done.2]
            exact run_withoutWrite here checks held edited
          | some new =>
            have positive : 0 < matchCount params.search 0 file.content := by
              simpa using found
            cases writable : s.project.writable with
            | false =>
              simp [passed, Project.readToString, held, replaced, Project.writeFileChecked,
                writable, Except.map] at done
            | true =>
              simp only [passed, Project.readToString, held, replaced, Project.writeFileChecked,
                writable, if_true, Except.map, Project.recordDaemonWrite, Project.metadata,
                Prod.mk.injEq, Except.ok.injEq] at done
              rw [← done.1, ← done.2]
              simp only [positive, if_true, decide_true]
              exact run_uninterrupted here checks held edited writable

/-- A request that replaces one text by another, and expects the first version. -/
def replaceFirst (search replacement : String) : WriteRequest :=
  .replaceAll
    { path := ["x"], search := search.toList, replacement := replacement.toList,
      expectedVersion := some 0, expectedMtimeNs := none, maxReplacements := none }

/-- A project whose file holds one letter. -/
def oneLetter : Project :=
  { file := some { content := "a".toList, mtimeNs := 0 }, writable := true,
    log := ChangeLog.withCapacity 8 }

/-- Two requests for the same version, of which the second one comes when the first is done. -/
def oneAfterTheOther : List Action :=
  [.arrive (replaceFirst "a" "b"), .arrive (replaceFirst "a" "c"),
    .handler 0 .check, .handler 0 .read, .handler 0 (.write 1), .handler 0 .record,
    .handler 0 .finish, .handler 1 .fail]

/-- One after the other, the first request succeeds and the second one is refused. -/
theorem conditional_writes_exclusive_in_turn :
    ∃ s, run WriteRace.step (start oneLetter) oneAfterTheOther = some s ∧
      NoWriteBetween oneAfterTheOther s ∧ OneSuccess s ∧
      Along WriteRace.step WritesOnCurrent (start oneLetter) oneAfterTheOther := by
  have apart : Along WriteRace.step SpansApart (start oneLetter) oneAfterTheOther := by
    refine ⟨trivial, trivial, ?_, trivial, trivial, trivial, trivial, trivial, trivial⟩
    intro other mine handler distinct _ found _
    -- Only the second request is there besides, and it has just arrived.
    match other with
    | 0 => exact absurd rfl distinct
    | 1 =>
      cases found
      rfl
    | _ + 2 => cases found
  exact ⟨_, rfl, conditional_writes_exclusive apart rfl⟩

/-- Two requests that both check before either of them writes both succeed. -/
theorem interleaved_checks_lose_update :
    ∃ s, run WriteRace.step (start oneLetter)
        [.arrive (replaceFirst "a" "b"), .arrive (replaceFirst "a" "c"),
          .handler 0 .check, .handler 1 .check, .handler 0 .read, .handler 1 .read,
          .handler 0 (.write 1), .handler 1 (.write 2), .handler 0 .record, .handler 1 .record,
          .handler 0 .finish, .handler 1 .finish] = some s ∧
      s.handlers = [⟨replaceFirst "a" "b", .succeeded true⟩,
        ⟨replaceFirst "a" "c", .succeeded true⟩] ∧
      s.project.file = some { content := "c".toList, mtimeNs := 2 } :=
  ⟨_, rfl, rfl, rfl⟩

end WriteRace

end McpCli
