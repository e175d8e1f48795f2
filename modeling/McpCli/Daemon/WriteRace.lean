import McpCli.Daemon.Handlers
import McpCli.Transition.Population
import McpCli.Transition.Run

/-! The writing handlers of one daemon, running step by step on one file. -/

namespace McpCli

/-- A request that may write the file. -/
inductive WriteRequest where
  | applyPatch (params : FsApplyPatchParams)
  | replaceAll (params : FsReplaceAllParams)
  deriving DecidableEq, Repr

namespace WriteRequest

def path : WriteRequest → RelPath
  | .applyPatch params => params.path
  | .replaceAll params => params.path

def expectedVersion : WriteRequest → Option Nat
  | .applyPatch params => params.expectedVersion
  | .replaceAll params => params.expectedVersion

def expectedMtimeNs : WriteRequest → Option Nat
  | .applyPatch params => params.expectedMtimeNs
  | .replaceAll params => params.expectedMtimeNs

/-- The request says in what state it expects the file. -/
def conditional (request : WriteRequest) : Bool :=
  request.expectedVersion.isSome || request.expectedMtimeNs.isSome

/-- What is checked before the file is read. -/
def check (request : WriteRequest) (project : Project) : Except RpcError Unit :=
  match request with
  | .applyPatch params =>
    project.checkWritePreconditions params.expectedVersion params.expectedMtimeNs
  | .replaceAll params =>
    if params.search = [] then .error { code := -32602, message := "search must not be empty" }
    else project.checkWritePreconditions params.expectedVersion params.expectedMtimeNs

/-- The new contents that the request asks for, if it asks for any. -/
def edit (request : WriteRequest) (content : List Char) :
    Except HandlerFault (Option (List Char)) :=
  match request with
  | .applyPatch params => (applyUnifiedPatch content params.patch).map some
  | .replaceAll params => (params.replaced content).mapError HandlerFault.rpc

end WriteRequest

/-- How far a handler has come. -/
inductive HandlerPhase where
  | arrived
  /-- The preconditions held when it looked. -/
  | checked
  | read (content : List Char)
  /-- There is nothing to write. -/
  | unchanged
  | wrote
  | recorded
  | succeeded (wrote : Bool)
  | failed (fault : HandlerFault)
  deriving DecidableEq, Repr

/-- A handler and the request that it serves. -/
structure Handler where
  request : WriteRequest
  phase : HandlerPhase
  deriving DecidableEq, Repr

/-- The file and the log, and every handler started so far. -/
structure WriteRace where
  project : Project
  handlers : List Handler
  deriving DecidableEq, Repr

namespace WriteRace

/-- What a handler does next, and that it succeeds in it. -/
inductive HandlerAction where
  | check
  | read
  | write (now : Nat)
  /-- It finds nothing to write. -/
  | skip
  | record
  | finish
  /-- Its next step fails, and ends it. -/
  | fail
  deriving DecidableEq, Repr

/-- The next thing that happens. -/
inductive Action where
  | arrive (request : WriteRequest)
  | handler (id : Nat) (what : HandlerAction)
  /-- Another event enters the log. -/
  | observe (path : RelPath) (kind : ChangeKind)
  deriving DecidableEq, Repr

/-- Why the next step of a handler fails, if it does. -/
def failure (project : Project) (handler : Handler) : Option HandlerFault :=
  match handler.phase with
  -- The preconditions are checked once, before anything is read.
  | .arrived =>
    match handler.request.check project with
    | .error error => some (.rpc error)
    | .ok () => none
  -- What is read is decoded as a text as a whole.
  | .checked =>
    match project.readToString with
    | .error error => some (.rpc error)
    | .ok _ => none
  | .read content =>
    match handler.request.edit content with
    | .error fault => some fault
    | .ok none => none
    | .ok (some new) =>
      -- Whether a write fails does not depend on the time of it.
      match project.writeFileChecked 0 new with
      | .error error => some (.rpc error)
      | .ok _ => none
  -- The response has the modification time, for which the file is looked at again.
  | .recorded | .unchanged =>
    match project.metadata with
    | .error error => some (.rpc error)
    | .ok _ => none
  | .wrote | .succeeded _ | .failed _ => none

/-- Move a handler on. -/
def move (s : WriteRace) (id : Nat) (handler : Handler) (phase : HandlerPhase) : WriteRace :=
  { s with handlers := s.handlers.set id { handler with phase } }

/-- Let a handler take its next step. -/
def handlerStep (s : WriteRace) (id : Nat) (what : HandlerAction) (handler : Handler) :
    Option WriteRace :=
  match what, handler.phase with
  | .fail, _ => (failure s.project handler).map fun fault => s.move id handler (.failed fault)
  | .check, .arrived =>
    match handler.request.check s.project with
    | .error _ => none
    | .ok () => some (s.move id handler .checked)
  | .read, .checked =>
    match s.project.readToString with
    | .error _ => none
    | .ok content => some (s.move id handler (.read content))
  | .write now, .read content =>
    match handler.request.edit content with
    | .error _ | .ok none => none
    | .ok (some new) =>
      -- Nothing is checked again before the write.
      match s.project.writeFileChecked now new with
      | .error _ => none
      | .ok project => some { s.move id handler .wrote with project }
  | .skip, .read content =>
    match handler.request.edit content with
    -- Without a replacement nothing is written and nothing recorded.
    | .error _ | .ok (some _) => none
    | .ok none => some (s.move id handler .unchanged)
  | .record, .wrote =>
    some { s.move id handler .recorded with
      project := s.project.recordDaemonWrite handler.request.path }
  | .finish, .recorded =>
    match s.project.metadata with
    | .error _ => none
    | .ok _ => some (s.move id handler (.succeeded true))
  | .finish, .unchanged =>
    match s.project.metadata with
    | .error _ => none
    | .ok _ => some (s.move id handler (.succeeded false))
  | _, _ => none

/-- Take one step, if it is possible. -/
def step (s : WriteRace) : Action → Option WriteRace
  | .arrive request => some { s with handlers := s.handlers ++ [{ request, phase := .arrived }] }
  | .handler id what => s.handlers[id]?.bind fun handler => s.handlerStep id what handler
  | .observe path kind =>
    some { s with project := { s.project with log := s.project.log.record path kind } }

end WriteRace

end McpCli
