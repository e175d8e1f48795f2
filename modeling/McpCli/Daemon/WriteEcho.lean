import McpCli.Daemon.Watcher
import McpCli.Daemon.WriteRace

/-! The writing handlers beside the watcher, which hears of their writes as of all others. -/

namespace McpCli

/-- The handler has returned, in one way or the other. -/
def HandlerPhase.ended : HandlerPhase → Bool
  | .succeeded _ | .failed _ => true
  | _ => false

/-- The files, the watcher with its log, and the handlers with the notifications they cause. -/
structure WriteEcho (Parsed : Type) where
  files : AbsPath → Option FileEntry
  /-- The file may be opened for writing. -/
  writable : AbsPath → Bool
  watcher : Watcher (List Char) Parsed
  handlers : List Handler
  /-- The handlers whose writes the watcher has not heard of. -/
  undelivered : List Nat
  /-- The handlers whose writes have a version of the log from themselves. -/
  ownRecords : List Nat
  /-- The handlers whose writes have a version of the log from the watcher. -/
  echoes : List Nat
  /-- The version that the last write returned. -/
  returned : Option Nat

namespace WriteEcho

variable {Parsed : Type}

/-- The next thing that happens. -/
inductive Action where
  | arrive (request : WriteRequest)
  | handler (id : Nat) (what : WriteRace.HandlerAction)
  /-- The watcher hears of the write of a handler. -/
  | deliver (id : Nat)
  deriving DecidableEq, Repr

/-- The contents of the files, as ignore rules are read from them. -/
def disk (s : WriteEcho Parsed) : Disk (List Char) :=
  fun path => (s.files path).map FileEntry.content

/-- Where a handler finds its file. -/
def target (s : WriteEcho Parsed) (handler : Handler) : AbsPath :=
  s.watcher.filter.root ++ handler.request.path

/-- The handlers, with the file of one of them in view. -/
def facing (s : WriteEcho Parsed) (handler : Handler) : WriteRace where
  project :=
    { file := s.files (s.target handler)
      writable := s.writable (s.target handler)
      log := s.watcher.log }
  handlers := s.handlers

/-- The notification that a write gives rise to. -/
def notification (s : WriteEcho Parsed) (handler : Handler) : Event :=
  { kind := .modify .data, paths := [s.target handler] }

/-- Take one step, if it is possible. -/
def step (gitignore : Gitignore (List Char)) (s : WriteEcho Parsed) :
    Action → Option (WriteEcho Parsed)
  | .arrive request => some { s with handlers := s.handlers ++ [{ request, phase := .arrived }] }
  | .handler id what =>
    match s.handlers[id]? with
    | none => none
    | some handler =>
      ((s.facing handler).handlerStep id what handler).map fun race =>
        { s with
          files := Function.update s.files (s.target handler) race.project.file
          watcher := { s.watcher with log := race.project.log }
          handlers := race.handlers
          -- A write causes a notification, and only a record stands for it in the log.
          undelivered :=
            match what with
            | .write _ => s.undelivered ++ [id]
            | _ => s.undelivered
          ownRecords :=
            match what with
            | .record => s.ownRecords ++ [id]
            | _ => s.ownRecords
          returned :=
            match what, handler.phase with
            | .finish, .recorded => some race.project.log.snapshot.1
            | _, _ => s.returned }
  | .deliver id =>
    match s.handlers[id]? with
    | none => none
    | some handler =>
      if id ∈ s.undelivered then
        let watcher := s.watcher.handleEvent gitignore s.disk (s.notification handler)
        some
          { s with
            watcher
            undelivered := s.undelivered.erase id
            echoes :=
              if watcher.log.version = s.watcher.log.version then s.echoes
              else s.echoes ++ [id] }
      else none

end WriteEcho

end McpCli
