import McpCli.Daemon.Handlers
import McpCli.Daemon.Imports
import McpCli.Files.Tree
import McpCli.Transition.Run

/-! Handlers that resolve a path below the root and open what it names, while the tree changes. -/

namespace McpCli

open Text

/-- A name that a directory can have in it. -/
def IsFileName (name : List UInt8) : Prop :=
  name ≠ [] ∧ name ≠ [0x2E] ∧ name ≠ [0x2E, 0x2E] ∧ 0x2F ∉ name ∧ 0 ∉ name

instance (name : List UInt8) : Decidable (IsFileName name) :=
  inferInstanceAs (Decidable (_ ∧ _))

/-- The name of something in a directory. -/
abbrev FileName := { name : List UInt8 // IsFileName name }

/-- The files of the system, with the links between them. -/
abbrev LinkTree := Files.Tree FileName (List UInt8)

/-- A path of the system as its names. -/
def OsPath.ofNames (place : List FileName) : OsPath := place.map Subtype.val

/-- What a part of a path between slashes stands for. -/
def stepOf (part : List UInt8) : Files.Step FileName :=
  if valid : IsFileName part then .down ⟨part, valid⟩
  else if part = [0x2E, 0x2E] then .up
  else .stay

/-- The steps that a path is made of, from the top. -/
def stepsOf (path : List UInt8) : List (Files.Step FileName) := (path.splitOn 0x2F).map stepOf

/-- What the operating system says about a path that leads nowhere. -/
def faultText : Files.Fault → String
  | .missing => notFound
  | .notDirectory => "Not a directory (os error 20)"
  | .tooManyLinks => "Too many levels of symbolic links (os error 40)"
  | .refused reason => reason

/-- What the operating system says about a path with a zero byte. -/
def nulByte : String := "file name contained an unexpected NUL byte"

/-- The place that a path names, behind all links. -/
def canonicalizeIn (tree : LinkTree) (maxLinks : Nat) (path : List UInt8) :
    Except String (List FileName) :=
  if 0 ∈ path then .error nulByte
  else (tree.walk maxLinks [] (stepsOf path)).mapError faultText

/-- The place below the root that a candidate names. -/
def resolveIn (tree : LinkTree) (maxLinks : Nat) (root : List FileName) (candidate : String) :
    Except RpcError OsPath :=
  resolveWithin (.ofNames root) candidate
    ((canonicalizeIn tree maxLinks
      (joinPath (OsPath.bytes (.ofNames root)) candidate.toList)).map OsPath.ofNames)

/-- The calls by which a handler gets at the bytes of a file. -/
inductive FileCall where
  | open
  | stat
  | mmap
  deriving DecidableEq, Repr

/-- The error of a call that the operating system refuses, with what it says. -/
def FileCall.error (call : FileCall) (reason : String) : RpcError :=
  match call with
  | .open => { code := -32010, message := s!"open: {reason}" }
  | .stat => { code := -32011, message := s!"stat: {reason}" }
  | .mmap => { code := -32012, message := s!"mmap: {reason}" }

/-- How far a handler has come with the path of its request. -/
inductive PathPhase where
  | arrived
  /-- It looks up one name of the path after the other. -/
  | resolving (walk : Files.Walk FileName)
  | resolved (canon : OsPath)
  /-- The operating system looks up the names again. -/
  | opening (canon : OsPath) (walk : Files.Walk FileName)
  | opened (canon : OsPath) (place : List FileName)
  /-- The path has been looked up, but a call for what is there is refused. -/
  | refused (canon : OsPath) (place : List FileName) (call : FileCall) (reason : String)
  | failed (error : RpcError)
  deriving DecidableEq

/-- The error with which a request has failed, if it has. -/
def PathPhase.error : PathPhase → Option RpcError
  | .refused _ _ call reason => some (call.error reason)
  | .failed error => some error
  | _ => none

/-- A request that names a path, and how far its handler has come. -/
structure PathRequest where
  candidate : String
  phase : PathPhase
  deriving DecidableEq

/-- The tree as it is by now, and the requests in the order of their arrival. -/
structure PathRace where
  tree : LinkTree
  root : List FileName
  requests : List PathRequest

namespace PathRace

/-- The next thing that happens. -/
inductive Action where
  /-- A request arrives, which names a path. -/
  | arrive (candidate : String)
  /-- One of the handlers takes its next step. -/
  | advance (request : Nat)
  /-- The operating system refuses the call that one of the handlers makes. -/
  | refuse (request : Nat) (call : FileCall) (reason : String)
  /-- Anything changes in the tree, which leaves it like this. -/
  | change (tree : LinkTree)

/-- The next step of a handler, if there is one. -/
def next (maxLinks : Nat) (s : PathRace) (candidate : String) : PathPhase → Option PathPhase
  | .arrived =>
    let path := joinPath (OsPath.bytes (.ofNames s.root)) candidate.toList
    if 0 ∈ path then
      some (.failed { code := -32001, message := s!"canonicalize {candidate}: {nulByte}" })
    else some (.resolving { links := maxLinks, place := [], rest := stepsOf path })
  | .resolving walk =>
    -- Each name is looked up in the tree as it is by now.
    match s.tree.resume walk with
    | .ok (.inl walk) => some (.resolving walk)
    | .ok (.inr place) =>
      match resolveWithin (.ofNames s.root) candidate (.ok (.ofNames place)) with
      | .error error => some (.failed error)
      | .ok canon => some (.resolved canon)
    | .error fault =>
      let e := faultText fault
      some (.failed { code := -32001, message := s!"canonicalize {candidate}: {e}" })
  -- The path that was found is handed over as bytes.
  | .resolved canon =>
    some (.opening canon { links := maxLinks, place := [], rest := stepsOf canon.bytes })
  | .opening canon walk =>
    match s.tree.resume walk with
    | .ok (.inl walk) => some (.opening canon walk)
    | .ok (.inr place) => some (.opened canon place)
    | .error fault => some (.failed (FileCall.open.error (faultText fault)))
  | .opened .. | .refused .. | .failed _ => none

/-- What a refused call makes of a handler that has come to it. -/
def refuse (s : PathRace) (call : FileCall) (reason : String) : PathPhase → Option PathPhase
  | .opening canon walk =>
    match call, s.tree.resume walk with
    | .open, .ok (.inr place) => some (.refused canon place .open reason)
    | _, _ => none
  | .opened canon place =>
    if call = .open then none else some (.refused canon place call reason)
  | _ => none

/-- Take one step, if it is possible. -/
def step (maxLinks : Nat) (s : PathRace) : Action → Option PathRace
  | .arrive candidate =>
    some { s with requests := s.requests ++ [{ candidate, phase := .arrived }] }
  | .advance number =>
    match s.requests[number]? with
    | none => none
    | some request =>
      (s.next maxLinks request.candidate request.phase).map fun phase =>
        { s with requests := s.requests.set number { request with phase } }
  | .refuse number call reason =>
    match s.requests[number]? with
    | none => none
    | some request =>
      (s.refuse call reason request.phase).map fun phase =>
        { s with requests := s.requests.set number { request with phase } }
  | .change tree => some { s with tree }

end PathRace

end McpCli
