import McpCli.Daemon.ForEach
import McpCli.Protocol.Json
import McpCli.Text.Words
import McpCli.Transition.Run

/-! The `pipe` method, whose steps refer to the results of the steps in front of them. -/

namespace McpCli

/-- What the references are resolved with. -/
structure PipeLibs where
  /-- The third-party JSONPath library: the nodes that an expression matches, or why it is none. -/
  parse : String → Except String (Json → List Json)
  /-- The debug form of a text, in quotes. -/
  debug : List Char → String

/-- A step of a pipe as it is requested. -/
structure PipeStep where
  method : String
  params : Json
  /-- When it is set, the step runs once for each matched node. -/
  forEach : Option String
  /-- An error inside of the step does not abort the pipe. -/
  continueOnError : Bool
  concurrency : Option Nat
  deriving Repr

/-- A step of a pipe as it is answered. -/
structure PipeStepResult where
  method : String
  result : Option Json
  error : Option RpcError
  items : Option (List (PipeItemResult Json))
  deriving Repr

/-- An answer that says nothing yet. -/
def PipeStepResult.blank (method : String) : PipeStepResult :=
  { method, result := none, error := none, items := none }

/-- The name of the method, which a step may not have. -/
def pipeMethod : String := "pipe"

/-- A refused parameter. -/
def RpcError.invalid (message : String) : RpcError := { code := -32602, message }

/-! The references. -/

/-- What a reference starts from. -/
inductive RefRoot where
  | step (idx : Nat)
  | item
  deriving DecidableEq, Repr

section
variable (libs : PipeLibs)

/-- The part of a reference behind its root. -/
def jsonpathSuffix (full rest : List Char) : Except RpcError (List Char) :=
  if rest = [] then .ok []
  else if rest.head? = some '.' then .ok rest
  else if rest.head? = some '[' then .ok rest
  else .error (.invalid s!"ref suffix must start with '.' or '[': {libs.debug full}")

/-- Split a reference into its root and its path. -/
def parsePrefix (expr : List Char) : Except RpcError (RefRoot × List Char) :=
  let raw := Text.trim expr
  match Text.stripPrefix ['$'] raw with
  | none => .error (.invalid s!"ref must start with '$': {libs.debug raw}")
  | some after =>
    match Text.stripPrefix ['i', 't', 'e', 'm'] after with
    | some rest => (jsonpathSuffix libs raw rest).map fun suffix => (.item, suffix)
    | none =>
      -- The longest run of digits is the number.
      let digits := after.takeWhile Char.isDigit
      if digits = [] then .error (.invalid s!"ref must be $N or $item: {libs.debug raw}")
      else
        match Text.parseUsize digits with
        | none => .error (.invalid s!"ref index parse failed: {libs.debug raw}")
        | some idx =>
          (jsonpathSuffix libs raw (after.drop digits.length)).map fun suffix => (.step idx, suffix)

/-- The value that a reference starts from. -/
def refTarget (expr : List Char) (stepResults : List (Option Json)) (item : Option Json) :
    RefRoot → Except RpcError Json
  | .step idx =>
    -- A step that failed has its place in the list, but no value there.
    match stepResults[idx]?.join with
    | some value => .ok value
    | none => .error (.invalid
        s!"$ref {libs.debug expr}: step {idx} has no result (out of range or errored)")
  | .item =>
    match item with
    | some value => .ok value
    | none => .error (.invalid s!"$item used outside for_each: {libs.debug expr}")

/-- The nodes that a path matches in a value. -/
def refNodes (suffix : List Char) (target : Json) : Except RpcError (List Json) :=
  if suffix = [] then .ok [target]
  else
    let pathStr := '$' :: suffix
    match libs.parse (String.ofList pathStr) with
    | .ok query => .ok (query target)
    | .error e => .error (.invalid s!"invalid jsonpath {libs.debug pathStr}: {e}")

/-- Every node that a reference matches. -/
def matchRef (expr : List Char) (stepResults : List (Option Json)) (item : Option Json) :
    Except RpcError (List Json) := do
  let (root, suffix) ← parsePrefix libs expr
  let target ← refTarget libs expr stepResults item root
  refNodes libs suffix target

/-- The value of a reference: the one node that it matches, or the array of all of them. -/
def resolveRef (expr : List Char) (stepResults : List (Option Json)) (item : Option Json)
    (single : Bool) : Except RpcError Json := do
  let nodes ← matchRef libs expr stepResults item
  if single then
    match nodes with
    | [node] => .ok node
    | [] => .error (.invalid s!"$ref {libs.debug expr} resolved to zero nodes")
    | nodes => .error (.invalid
        s!"$ref {libs.debug expr} resolved to {nodes.length} nodes; use for_each for multi-cardinality")
  else .ok (.array nodes)

/-- The reference that an object stands for, if it is one. -/
def refOf : List (String × Json) → Option String
  -- An object with any other member is an ordinary one.
  | [(key, .string expr)] => if key = "$ref" then some expr else none
  | _ => none

mutual

/-- The parameters with every reference in them replaced by its value. -/
def substitute (stepResults : List (Option Json)) (item : Option Json) :
    Json → Except RpcError Json
  | .object members =>
    match refOf members with
    -- Among the parameters, a reference stands for one node.
    | some expr => resolveRef libs expr.toList stepResults item true
    | none => (substituteMembers stepResults item members).map .object
  | .array items => (substituteItems stepResults item items).map .array
  | other => .ok other

/-- The items of an array, up to the first whose references cannot be resolved. -/
def substituteItems (stepResults : List (Option Json)) (item : Option Json) :
    List Json → Except RpcError (List Json)
  | [] => .ok []
  | v :: rest => do
    let value ← substitute stepResults item v
    let values ← substituteItems stepResults item rest
    .ok (value :: values)

/-- The members of an object likewise, under the keys that they have. -/
def substituteMembers (stepResults : List (Option Json)) (item : Option Json) :
    List (String × Json) → Except RpcError (List (String × Json))
  | [] => .ok []
  | (key, v) :: rest => do
    let value ← substitute stepResults item v
    let values ← substituteMembers stepResults item rest
    .ok ((key, value) :: values)

end

/-! The steps. -/

/-- What the dispatched methods do, for each step by its number. -/
structure Dispatches where
  /-- What the dispatch of a plain step returns. -/
  plain : Nat → Except RpcError Json
  /-- What happens while the items of a `for_each` step are dispatched. -/
  fanOut : Nat → List (ForEach.Action Json)

/-- A call of `dispatch_method`. -/
structure DispatchCall where
  step : Nat
  method : String
  params : Json
  deriving Repr

/-- A pipe under way. -/
structure PipeRun where
  /-- The values that later steps may refer to; a step that failed has none. -/
  stepResults : List (Option Json)
  responseSteps : List PipeStepResult
  dispatched : List DispatchCall

/-- A pipe before its first step. -/
def PipeRun.start : PipeRun := { stepResults := [], responseSteps := [], dispatched := [] }

/-- What follows a step. -/
inductive PipeFlow where
  | next
  /-- The answer is returned as it is. -/
  | finish
  deriving DecidableEq, Repr

/-- What follows a step with an error. -/
def PipeStep.onError (step : PipeStep) : PipeFlow :=
  if step.continueOnError then .next else .finish

/-- The results of a `for_each` step and its calls, once all of its items have been joined. -/
def runForEach (step : PipeStep) (items : List Json) (events : List (ForEach.Action Json)) :
    Option (List (PipeItemResult Json) × List (Nat × Json)) := do
  -- The items see no results of earlier steps.
  let first : ForEach Json Json := ForEach.start step.concurrency
    (fun item => substitute libs [] (some item) step.params) items
  let last ← Transition.run ForEach.step first events
  let results ← last.answer
  some (results, last.dispatched)

variable (dispatches : Dispatches)

/-- One step, which is no pipe itself. -/
def runStep (k : Nat) (step : PipeStep) (s : PipeRun) : Option (PipeFlow × PipeRun) :=
  let stepResponse := PipeStepResult.blank step.method
  match step.forEach with
  | some expr =>
    match resolveRef libs expr.toList s.stepResults none false with
    | .ok (.array items) =>
      match runForEach libs step items (dispatches.fanOut k) with
      -- These are not all the events of the fan-out.
      | none => none
      | some (itemResults, calls) =>
        let anyErr := itemResults.any fun r => r.error.isSome
        let aggregate := itemResults.filterMap fun r => r.result
        let s : PipeRun := { s with
          responseSteps := s.responseSteps ++ [{ stepResponse with items := some itemResults }]
          dispatched := s.dispatched ++ calls.map fun call =>
            { step := k, method := step.method, params := call.2 } }
        if anyErr && !step.continueOnError then
          some (.finish, { s with stepResults := s.stepResults ++ [none] })
        else some (.next, { s with stepResults := s.stepResults ++ [some (.array aggregate)] })
    -- All nodes of a reference are always an array.
    | .ok _ => none
    | .error e => some (step.onError, { s with
        responseSteps := s.responseSteps ++ [{ stepResponse with error := some e }]
        stepResults := s.stepResults ++ [none] })
  | none =>
    match substitute libs s.stepResults none step.params with
    | .error e => some (step.onError, { s with
        responseSteps := s.responseSteps ++ [{ stepResponse with error := some e }]
        stepResults := s.stepResults ++ [none] })
    | .ok resolved =>
      let s : PipeRun := { s with
        dispatched := s.dispatched ++ [{ step := k, method := step.method, params := resolved }] }
      match dispatches.plain k with
      | .ok v => some (.next, { s with
          responseSteps := s.responseSteps ++ [{ stepResponse with result := some v }]
          stepResults := s.stepResults ++ [some v] })
      | .error e => some (step.onError, { s with
          responseSteps := s.responseSteps ++ [{ stepResponse with error := some e }]
          stepResults := s.stepResults ++ [none] })

/-- The refusal of a pipe inside of a pipe. -/
def nestedPipe : RpcError :=
  .invalid "nested pipe not supported; flatten composition at the caller"

/-- The steps from the one with the given number on. -/
def runSteps : Nat → List PipeStep → PipeRun → Option (Except RpcError Unit × PipeRun)
  | _, [], s => some (.ok (), s)
  | k, step :: rest, s =>
    -- The check is made when the step has its turn, with what the others have done left as it is.
    if step.method = pipeMethod then some (.error nestedPipe, s)
    else
      match runStep libs dispatches k step s with
      | none => none
      | some (.finish, s) => some (.ok (), s)
      | some (.next, s) => runSteps (k + 1) rest s

/-- The steps of a request, what the method returns for it, and the calls that it has made. -/
def pipe (fromValue : Json → Except String (List PipeStep)) (params : Json) :
    Option (Except RpcError (List PipeStepResult) × List DispatchCall) :=
  match fromValue params with
  -- These two are found out before any step is looked at.
  | .error e => some (.error (.invalid s!"invalid pipe params: {e}"), [])
  | .ok [] => some (.error (.invalid "pipe requires at least one step"), [])
  | .ok steps => (runSteps libs dispatches 0 steps .start).map fun (result, s) =>
      (result.map fun _ => s.responseSteps, s.dispatched)

end

end McpCli
