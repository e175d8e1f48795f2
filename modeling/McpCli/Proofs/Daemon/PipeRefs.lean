import McpCli.Daemon.Pipe

/-! Which references the parameters of a step hold, and when all of them can be resolved. -/

namespace McpCli

mutual

/-- The references in a value. -/
def Json.refs : Json → List String
  | .object members =>
    match refOf members with
    -- What stands for a reference holds no other one.
    | some expr => [expr]
    | none => Json.refsOfMembers members
  | .array items => Json.refsOfItems items
  | _ => []

/-- The references in the items of an array. -/
def Json.refsOfItems : List Json → List String
  | [] => []
  | v :: rest => v.refs ++ Json.refsOfItems rest

/-- The references in the members of an object. -/
def Json.refsOfMembers : List (String × Json) → List String
  | [] => []
  | (_, v) :: rest => v.refs ++ Json.refsOfMembers rest

end

section
variable {libs : PipeLibs} {stepResults : List (Option Json)} {item : Option Json}

/-- A reference that has a value. -/
def Resolves (libs : PipeLibs) (stepResults : List (Option Json)) (item : Option Json)
    (expr : String) : Prop :=
  (resolveRef libs expr.toList stepResults item true).isOk = true

/-- A result that is only put into another form has succeeded as before. -/
theorem isOk_map {ε α β : Type} {first : Except ε α} {form : α → β} :
    (first.map form).isOk = first.isOk := by
  cases first <;> rfl

/-- What has succeeded has a value. -/
theorem isOk_iff {ε α : Type} {result : Except ε α} :
    result.isOk = true ↔ ∃ a, result = .ok a := by
  cases result <;> simp [Except.isOk, Except.toBool]

mutual

/-- Parameters can be substituted exactly if each of their references has a value. -/
theorem substitute_isOk_iff : ∀ params : Json,
    (substitute libs stepResults item params).isOk = true ↔
      ∀ expr ∈ params.refs, Resolves libs stepResults item expr
  | .object members => by
    rw [substitute, Json.refs]
    -- An object that is a reference is a leaf, whatever its members are.
    cases refOf members with
    | some expr => simp [Resolves]
    | none =>
      show (Except.map _ _).isOk = true ↔ _
      rw [isOk_map]
      exact substituteMembers_isOk_iff members
  | .array items => by
    rw [substitute, Json.refs, isOk_map]
    exact substituteItems_isOk_iff items
  | .null => by simp [substitute, Json.refs, Except.isOk, Except.toBool]
  | .bool _ => by simp [substitute, Json.refs, Except.isOk, Except.toBool]
  | .number _ => by simp [substitute, Json.refs, Except.isOk, Except.toBool]
  | .string _ => by simp [substitute, Json.refs, Except.isOk, Except.toBool]

/-- The items of an array can be substituted if each of them can be. -/
theorem substituteItems_isOk_iff : ∀ items : List Json,
    (substituteItems libs stepResults item items).isOk = true ↔
      ∀ expr ∈ Json.refsOfItems items, Resolves libs stepResults item expr
  | [] => by simp [substituteItems, Json.refsOfItems, Except.isOk, Except.toBool]
  | v :: rest => by
    have first := substitute_isOk_iff v
    have others := substituteItems_isOk_iff rest
    rw [Json.refsOfItems, List.forall_mem_append, ← first, ← others, substituteItems]
    -- The first failure is the failure of all.
    cases substitute libs stepResults item v <;>
      cases substituteItems libs stepResults item rest <;>
      simp [Bind.bind, Except.bind, Except.isOk, Except.toBool]

/-- The members of an object likewise. -/
theorem substituteMembers_isOk_iff : ∀ members : List (String × Json),
    (substituteMembers libs stepResults item members).isOk = true ↔
      ∀ expr ∈ Json.refsOfMembers members, Resolves libs stepResults item expr
  | [] => by simp [substituteMembers, Json.refsOfMembers, Except.isOk, Except.toBool]
  | (key, v) :: rest => by
    have first := substitute_isOk_iff v
    have others := substituteMembers_isOk_iff rest
    rw [Json.refsOfMembers, List.forall_mem_append, ← first, ← others, substituteMembers]
    cases substitute libs stepResults item v <;>
      cases substituteMembers libs stepResults item rest <;>
      simp [Bind.bind, Except.bind, Except.isOk, Except.toBool]

end

/-- All nodes of a reference come as an array. -/
theorem resolveRef_many {expr : List Char} :
    resolveRef libs expr stepResults item false =
      (matchRef libs expr stepResults item).map .array := by
  unfold resolveRef
  cases matchRef libs expr stepResults item <;> rfl

/-- A single value is that of the one node that a reference matches. -/
theorem resolveRef_single {expr : List Char} {value : Json} :
    resolveRef libs expr stepResults item true = .ok value ↔
      matchRef libs expr stepResults item = .ok [value] := by
  -- The reference must match something, and then exactly one node.
  unfold resolveRef
  rcases matchRef libs expr stepResults item with e | nodes
  · simp [Bind.bind, Except.bind]
  · -- Only a list of one node has a value.
    match nodes with
    | [] => simp [Bind.bind, Except.bind]
    | [node] => simp [Bind.bind, Except.bind]
    | first :: second :: rest => simp [Bind.bind, Except.bind]

/-- A reference to a step is resolved from a place of the list that holds a value. -/
theorem matchRef_step {expr suffix : List Char} {idx : Nat}
    (parsed : parsePrefix libs expr = .ok (.step idx, suffix)) {nodes : List Json} :
    matchRef libs expr stepResults item = .ok nodes ↔
      ∃ value, stepResults[idx]? = some (some value) ∧ refNodes libs suffix value = .ok nodes := by
  -- A place without a value is refused like one outside of the list.
  simp only [matchRef, parsed, refTarget, Bind.bind, Except.bind]
  cases found : stepResults[idx]?.join with
  | none =>
    constructor
    · intro resolved
      cases resolved
    · intro resolved
      obtain ⟨value, held, _⟩ := resolved
      rw [Option.join_eq_some_iff.mpr held] at found
      cases found
  | some value =>
    have held := Option.join_eq_some_iff.mp found
    simp [held]

/-- A reference to the element is resolved from it, whatever the steps have recorded. -/
theorem matchRef_item {expr suffix : List Char}
    (parsed : parsePrefix libs expr = .ok (.item, suffix)) (element : Json) :
    matchRef libs expr stepResults (some element) = refNodes libs suffix element := by
  simp only [matchRef, parsed, refTarget, Bind.bind, Except.bind]

/-- Where no step has recorded a value and there is no element, no reference matches anything. -/
theorem matchRef_silent (silent : ∀ r ∈ stepResults, r = none) (expr : List Char)
    (nodes : List Json) : matchRef libs expr stepResults none ≠ .ok nodes := by
  -- A reference starts from a step or from the element, and there is neither.
  intro resolved
  rcases parsed : parsePrefix libs expr with e | ⟨root, suffix⟩
  · simp [matchRef, parsed, Bind.bind, Except.bind] at resolved
  · cases root with
    | step idx =>
      obtain ⟨held, found, _⟩ := (matchRef_step parsed).mp resolved
      cases silent _ (List.mem_of_getElem? found)
    | item => simp [matchRef, parsed, refTarget, Bind.bind, Except.bind] at resolved

/-- There, only parameters without references can be substituted. -/
theorem substitute_silent (silent : ∀ r ∈ stepResults, r = none) (params : Json) :
    (substitute libs stepResults none params).isOk = true ↔ params.refs = [] := by
  -- Any reference would have to match something.
  rw [substitute_isOk_iff]
  constructor
  · intro all
    refine List.eq_nil_iff_forall_not_mem.mpr ?_
    intro expr member
    obtain ⟨value, resolved⟩ := isOk_iff.mp (all expr member)
    exact matchRef_silent silent _ _ (resolveRef_single.mp resolved)
  · intro none expr member
    rw [none] at member
    cases member

end

section
variable (libs : PipeLibs)

/-- A reference in the parameters of a step, to one of the steps in front of it. -/
def StepRef (params : Json) (results : List (Option Json)) (expr : String) (idx : Nat)
    (suffix : List Char) : Prop :=
  expr ∈ params.refs ∧ idx < results.length ∧
    parsePrefix libs expr.toList = .ok (.step idx, suffix)

/--
In the parameters of a `for_each` step, which are substituted without results for each element,
references to earlier steps come out as in a plain step at the same place exactly if all of them
fail there too. References to the element are resolved from it.
-/
theorem forEach_refs_iff (params : Json) (results : List (Option Json)) (element : Json) :
    ((∀ expr idx suffix, StepRef libs params results expr idx suffix →
        (resolveRef libs expr.toList [] (some element) true).toOption =
          (resolveRef libs expr.toList results none true).toOption) ∧
      ∀ expr ∈ params.refs, ∀ suffix, parsePrefix libs expr.toList = .ok (.item, suffix) →
        ∀ value, resolveRef libs expr.toList [] (some element) true = .ok value ↔
          refNodes libs suffix element = .ok [value]) ↔
      ∀ expr idx suffix, StepRef libs params results expr idx suffix →
        ∀ held, results[idx]? = some (some held) →
          ∀ value, refNodes libs suffix held ≠ .ok [value] := by
  -- Without results, a reference to a step has no value.
  have unseen : ∀ {expr idx suffix}, StepRef libs params results expr idx suffix →
      (resolveRef libs expr.toList [] (some element) true).toOption = none := by
    intro expr idx suffix ref
    cases resolved : resolveRef libs expr.toList [] (some element) true with
    | error e => rfl
    | ok value =>
      obtain ⟨held, found, _⟩ := (matchRef_step ref.2.2).mp (resolveRef_single.mp resolved)
      cases found
  constructor
  · intro agree expr idx suffix ref held found value nodes
    obtain ⟨same, _⟩ := agree
    have resolved : resolveRef libs expr.toList results none true = .ok value :=
      resolveRef_single.mpr ((matchRef_step ref.2.2).mpr ⟨held, found, nodes⟩)
    have alike := same expr idx suffix ref
    rw [unseen ref, resolved] at alike
    cases alike
  · intro failing
    refine ⟨?_, ?_⟩
    · intro expr idx suffix ref
      rw [unseen ref]
      cases resolved : resolveRef libs expr.toList results none true with
      | error e => rfl
      | ok value =>
        obtain ⟨held, found, nodes⟩ := (matchRef_step ref.2.2).mp (resolveRef_single.mp resolved)
        exact absurd nodes (failing expr idx suffix ref held found value)
    · intro expr member suffix parsed value
      rw [resolveRef_single, matchRef_item parsed]

end

/-- Libraries that serve for references without a path. -/
def plainLibs : PipeLibs where
  parse _ := .error "no path is asked for"
  debug text := String.ofList ('"' :: text ++ ['"'])

/-- A step as it stands in a request. -/
def PipeStep.toJson (step : PipeStep) : Json :=
  .object ([("continue_on_error", .bool step.continueOnError)] ++
    (step.forEach.map fun expr => ("for_each", .string expr)).toList ++
    [("method", .string step.method), ("params", step.params)])

/-- A request of these steps. -/
def pipeRequest (steps : List PipeStep) : Json :=
  .object [("steps", .array (steps.map PipeStep.toJson))]

/-- A step without anything that it could leave out. -/
def PipeStep.plain (method : String) (params : Json) : PipeStep :=
  { method, params, forEach := none, continueOnError := false, concurrency := none }

/-- The parameters that name a path. -/
def pathParams (path : Json) : Json := .object [("path", path)]

/-- A reference as it stands in the parameters. -/
def refParams (expr : String) : Json := .object [("$ref", .string expr)]

/-- A step whose value is a name, and a fan-out of it that names the same value once more. -/
def fanOutSteps : List PipeStep :=
  [.plain "ping" .null,
    { PipeStep.plain "fs.read" (pathParams (refParams "$0")) with forEach := some "$0" }]

/-- The first dispatch returns a name, and the one item of the fan-out is spawned and joined. -/
def returnsName : Dispatches where
  plain _ := .ok (.string "a.txt")
  fanOut _ := [.spawn, .join 0]

/--
The item is told that the first step has no result, although it has one, and although the
reference gives that result in a plain step.
-/
theorem fanOut_misses_result :
    (∃ entries calls, pipe plainLibs returnsName (fun _ => .ok fanOutSteps)
        (pipeRequest fanOutSteps) = some (.ok entries, calls) ∧
      (entries[0]?.bind fun entry => entry.result) = some (.string "a.txt") ∧
      (entries[1]?.bind fun entry => entry.items) = some [.ofResult (.error (.invalid
        "$ref \"$0\": step 0 has no result (out of range or errored)"))]) ∧
      substitute plainLibs [some (.string "a.txt")] none (pathParams (refParams "$0")) =
        .ok (pathParams (.string "a.txt")) :=
  ⟨⟨_, _, rfl, rfl, rfl⟩, rfl⟩

end McpCli
