import McpCli.Proofs.Daemon.PipeRefs

/-! What the parameters of a step become when their references are substituted. -/

namespace McpCli

mutual

/-- The value with each reference in it replaced, and nothing else changed. -/
def Json.replaceRefs (values : String → Json) : Json → Json
  | .object members =>
    match refOf members with
    -- What is put in is not looked into.
    | some expr => values expr
    | none => .object (Json.replaceRefsInMembers values members)
  | .array items => .array (Json.replaceRefsInItems values items)
  | other => other

/-- The items of an array likewise. -/
def Json.replaceRefsInItems (values : String → Json) : List Json → List Json
  | [] => []
  | v :: rest => v.replaceRefs values :: Json.replaceRefsInItems values rest

/-- The members of an object likewise, under the keys that they have. -/
def Json.replaceRefsInMembers (values : String → Json) :
    List (String × Json) → List (String × Json)
  | [] => []
  | (key, v) :: rest => (key, v.replaceRefs values) :: Json.replaceRefsInMembers values rest

end

mutual

/-- A value without references stays as it is. -/
theorem Json.replaceRefs_of_closed {values : String → Json} : ∀ {params : Json},
    params.refs = [] → params.replaceRefs values = params
  | .object members, closed => by
    rw [Json.refs] at closed
    rw [Json.replaceRefs]
    -- An object that is a reference is not closed.
    cases ref : refOf members with
    | some expr =>
      rw [ref] at closed
      cases closed
    | none =>
      rw [ref] at closed
      exact congrArg Json.object (Json.replaceRefsInMembers_of_closed closed)
  | .array items, closed => by
    rw [Json.replaceRefs, Json.replaceRefsInItems_of_closed closed]
  | .null, _ => rfl
  | .bool _, _ => rfl
  | .number _, _ => rfl
  | .string _, _ => rfl

/-- So do the items of an array. -/
theorem Json.replaceRefsInItems_of_closed {values : String → Json} : ∀ {items : List Json},
    Json.refsOfItems items = [] → Json.replaceRefsInItems values items = items
  | [], _ => rfl
  | v :: rest, closed => by
    obtain ⟨first, others⟩ := List.append_eq_nil_iff.mp closed
    rw [Json.replaceRefsInItems, Json.replaceRefs_of_closed first,
      Json.replaceRefsInItems_of_closed others]

/-- And the members of an object. -/
theorem Json.replaceRefsInMembers_of_closed {values : String → Json} :
    ∀ {members : List (String × Json)}, Json.refsOfMembers members = [] →
      Json.replaceRefsInMembers values members = members
  | [], _ => rfl
  | (key, v) :: rest, closed => by
    obtain ⟨first, others⟩ := List.append_eq_nil_iff.mp closed
    rw [Json.replaceRefsInMembers, Json.replaceRefs_of_closed first,
      Json.replaceRefsInMembers_of_closed others]

end

section
variable {libs : PipeLibs} {stepResults : List (Option Json)} {item : Option Json}
  {values : String → Json}

/-- These are the values of the references. -/
def Values (libs : PipeLibs) (stepResults : List (Option Json)) (item : Option Json)
    (values : String → Json) (refs : List String) : Prop :=
  ∀ expr ∈ refs, matchRef libs expr.toList stepResults item = .ok [values expr]

mutual

/-- Substitution puts in the values of all references. -/
theorem substitute_of_values : ∀ {params : Json},
    Values libs stepResults item values params.refs →
      substitute libs stepResults item params = .ok (params.replaceRefs values)
  | .object members, known => by
    rw [Json.refs] at known
    rw [substitute, Json.replaceRefs]
    -- An object is a reference, or its members are gone through.
    cases ref : refOf members with
    | some expr =>
      rw [ref] at known
      exact resolveRef_single.mpr (known expr List.mem_cons_self)
    | none =>
      rw [ref] at known
      show Except.map _ _ = _
      rw [substituteMembers_of_values known]
      rfl
  | .array items, known => by
    rw [substitute, substituteItems_of_values known]
    rfl
  | .null, _ => rfl
  | .bool _, _ => rfl
  | .number _, _ => rfl
  | .string _, _ => rfl

/-- Into the items of an array too. -/
theorem substituteItems_of_values : ∀ {items : List Json},
    Values libs stepResults item values (Json.refsOfItems items) →
      substituteItems libs stepResults item items = .ok (Json.replaceRefsInItems values items)
  | [], _ => rfl
  | v :: rest, known => by
    -- The references of the items are those of the first one and of the others.
    obtain ⟨first, others⟩ := List.forall_mem_append.mp known
    rw [substituteItems, substitute_of_values first, substituteItems_of_values others]
    rfl

/-- And into the members of an object. -/
theorem substituteMembers_of_values : ∀ {members : List (String × Json)},
    Values libs stepResults item values (Json.refsOfMembers members) →
      substituteMembers libs stepResults item members =
        .ok (Json.replaceRefsInMembers values members)
  | [], _ => rfl
  | (key, v) :: rest, known => by
    obtain ⟨first, others⟩ := List.forall_mem_append.mp known
    rw [substituteMembers, substitute_of_values first, substituteMembers_of_values others]
    rfl

end

end

/--
Parameters can be substituted exactly if each reference in them matches one node.
They are then as they were, with each reference replaced by that node, which is not looked into.
Parameters without references stay as they are.
-/
theorem substitute_replaces (libs : PipeLibs) (stepResults : List (Option Json))
    (item : Option Json) (params : Json) :
    ((substitute libs stepResults item params).isOk = true ↔
      ∀ expr ∈ params.refs, ∃ value, matchRef libs expr.toList stepResults item = .ok [value]) ∧
    (∀ result, substitute libs stepResults item params = .ok result ↔
      ∃ values : String → Json,
        (∀ expr ∈ params.refs,
          matchRef libs expr.toList stepResults item = .ok [values expr]) ∧
        result = params.replaceRefs values) ∧
    (params.refs = [] → substitute libs stepResults item params = .ok params) := by
  have succeeds : (substitute libs stepResults item params).isOk = true ↔
      ∀ expr ∈ params.refs, ∃ value, matchRef libs expr.toList stepResults item = .ok [value] := by
    rw [substitute_isOk_iff]
    refine forall₂_congr fun expr _ => ?_
    rw [Resolves, isOk_iff]
    exact exists_congr fun value => resolveRef_single
  refine ⟨succeeds, ?_, ?_⟩
  · intro result
    constructor
    · intro substituted
      -- Each reference has a value, and there is a function that knows them all.
      have all := succeeds.mp (isOk_iff.mpr ⟨result, substituted⟩)
      have each : ∀ expr, ∃ value, expr ∈ params.refs →
          matchRef libs expr.toList stepResults item = .ok [value] := by
        intro expr
        by_cases member : expr ∈ params.refs
        · obtain ⟨value, matched⟩ := all expr member
          exact ⟨value, fun _ => matched⟩
        · exact ⟨.null, fun inside => absurd inside member⟩
      have known : ∀ expr ∈ params.refs,
          matchRef libs expr.toList stepResults item = .ok [(each expr).choose] :=
        fun expr member => (each expr).choose_spec member
      refine ⟨fun expr => (each expr).choose, known, ?_⟩
      rw [substitute_of_values known, Except.ok.injEq] at substituted
      exact substituted.symm
    · intro replaced
      obtain ⟨values, known, rfl⟩ := replaced
      exact substitute_of_values known
  · intro closed
    have known : Values libs stepResults item (fun _ => .null) params.refs := by
      intro expr member
      rw [closed] at member
      cases member
    rw [substitute_of_values known, Json.replaceRefs_of_closed closed]

end McpCli
