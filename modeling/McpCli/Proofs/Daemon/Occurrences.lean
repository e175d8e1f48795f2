import McpCli.Daemon.Occurrences

/-! Which occurrences of an identifier are found: the first ones of all in the order of the files. -/

namespace McpCli

/-- A kind of nodes below which no identifier is an occurrence. -/
def hides (kind : String) : Bool :=
  kind ∈ identifierKinds || kindContains "comment" kind || kindContains "string" kind

mutual

/-- The nodes of a tree in the order of their beginnings, each with the kinds of those above it. -/
def Node.preorder : List String → Node → List (List String × Node)
  | above, .mk id kind field named startByte endByte startRow endRow children =>
    (above, .mk id kind field named startByte endByte startRow endRow children) ::
      preorderChildren (kind :: above) children

/-- The nodes of one tree after another. -/
def preorderChildren : List String → List Node → List (List String × Node)
  | _, [] => []
  | above, child :: rest => child.preorder above ++ preorderChildren above rest

end

variable (column : Node → Nat) (source : List UInt8) (path : RelPath) (needle : String)

/-- A node is an identifier with this text, and nothing above it hides it. -/
def IsOccurrence (entry : List String × Node) : Prop :=
  entry.2.kind ∈ identifierKinds ∧ entry.2.utf8Text source = some needle ∧
    ∀ kind ∈ entry.1, hides kind = false

instance (entry : List String × Node) : Decidable (IsOccurrence source needle entry) :=
  inferInstanceAs (Decidable (_ ∧ _ ∧ _))

/-- Of some nodes, those that are occurrences, as they are reported. -/
def occurrencesAmong (entries : List (List String × Node)) : List CodeOccurrence :=
  (entries.filter fun entry => IsOccurrence source needle entry).map fun entry =>
    occurrenceOf column path entry.2

/-- All occurrences in a file. -/
def fileOccurrences (parsed : ParsedFile Node) : List CodeOccurrence :=
  occurrencesAmong column parsed.source path needle (parsed.tree.preorder [])

mutual

/-- Every node has above it what its tree has above it. -/
theorem above_preorder (above : List String) : ∀ (node : Node), ∀ entry ∈ node.preorder above,
    above ⊆ entry.1
  | .mk id kind field named startByte endByte startRow endRow children => by
    intro entry mem
    rw [Node.preorder] at mem
    rcases List.mem_cons.mp mem with rfl | below
    · exact List.Subset.refl _
    · exact List.Subset.trans (List.subset_cons_self kind above)
        (above_preorderChildren (kind :: above) children entry below)

/-- And so has every node of several trees. -/
theorem above_preorderChildren (above : List String) : ∀ (nodes : List Node),
    ∀ entry ∈ preorderChildren above nodes, above ⊆ entry.1
  | [] => by
    intro entry mem
    cases mem
  | child :: rest => by
    intro entry mem
    rw [preorderChildren] at mem
    rcases List.mem_append.mp mem with first | others
    · exact above_preorder above child entry first
    · exact above_preorderChildren above rest entry others

end

variable {column source path needle}

/-- The occurrences among more nodes are those among the first ones and those among the others. -/
theorem occurrencesAmong_append (entries others : List (List String × Node)) :
    occurrencesAmong column source path needle (entries ++ others) =
      occurrencesAmong column source path needle entries ++
        occurrencesAmong column source path needle others := by
  rw [occurrencesAmong, List.filter_append, List.map_append]
  rfl

/-- Below a node that hides them, there are no occurrences. -/
theorem occurrencesAmong_hidden {above : List String} {kind : String} (mem : kind ∈ above)
    (hidden : hides kind = true) (nodes : List Node) :
    occurrencesAmong column source path needle (preorderChildren above nodes) = [] := by
  rw [occurrencesAmong, List.map_eq_nil_iff, List.filter_eq_nil_iff]
  intro entry there occurrence
  -- The hiding kind is above each of these nodes.
  have free := (of_decide_eq_true occurrence).2.2 kind
      (above_preorderChildren above nodes entry there mem)
  rw [hidden] at free
  cases free

/-- The occurrences in a tree whose root hides nothing, or is one itself. -/
theorem occurrencesAmong_cons (entry : List String × Node) (others : List (List String × Node)) :
    occurrencesAmong column source path needle (entry :: others) =
      (if IsOccurrence source needle entry then [occurrenceOf column path entry.2] else []) ++
        occurrencesAmong column source path needle others := by
  rw [occurrencesAmong, List.filter_cons]
  by_cases occurrence : IsOccurrence source needle entry
  · simp [occurrence, occurrencesAmong]
  · simp [occurrence, occurrencesAmong]

/-- When there are enough already, nothing is added. -/
theorem take_append_full {α : Type} {max : Nat} {out : List α} (room : out.length ≤ max)
    (full : max ≤ out.length) (more : List α) : (out ++ more).take max = out := by
  have same : max = out.length := Nat.le_antisymm full room
  rw [same, List.take_left]

/-- What is added to the first ones is added to all of them. -/
theorem take_take_append {α : Type} (max : Nat) (out more : List α) :
    (out.take max ++ more).take max = (out ++ more).take max := by
  rcases Nat.le_total out.length max with room | full
  · rw [List.take_of_length_le room]
  · rw [take_append_full (List.length_take_le _ _) (by rw [List.length_take_of_le full]),
      List.take_append_of_le_length full]

variable {max : Nat}

mutual

/-- From a node, the occurrences in it are added as long as there are not enough. -/
theorem collect_eq {above : List String} (free : ∀ kind ∈ above, hides kind = false) :
    ∀ (node : Node) (out : List CodeOccurrence), out.length ≤ max →
      collectIdentifierOccurrences column source path needle max node out =
        (out ++ occurrencesAmong column source path needle (node.preorder above)).take max
  | .mk id kind field named startByte endByte startRow endRow children, out, room => by
    rw [collectIdentifierOccurrences, Node.preorder, occurrencesAmong_cons]
    -- The cases are those of the code: enough already, an identifier, a hiding node, or another
    -- one.
    split
    · rename_i full
      rw [take_append_full room full]
    · rename_i left
      have one : out.length + 1 ≤ max := Nat.lt_of_not_le left
      split
      · -- An identifier hides what is below it.
        rename_i identifier
        have hidden : hides kind = true := by simp [hides, identifier]
        rw [occurrencesAmong_hidden List.mem_cons_self hidden, List.append_nil]
        simp only [IsOccurrence, identifier, true_and]
        by_cases named_so : (Node.mk id kind field named startByte endByte startRow endRow
            children).utf8Text source = some needle
        · rw [if_pos named_so, if_pos ⟨named_so, free⟩, List.take_of_length_le (by simpa using one)]
        · rw [if_neg named_so, if_neg fun both => named_so both.1, List.append_nil,
            List.take_of_length_le room]
      · rename_i other
        have none_here : ¬ IsOccurrence source needle
            (above, .mk id kind field named startByte endByte startRow endRow children) :=
          fun occurrence => other occurrence.1
        rw [if_neg none_here, List.nil_append]
        split
        · -- So does a comment or a string.
          rename_i quoted
          have hidden : hides kind = true := by
            rcases quoted with comment | string
            · simp [hides, comment]
            · simp [hides, string]
          rw [occurrencesAmong_hidden List.mem_cons_self hidden, List.append_nil,
            List.take_of_length_le room]
        · rename_i open_
          have shown : hides kind = false := by
            rw [not_or, Bool.not_eq_true, Bool.not_eq_true] at open_
            simp [hides, other, open_.1, open_.2]
          exact collectFromChildren_eq (List.forall_mem_cons.mpr ⟨shown, free⟩) children out room

/-- And from one node after another. -/
theorem collectFromChildren_eq {above : List String} (free : ∀ kind ∈ above, hides kind = false) :
    ∀ (nodes : List Node) (out : List CodeOccurrence), out.length ≤ max →
      collectFromChildren column source path needle max nodes out =
        (out ++ occurrencesAmong column source path needle (preorderChildren above nodes)).take max
  | [], out, room => by
    rw [collectFromChildren, preorderChildren]
    simpa [occurrencesAmong] using (List.take_of_length_le room).symm
  | child :: rest, out, room => by
    -- The first tree adds its occurrences, and the others go on from there.
    have first := collect_eq free child out room
    have shorter : (collectIdentifierOccurrences column source path needle max child out).length ≤
        max := by
      rw [first]
      exact List.length_take_le _ _
    have others := collectFromChildren_eq free rest _ shorter
    rw [collectFromChildren, preorderChildren, occurrencesAmong_append, ← List.append_assoc,
      ← take_take_append, ← first]
    -- With enough of them, the other trees are not looked at.
    split
    · rename_i full
      rw [take_append_full shorter full]
    · exact others

end

/-- The occurrences in a file, if it has a tree. -/
def callsOccurrences (column : Node → Nat) (calls : SourceCalls) (needle : String)
    (rel : RelPath) : List CodeOccurrence :=
  match calls.parse rel with
  | .ok (some parsed) => fileOccurrences column rel needle parsed
  | _ => []

/-- In a file with a tree, these are the occurrences in the tree. -/
theorem callsOccurrences_some {calls : SourceCalls} {rel : RelPath} {file : ParsedFile Node}
    (parsed : calls.parse rel = .ok (some file)) :
    callsOccurrences column calls needle rel = fileOccurrences column rel needle file := by
  simp only [callsOccurrences, parsed]

/-- A file without a tree has none. -/
theorem callsOccurrences_none {calls : SourceCalls} {rel : RelPath}
    (unparsed : calls.parse rel = .ok none) : callsOccurrences column calls needle rel = [] := by
  simp only [callsOccurrences, unparsed]

/-- The loop over the files adds the occurrences in them as long as there are not enough. -/
theorem collectFromFiles_eq {calls : SourceCalls} {files : List RelPath}
    {out : List CodeOccurrence} (room : out.length ≤ max) :
    (∀ result, collectFromFiles column calls needle max files out = .ok result →
      result.occurrences =
        (out ++ files.flatMap (callsOccurrences column calls needle)).take max) ∧
    ∀ error, collectFromFiles column calls needle max files out = .error error →
      ∃ rel ∈ files, calls.parse rel = .error error := by
  -- The loop goes on behind each file, with what was found so far.
  induction files generalizing out with
  | nil =>
    rw [collectFromFiles]
    refine ⟨fun result same => ?_, fun error same => (by cases same)⟩
    cases same
    simpa using (List.take_of_length_le room).symm
  | cons rel rest ih =>
    rw [collectFromFiles, List.flatMap_cons, ← List.append_assoc]
    -- A file that fails ends the loop, and one without a tree adds nothing.
    cases parsed : calls.parse rel with
    | error e =>
      refine ⟨fun result same => (by cases same), fun error same => ?_⟩
      cases same
      exact ⟨rel, List.mem_cons_self, parsed⟩
    | ok tree =>
      cases tree with
      | none =>
        rw [callsOccurrences_none parsed, List.append_nil]
        obtain ⟨found, failed⟩ := ih room
        refine ⟨found, fun error same => ?_⟩
        obtain ⟨other, mem, why⟩ := failed error same
        exact ⟨other, List.mem_cons_of_mem rel mem, why⟩
      | some file =>
        -- A file begins with what was found in the files before.
        have here := @collect_eq column file.source rel needle max [] (by simp) file.tree out room
        have shorter : (collectIdentifierOccurrences column file.source rel needle max file.tree
            out).length ≤ max := by
          rw [here]
          exact List.length_take_le _ _
        obtain ⟨found, failed⟩ := ih shorter
        rw [← take_take_append, callsOccurrences_some parsed, fileOccurrences, ← here]
        simp only
        split
        · rename_i full
          refine ⟨fun result same => ?_, fun error same => (by cases same)⟩
          cases same
          exact (take_append_full shorter full _).symm
        · refine ⟨found, fun error same => ?_⟩
          obtain ⟨other, mem, why⟩ := failed error same
          exact ⟨other, List.mem_cons_of_mem rel mem, why⟩

/--
The occurrences that are returned are the first ones of all: of the nodes of the trees, file after
file and each from its beginning, the identifiers with the text that are neither in a comment nor
in a string nor in another identifier. An error is that of a file, or of an empty request.
-/
theorem codeFindOccurrences_eq (column : Node → Nat) (calls : SourceCalls) (root : AbsPath)
    (yielded : List (Option DirEntry)) (params : CodeFindOccurrencesParams) :
    (∀ result, codeFindOccurrences column calls root yielded params = .ok result →
      result.occurrences =
        ((params.files root yielded).flatMap
          (callsOccurrences column calls params.identifier)).take params.max) ∧
    ∀ error, codeFindOccurrences column calls root yielded params = .error error →
      params.identifier = "" ∨ ∃ rel ∈ params.files root yielded, calls.parse rel = .error error := by
  rw [codeFindOccurrences]
  split
  · rename_i empty
    exact ⟨fun result same => (by cases same), fun error _ => .inl empty⟩
  · -- The loop over the files starts without any occurrences.
    obtain ⟨found, failed⟩ := @collectFromFiles_eq column params.identifier params.max calls
      (params.files root yielded) [] (Nat.zero_le _)
    exact ⟨found, fun error same => .inr (failed error same)⟩

end McpCli
