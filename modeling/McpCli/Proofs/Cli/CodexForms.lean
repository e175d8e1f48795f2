import McpCli.Proofs.Cli.CodexInstall
import McpCli.Text.Utf8

/-! Installations in configurations whose tables are written in whatever form. -/

namespace McpCli.Codex

open Toml Toml.Table

variable {names : List String} {bridge : List UInt8} {doc entry : Table}

/-- The items are tables in whatever form, if they are there. -/
def Laid (names : List String) (doc : Table) : Prop :=
  ∀ path ∈ places names, ∀ value, doc.look path ≠ some (.leaf value)

/-- The values that an installation is to set. -/
def requested (names : List String) : List (List String) :=
  commandPath :: shellPath :: names.map approvalPath

/-- All that was requested is set, and everything else is as it was. -/
structure Installed (names : List String) (bridge : List UInt8) (before after : Data) : Prop where
  command : ∃ text, Text.encodeUtf8 text = bridge ∧ after commandPath = some (.leaf (.string text))
  approved : ∀ tool ∈ names, after (approvalPath tool) = some (.leaf approvedMode)
  shell : after shellPath = some (.leaf (.boolean false))
  /-- What is neither at such a value nor beyond it is as it was. -/
  kept : ∀ p node, before p = some node → (∀ path ∈ requested names, ¬ path <+: p) →
    after p = some node
  /-- There is nothing new but the values, the tables around them, and arguments if none were. -/
  added : ∀ p, before p = none → after p ≠ none →
    (∃ path ∈ requested names, p <+: path) ∨ p <+: toolsPath ∨
      p = argsPath ∧ after p = some (.leaf (.array []))

/-- There is nothing in the entry of the server but what an installation writes there. -/
def OnlyOurs (names : List String) (entry : Table) : Prop :=
  ∀ p node, entry.look p = some node →
    p = [] ∨ ["command"] <+: p ∨ p = ["args"] ∧ node = .leaf (.array []) ∨
      p = ["tools"] ∧ node = .table ∨
      ∃ tool ∈ names, p = ["tools", tool] ∧ node = .table ∨ ["tools", tool, "approval_mode"] <+: p

/-- A table is written as a value. -/
def Inline (doc : Table) (path : List String) : Prop :=
  ∃ entries, doc.find path = some (.table .inline entries)

/-- The configurations in which everything requested can be set in place. -/
structure Fits (names : List String) (bridge : List UInt8) (doc : Table) : Prop where
  text : ∃ text, Text.encodeUtf8 text = bridge
  servers : ¬ Inline doc ["mcp_servers"]
  features : ¬ Inline doc ["features"]
  /-- An entry that is written as a value is replaced. -/
  replaced : ∀ entry, doc.find ["mcp_servers", serverName] = some (.table .inline entry) →
    OnlyOurs names entry
  tools : ¬ Inline doc ["mcp_servers", serverName] →
    ¬ Inline doc toolsPath ∧ ∀ tool ∈ names, ¬ Inline doc (toolsPath ++ [tool])
  /-- Without a command there is no telling that an empty one is missing. -/
  settled : ¬ Inline doc ["mcp_servers", serverName] → Settled (Text.decodeLossy bridge) doc

/-- A table that is there in another form can be changed in place. -/
theorem asTable_isSome (laid : Laid names doc) {path : List String} (place : path ∈ places names)
    (changeable : ¬ Inline doc path) {item : Item} (found : doc.find path = some item) :
    item.asTable.isSome := by
  cases item with
  | leaf value =>
    -- No value stands where a table belongs.
    refine absurd ?_ (laid path place value)
    rw [look, found]
    rfl
  | table form entries =>
    cases form with
    | standard => rfl
    | dotted => rfl
    | inline => exact absurd ⟨entries, found⟩ changeable

/-- Nothing is found beyond where there is nothing. -/
theorem look_ne_none {t : Table} {p path : List String} {node : Toml.Node}
    (found : t.look p = some node) (along : path <+: p) : t.look path ≠ none := by
  by_cases same : path = p
  · rw [same, found]
    exact Option.some_ne_none _
  · rw [look_before found along same]
    exact Option.some_ne_none _

/-- What an installation leaves at a path, after what was there at first. -/
inductive Left (names : List String) (text : List Char) (missing : Bool) (base after : Data)
    (p : List String) : Prop where
  | value {value : Leaf} (member : (p, some value) ∈ allWrites text missing names)
      (there : after p = some (.leaf value))
  | table (place : p = [] ∨ p ∈ places names) (there : after p = some .table)
  | beyond {path : List String} {value : Leaf}
      (member : (path, some value) ∈ allWrites text missing names) (along : path <+: p)
      (apart : p ≠ path) (there : after p = none)
  | elsewhere (away : ∀ path value, (path, some value) ∈ allWrites text missing names → ¬ path <+: p)
      (place : p ≠ [] ∧ p ∉ places names) (there : after p = base p)

variable {text : List Char} {missing : Bool} {base after : Data}

/-- What is on the way to one of the tables is one of them, too. -/
theorem places_closed {path p : List String} (place : path ∈ places names) (before : p <+: path) :
    p = [] ∨ p ∈ places names := by
  rw [← List.mem_inits] at before
  simp only [places, toolsPath, List.mem_cons, List.mem_map] at place
  -- The beginnings of each path are counted out.
  rcases place with rfl | rfl | rfl | rfl | ⟨tool, named, rfl⟩
  all_goals
    simp only [List.cons_append, List.nil_append, List.inits, List.map_cons, List.map_nil,
      List.mem_cons, List.not_mem_nil, or_false] at before
  · rcases before with rfl | rfl
    · exact .inl rfl
    · exact .inr (by simp [places])
  · rcases before with rfl | rfl | rfl
    · exact .inl rfl
    · exact .inr (by simp [places])
    · exact .inr (by simp [places])
  · rcases before with rfl | rfl | rfl | rfl
    · exact .inl rfl
    · exact .inr (by simp [places])
    · exact .inr (by simp [places])
    · exact .inr (by simp [places, toolsPath])
  · rcases before with rfl | rfl
    · exact .inl rfl
    · exact .inr (by simp [places])
  · rcases before with rfl | rfl | rfl | rfl | rfl
    · exact .inl rfl
    · exact .inr (by simp [places])
    · exact .inr (by simp [places])
    · exact .inr (by simp [places, toolsPath])
    · exact .inr (by simp [places, toolsPath, named])

/-- What is on the way to something behind one of the tables is one of them. -/
theorem places_of_front {front p : List String} {last : String} (place : front ∈ places names)
    (before : p <+: front ++ [last]) (apart : p ≠ front ++ [last]) : p = [] ∨ p ∈ places names :=
  places_closed place ((List.prefix_concat_iff.mp before).resolve_left apart)

/-- What is on the way to what is written is one of the tables. -/
theorem places_of_before {own : Write} (member : own ∈ allWrites text missing names)
    {p : List String} (before : p <+: own.1) (short : ∀ value, own.2 = some value → p ≠ own.1) :
    p = [] ∨ p ∈ places names := by
  rcases mem_allWrites member with rfl | ⟨_, rfl⟩ | ⟨tool, named, rfl⟩ | rfl | ⟨place, _⟩
  · -- A value is written behind one of the tables, and is not on the way to itself.
    have front : ["mcp_servers", serverName] ∈ places names := by simp [places]
    exact places_of_front front before (short _ rfl)
  · have front : ["mcp_servers", serverName] ∈ places names := by simp [places]
    exact places_of_front front before (short _ rfl)
  · have front : toolsPath ++ [tool] ∈ places names := by simp [places, named]
    exact places_of_front front before (short _ rfl)
  · have front : ["features"] ∈ places names := by simp [places]
    exact places_of_front front before (short _ rfl)
  · exact places_closed place before

/-- An installation makes each of the tables. -/
theorem places_written {p : List String} (place : p ∈ places names) :
    (p, none) ∈ allWrites text missing names := by
  rw [allWrites, List.mem_append, List.mem_append]
  simp only [places, toolsPath, List.mem_cons, List.mem_map] at place
  rcases place with rfl | rfl | rfl | rfl | ⟨tool, named, rfl⟩
  · -- Each table is made on the way to what is written in it.
    exact .inl (.inr (mem_behind_iff.mpr (.inl rfl)))
  · exact .inl (.inr (mem_behind_iff.mpr (.inr ⟨_, mem_behind_iff.mpr (.inl rfl), rfl⟩)))
  · exact .inl (.inr (mem_behind_iff.mpr (.inr ⟨_, mem_behind_iff.mpr (.inr
      ⟨_, mem_behind_iff.mpr (.inl rfl), rfl⟩), rfl⟩)))
  · exact .inr (mem_behind_iff.mpr (.inl rfl))
  · have own : ([tool], none) ∈ names.flatMap approvalWrites :=
      List.mem_flatMap.mpr ⟨tool, named, mem_behind_iff.mpr (.inl rfl)⟩
    exact .inl (.inr (mem_behind_iff.mpr (.inr ⟨_, mem_behind_iff.mpr (.inr
      ⟨_, mem_behind_iff.mpr (.inr ⟨_, own, rfl⟩), rfl⟩), rfl⟩)))

/-- Every path is one of those. -/
theorem left_of_wrote (wrote : Data.Wrote base (allWrites text missing names) after)
    (p : List String) : Left names text missing base after p := by
  -- Either the path is at a value or beyond one, or it is on the way to one, or it is elsewhere.
  by_cases beyond : ∃ path value, (path, some value) ∈ allWrites text missing names ∧ path <+: p
  · obtain ⟨path, value, member, along⟩ := beyond
    by_cases same : p = path
    · subst same
      exact .value member (wrote.value p value member)
    · exact .beyond member along same (wrote.beyond path value p member along same)
  · have away : ∀ path value, (path, some value) ∈ allWrites text missing names → ¬ path <+: p :=
      fun path value member along => beyond ⟨path, value, member, along⟩
    by_cases place : p = [] ∨ p ∈ places names
    · refine .table place ?_
      rcases place with rfl | inside
      · exact wrote.before ["mcp_servers"] none [] (places_written List.mem_cons_self)
          List.nil_prefix (List.cons_ne_nil _ _).symm
      · exact wrote.made p (places_written inside)
    · refine .elsewhere away (not_or.mp place) (wrote.elsewhere p away ?_)
      intro path value member before
      refine place (places_of_before member before ?_)
      rintro own rfl rfl
      exact away p own member (List.prefix_refl p)

/-- A value that an installation writes is requested, or it is the arguments. -/
theorem requested_or_args {path : List String} {value : Leaf}
    (member : (path, some value) ∈ allWrites text missing names) :
    path ∈ requested names ∨ missing = true ∧ path = argsPath ∧ value = .array [] := by
  rcases value_mem_allWrites member with ⟨rfl, _⟩ | args | ⟨tool, named, rfl, _⟩ | ⟨rfl, _⟩
  · exact .inl List.mem_cons_self
  · -- The arguments are the only value that nobody has asked for.
    exact .inr args
  · have own : approvalPath tool ∈ names.map approvalPath := List.mem_map.mpr ⟨tool, named, rfl⟩
    exact .inl (List.mem_cons_of_mem _ (List.mem_cons_of_mem _ own))
  · exact .inl (by simp [requested])

/-- A table is on the way to something requested, or is that of the tools. -/
theorem requested_of_place {p : List String} (place : p ∈ places names) :
    (∃ path ∈ requested names, p <+: path) ∨ p <+: toolsPath := by
  simp only [places, List.mem_cons, List.mem_map] at place
  rcases place with rfl | rfl | rfl | rfl | ⟨tool, named, rfl⟩
  · -- The servers and the entry are on the way to the tools.
    exact .inr ⟨_, rfl⟩
  · exact .inr ⟨_, rfl⟩
  · exact .inr (List.prefix_refl _)
  · exact .inl ⟨shellPath, by simp [requested], ⟨_, rfl⟩⟩
  · have own : approvalPath tool ∈ names.map approvalPath := List.mem_map.mpr ⟨tool, named, rfl⟩
    exact .inl ⟨approvalPath tool, List.mem_cons_of_mem _ (List.mem_cons_of_mem _ own), ⟨_, rfl⟩⟩

/-- Whatever was there is a table where one belongs. -/
theorem node_of_place (laid : Laid names doc) {p : List String} (place : p = [] ∨ p ∈ places names)
    {node : Toml.Node} (found : doc.look p = some node) : node = .table := by
  cases node with
  | table => rfl
  | leaf value =>
    rcases place with rfl | inside
    · -- The whole document is no value.
      cases found
    · exact absurd found (laid p inside value)

/--
The writes of an installation do what was requested, if they start from what there was, and what
they do not start from is what they write.
-/
theorem installed_of_wrote (laid : Laid names doc) (valid : Text.encodeUtf8 text = bridge)
    (wrote : Data.Wrote base (allWrites text missing names) after)
    (part : ∀ p, base p ≠ none → base p = doc.look p)
    (args : missing = true → ∀ p node, doc.look p = some node → argsPath <+: p →
      p = argsPath ∧ node = .leaf (.array []))
    (rest : ∀ p node, doc.look p = some node → p ≠ [] ∧ p ∉ places names →
      (∀ path ∈ requested names, ¬ path <+: p) → (missing = true → ¬ argsPath <+: p) →
      base p = some node) :
    Installed names bridge doc.look after := by
  have command : (commandPath, some (.string text)) ∈ allWrites text missing names :=
    List.mem_append_left _ (List.mem_append_left _ command_mem)
  refine ⟨⟨text, valid, wrote.value _ _ command⟩, fun tool named => ?_, ?_, ?_, ?_⟩
  · exact wrote.value _ _ (List.mem_append_left _ (List.mem_append_right _ (approval_mem named)))
  · exact wrote.value _ _ (List.mem_append_right _ shell_mem)
  · intro p node found away
    -- What was there is either written over with itself, or left alone.
    cases left_of_wrote wrote p with
    | value member there =>
      rcases requested_or_args member with own | ⟨absent, rfl, rfl⟩
      · exact absurd (List.prefix_refl p) (away p own)
      · rw [there, (args absent _ node found (List.prefix_refl _)).2]
    | table place there => rw [there, node_of_place laid place found]
    | beyond member along apart there =>
      rcases requested_or_args member with own | ⟨absent, rfl, rfl⟩
      · exact absurd along (away _ own)
      · exact absurd (args absent p node found along).1 apart
    | elsewhere aside place there =>
      rw [there]
      refine rest p node found place away fun absent along => ?_
      exact aside argsPath _ (List.mem_append_left _ (List.mem_append_left _ (args_mem absent))) along
  · intro p nothing some_
    -- What is new is a value that is written, or a table on the way to one.
    cases left_of_wrote wrote p with
    | value member there =>
      rcases requested_or_args member with own | ⟨_, rfl, rfl⟩
      · exact .inl ⟨p, own, List.prefix_refl p⟩
      · exact .inr (.inr ⟨rfl, there⟩)
    | table place there =>
      rcases place with rfl | inside
      · exact .inr (.inl List.nil_prefix)
      · exact (requested_of_place inside).imp_right .inl
    | beyond member along apart there => exact absurd there some_
    | elsewhere aside place there =>
      rw [there] at some_
      rw [part p some_] at some_
      exact absurd nothing some_

/-- What was replaced had nothing in it but what an installation writes, if nothing was lost. -/
theorem onlyOurs_of_installed (installed : Installed names bridge doc.look after)
    (replaced : doc.find ["mcp_servers", serverName] = some (.table .inline entry))
    (wrote : Data.Wrote base (allWrites text missing names) after)
    (dropped : ∀ p, base (["mcp_servers", serverName] ++ p) = none) : OnlyOurs names entry := by
  intro p node found
  rw [← look_append replaced] at found
  by_cases away : ∀ path ∈ requested names, ¬ path <+: ["mcp_servers", serverName] ++ p
  · -- What nobody asked for is still there, so it is one of the writes.
    have there := installed.kept _ node found away
    cases left_of_wrote wrote (["mcp_servers", serverName] ++ p) with
    | value member put =>
      rcases requested_or_args member with own | ⟨_, same, rfl⟩
      · exact absurd (List.prefix_refl _) (away _ own)
      · rw [put, Option.some.injEq] at there
        cases same
        exact .inr (.inr (.inl ⟨rfl, there.symm⟩))
    | table place made =>
      rw [made, Option.some.injEq] at there
      simp only [places, toolsPath, List.cons_append, List.nil_append, reduceCtorEq, false_or,
        List.mem_cons, List.cons.injEq, true_and, List.mem_map] at place
      rcases place with same | same | ⟨_, none_⟩ | ⟨tool, named, same⟩
      · exact .inl same
      · exact .inr (.inr (.inr (.inl ⟨same, there.symm⟩)))
      · -- The features are not in the entry.
        exact none_.elim
      · exact .inr (.inr (.inr (.inr ⟨tool, named, .inl ⟨same.symm, there.symm⟩⟩)))
    | beyond member along apart gone =>
      rw [gone] at there
      cases there
    | elsewhere aside place same =>
      rw [same, dropped] at there
      cases there
  · -- Beyond a value that was requested there may have been anything.
    simp only [not_forall, not_not] at away
    obtain ⟨path, own, along⟩ := away
    simp only [requested, List.mem_cons, List.mem_map] at own
    rcases own with rfl | rfl | ⟨tool, named, rfl⟩
    · exact .inr (.inl ((List.prefix_append_right_inj ["mcp_servers", serverName]).mp along))
    · exact absurd (List.cons_prefix_cons.mp along).1 (by decide)
    · refine .inr (.inr (.inr (.inr ⟨tool, named, .inr ?_⟩)))
      exact (List.prefix_append_right_inj ["mcp_servers", serverName]).mp along

/-- If there was nothing else in what was replaced, nothing is lost. -/
theorem installed_of_onlyOurs (laid : Laid names doc) (valid : Text.encodeUtf8 text = bridge)
    (replaced : doc.find ["mcp_servers", serverName] = some (.table .inline entry))
    (only : OnlyOurs names entry)
    (wrote : Data.Wrote (Data.drop doc.look ["mcp_servers", serverName])
      (allWrites text true names) after) : Installed names bridge doc.look after := by
  refine installed_of_wrote laid valid wrote (fun p some_ => ?_) (fun _ p node found along => ?_)
    fun p node found place away aside => ?_
  · rw [Data.drop] at some_ ⊢
    split at some_
    · exact absurd rfl some_
    · rename_i outside
      rw [if_neg outside]
  · -- Beyond the arguments there was nothing.
    obtain ⟨rest, rfl⟩ := along
    have inside : entry.look ("args" :: rest) = some node := by
      rw [← look_append replaced]
      exact found
    rcases only _ node inside with same | command | ⟨same, own⟩ | ⟨same, _⟩ |
      ⟨tool, _, ⟨same, _⟩ | mode⟩
    · cases same
    · exact absurd (List.cons_prefix_cons.mp command).1 (by decide)
    · obtain rfl := (List.cons.inj same).2
      exact ⟨rfl, own⟩
    · exact absurd (List.cons.inj same).1 (by decide)
    · exact absurd (List.cons.inj same).1 (by decide)
    · exact absurd (List.cons_prefix_cons.mp mode).1 (by decide)
  · -- What was in the entry and was not asked for is among the tables and the arguments.
    rw [Data.drop]
    split
    · rename_i inside
      obtain ⟨rest, rfl⟩ := inside
      rw [look_append replaced] at found
      rcases only rest node found with rfl | along | ⟨rfl, _⟩ | ⟨rfl, _⟩ |
        ⟨tool, named, ⟨rfl, _⟩ | along⟩
      · exact absurd (by simp [places]) place.2
      · refine absurd ?_ (away commandPath (by simp [requested]))
        exact (List.prefix_append_right_inj ["mcp_servers", serverName]).mpr along
      · exact absurd (List.prefix_refl _) (aside rfl)
      · exact absurd (by simp [places, toolsPath]) place.2
      · exact absurd (by simp [places, toolsPath, named]) place.2
      · have own : approvalPath tool ∈ names.map approvalPath :=
          List.mem_map.mpr ⟨tool, named, rfl⟩
        refine absurd ?_ (away (approvalPath tool)
          (List.mem_cons_of_mem _ (List.mem_cons_of_mem _ own)))
        exact (List.prefix_append_right_inj ["mcp_servers", serverName]).mpr along
    · exact found

/-- An installation goes through if each of its steps does. -/
theorem prefer_of_installs {one two three : Table × Bool}
    (steps : Installs names bridge doc one two three) :
    prefer names bridge doc = .ok (three.1, one.2 || two.2 || three.2) := by
  rw [prefer, steps.server]
  simp only [steps.approvals, steps.shell]

/-- Each step of an installation goes through if it does. -/
theorem installs_of_prefer {after : Table} {flag : Bool}
    (ok : prefer names bridge doc = .ok (after, flag)) :
    ∃ one two three, Installs names bridge doc one two three ∧ three.1 = after := by
  rw [prefer] at ok
  -- The first step that fails ends the installation.
  cases server : upsertServer bridge doc with
  | error e => rw [server] at ok; cases ok
  | ok one =>
    rw [server] at ok
    simp only at ok
    cases approvals : upsertToolApprovals names one.1 with
    | error e => rw [approvals] at ok; cases ok
    | ok two =>
      rw [approvals] at ok
      simp only at ok
      cases shell : upsertDisableShellTool two.1 with
      | error e => rw [shell] at ok; cases ok
      | ok three =>
        rw [shell] at ok
        cases ok
        exact ⟨one, two, three, ⟨server, approvals, shell⟩, rfl⟩

variable {first : Form} {servers : Table}

/-- What is found at the server's path is its entry in the table of all servers. -/
theorem get_of_find (top : doc.enter "mcp_servers" = some (first, servers)) {item : Item}
    (found : doc.find ["mcp_servers", serverName] = some item) :
    servers.get serverName = some item := by
  -- The path goes through the table of all servers.
  rw [enter_find top (List.cons_ne_nil _ _), find_cons] at found
  cases there : servers.get serverName with
  | none =>
    rw [there] at found
    cases found
  | some other =>
    rw [there] at found
    exact found

/-- An entry that is no table that can be changed is replaced, and the rest goes through. -/
theorem prefer_replaced (top : doc.enter "mcp_servers" = some (first, servers)) {item : Item}
    (found : servers.get serverName = some item) (none_ : item.asTable = none)
    (features : (doc.enter "features").isSome) :
    ∃ after flag, prefer names bridge doc = .ok (after, flag) ∧
      Data.Wrote (Data.drop doc.look ["mcp_servers", serverName])
        (allWrites (Text.decodeLossy bridge) true names) after.look := by
  -- The entry is made anew, and nothing of the old one is read.
  have registered_ : registered (Text.decodeLossy bridge) (servers.get serverName) =
      (.standard, newServer (Text.decodeLossy bridge), true) := by
    rw [found, registered]
    simp only [none_]
  have server := upsertServer_eq top bridge
  rw [registered_] at server
  have inside : (servers.insert serverName
      (.table .standard (newServer (Text.decodeLossy bridge)))).look =
      (Data.drop servers.look [serverName]).writes
        (behind serverName (entryWrites (Text.decodeLossy bridge) true)) :=
    look_replaced (newServer_updates (Text.decodeLossy bridge)).look
  have look := look_within_drop top (List.cons_ne_nil serverName []) inside
  have ready : Approvable names (doc.insert "mcp_servers" (.table first (servers.insert serverName
      (.table .standard (newServer (Text.decodeLossy bridge)))))) :=
    .intro (enter_insert_self (enter_form top) _ _ _) (get_insert_self _ _ _) (by decide) rfl
      fun tool _ => rfl
  obtain ⟨two, second, approvals, middle, _, _, kept⟩ := upsertToolApprovals_ok ready
  have same : two.enter "features" = doc.enter "features" := by
    rw [enter, enter, kept _ (by decide), get_insert_ne (by decide)]
  rw [← same] at features
  obtain ⟨⟨form, entries⟩, entered⟩ := Option.isSome_iff_exists.mp features
  obtain ⟨three, third, shell, last, _, _⟩ := upsertDisableShellTool_updates entered
  refine ⟨three, _, prefer_of_installs ⟨server, approvals, shell⟩, ?_⟩
  -- What was dropped is gone before anything is written.
  have whole : three.look = (Data.drop doc.look ["mcp_servers", serverName]).writes
      (allWrites (Text.decodeLossy bridge) true names) := by
    rw [last.look, middle, look, allWrites]
    simp only [Data.writes, List.foldl_append]
    rfl
  rw [whole]
  exact Data.wrote_writes compatible_allWrites _

/-- What can be changed in place is not written as a value. -/
theorem not_inline_of_enter {t : Table} {key : String} (entered : (t.enter key).isSome) :
    ¬ Inline t [key] := by
  rintro ⟨entries, found⟩
  obtain ⟨⟨form, others⟩, there⟩ := Option.isSome_iff_exists.mp entered
  rw [find_cons] at found
  rcases enter_eq_some.mp there with ⟨absent, _⟩ | ⟨other, changeable⟩
  · rw [absent] at found
    cases found
  · rw [other] at found
    cases found
    -- An entry that is there was entered, so it is no value.
    exact changeable rfl

/-- Nothing that can be changed in place below the servers is written as a value. -/
theorem not_inline_of_opens (opens : Opens names doc) :
    ¬ Inline doc toolsPath ∧ ∀ tool ∈ names, ¬ Inline doc (toolsPath ++ [tool]) := by
  obtain ⟨top, inner, deep, all⟩ := opens
  refine ⟨?_, fun tool named => ?_⟩
  · -- The tables on the way have been entered, so that the last one is found from there.
    rintro ⟨entries, found⟩
    rw [toolsPath, enter_find top (List.cons_ne_nil _ _),
      enter_find inner (List.cons_ne_nil _ _)] at found
    exact not_inline_of_enter (by rw [deep]; rfl) ⟨entries, found⟩
  · rintro ⟨entries, found⟩
    rw [toolsPath, List.cons_append, List.cons_append, List.cons_append, List.nil_append,
      enter_find top (List.cons_ne_nil _ _), enter_find inner (List.cons_ne_nil _ _),
      enter_find deep (List.cons_ne_nil _ _)] at found
    exact not_inline_of_enter (all tool named) ⟨entries, found⟩

/-- Where everything can be set in place, an installation sets it and nothing else. -/
theorem installed_of_fits (laid : Laid names doc) (fits : Fits names bridge doc) :
    ∃ after flag, prefer names bridge doc = .ok (after, flag) ∧
      Installed names bridge doc.look after.look := by
  obtain ⟨text, valid⟩ := fits.text
  have same : Text.decodeLossy bridge = text := by rw [← valid, Text.decodeLossy_encodeUtf8]
  have features : (doc.enter "features").isSome :=
    enter_isSome fun item => asTable_isSome laid (by simp [places]) fits.features
  -- An inline entry is replaced, any other one is changed in place.
  by_cases inline : Inline doc ["mcp_servers", serverName]
  · obtain ⟨entry, replaced⟩ := inline
    have one : (doc.enter "mcp_servers").isSome :=
      enter_isSome fun item => asTable_isSome laid (by simp [places]) fits.servers
    obtain ⟨⟨first, servers⟩, top⟩ := Option.isSome_iff_exists.mp one
    have found : servers.get serverName = some (.table .inline entry) := get_of_find top replaced
    obtain ⟨after, flag, ok, wrote⟩ : ∃ after flag, prefer names bridge doc = .ok (after, flag) ∧
        Data.Wrote (Data.drop doc.look ["mcp_servers", serverName])
          (allWrites (Text.decodeLossy bridge) true names) after.look :=
      prefer_replaced top found rfl features
    rw [same] at wrote
    exact ⟨after, flag, ok,
      installed_of_onlyOurs laid valid replaced (fits.replaced entry replaced) wrote⟩
  · obtain ⟨tools, each⟩ := fits.tools inline
    have opens : Opens names doc := by
      refine opens_of_find fun path place item => asTable_isSome laid place ?_
      have where_ := place
      simp only [places, List.mem_cons, List.mem_map] at where_
      rcases where_ with rfl | rfl | rfl | rfl | ⟨tool, named, rfl⟩
      · exact fits.servers
      · exact inline
      · exact tools
      · exact fits.features
      · exact each tool named
    obtain ⟨one, two, three, missing, steps, _, _, _, look, absent, _, _⟩ :=
      installs opens features (fits.settled inline)
    have wrote : Data.Wrote doc.look (allWrites text missing names) three.1.look := by
      rw [look, same]
      exact Data.wrote_writes compatible_allWrites doc.look
    refine ⟨three.1, _, prefer_of_installs steps, installed_of_wrote laid valid wrote
      (fun _ _ => rfl) (fun gone p node found along => ?_) fun p node found _ _ _ => found⟩
    -- Arguments that are written were absent, so nothing was found beyond them.
    exact absurd (absent.mp gone) (look_ne_none found along)

/-- The tools of an entry that was changed in place could be changed in place before. -/
theorem opens_of_approved {form : Form} {two : Table × Bool} {updated : Table}
    (top : doc.enter "mcp_servers" = some (first, servers))
    (found : servers.get serverName = some (.table form entry)) (changeable : form ≠ .inline)
    (same : updated.get "tools" = entry.get "tools")
    (approvals : upsertToolApprovals names (doc.insert "mcp_servers"
      (.table first (servers.insert serverName (.table form updated)))) = .ok two) :
    Opens names doc := by
  have ready := approvable_of_ok approvals (enter_insert_self (enter_form top) _ _ _)
    (get_insert_self _ _ _) changeable
  obtain ⟨top', found', _, deep, all⟩ := ready
  -- The tables that were entered are the ones that had been inserted.
  rw [enter_insert_self (enter_form top)] at top'
  cases top'
  rw [get_insert_self] at found'
  cases found'
  have kept : updated.enter "tools" = entry.enter "tools" := by rw [enter, enter, same]
  exact .intro top (enter_eq_some.mpr (.inr ⟨found, changeable⟩)) (kept.symm.trans deep) all

/-- The approvals and the switch of the shell leave the command as it is. -/
theorem look_command {one two three : Table × Bool} (ready : Approvable names one.1)
    (approvals : upsertToolApprovals names one.1 = .ok two)
    (shell : upsertDisableShellTool two.1 = .ok three) :
    three.1.look commandPath = one.1.look commandPath := by
  obtain ⟨form, entries, changed, _, _, last⟩ := within_eq_ok shell
  obtain ⟨other, flag, ok, look, _, _, _⟩ := upsertToolApprovals_ok ready
  rw [approvals] at ok
  cases ok
  have compatible : Data.Compatible (toolWrites names) := by
    have within : ∀ own ∈ toolWrites names, own ∈ allWrites [] true names :=
      fun own member => List.mem_append_left _ (List.mem_append_right _ member)
    exact compatible_part within
  have wrote := Data.wrote_writes compatible one.1.look
  rw [last, commandPath, look_insert_ne (by decide), ← commandPath, look]
  -- Only modes of tools are written, and the tables around them.
  apply wrote.elsewhere
  · intro path value member beyond
    obtain ⟨_, rfl, inner⟩ := mem_behind.mp member
    obtain ⟨_, rfl, deep⟩ := mem_behind.mp inner
    obtain ⟨_, rfl, _⟩ := mem_behind.mp deep
    simp [commandPath] at beyond
  · intro path value member before
    rcases mem_behind_iff.mp member with same | ⟨_, inner, same⟩
    · cases same
      simp [commandPath] at before
    · cases same
      rcases mem_behind_iff.mp inner with same | ⟨_, deep, same⟩
      · cases same
        simp [commandPath] at before
      · cases same
        rcases mem_behind_iff.mp deep with same | ⟨_, _, same⟩
        · cases same
          simp [commandPath] at before
        · cases same
          simp [commandPath] at before

/-- Without an entry there is nothing in it. -/
theorem not_inline_of_absent (top : doc.enter "mcp_servers" = some (first, servers))
    (absent : servers.get serverName = none) (text : List Char) :
    (¬ Inline doc toolsPath ∧ ∀ tool ∈ names, ¬ Inline doc (toolsPath ++ [tool])) ∧
      Settled text doc := by
  -- Without a server there is nothing below it that could be inline.
  have nothing (p : List String) : doc.find ("mcp_servers" :: serverName :: p) = none := by
    rw [enter_find top (List.cons_ne_nil _ _), find_cons, absent]
    rfl
  refine ⟨⟨?_, fun tool _ => ?_⟩, .inl (nothing [])⟩
  · rintro ⟨_, there⟩
    rw [toolsPath, nothing] at there
    cases there
  · rintro ⟨_, there⟩
    rw [toolsPath, List.cons_append, List.cons_append, nothing] at there
    cases there

/-- A command that is there after an installation can be told from none before it. -/
theorem settled_of_command {own : Form} {two three : Table × Bool} {text : List Char}
    (top : doc.enter "mcp_servers" = some (first, servers))
    (found : servers.get serverName = some (.table own entry)) (changeable : own ≠ .inline)
    (approvals : upsertToolApprovals names (doc.insert "mcp_servers" (.table first
      (servers.insert serverName
        (.table own (updateServer (Text.decodeLossy bridge) entry).1)))) = .ok two)
    (shell : upsertDisableShellTool two.1 = .ok three)
    (command : three.1.look commandPath = some (.leaf (.string text))) :
    Settled (Text.decodeLossy bridge) doc := by
  have whole : doc.find ["mcp_servers", serverName] = some (.table own entry) := by
    rw [enter_find top (List.cons_ne_nil _ _), find_cons, found]
    rfl
  by_contra unsettled
  have inside : doc.look commandPath = Table.look entry ["command"] := look_append whole ["command"]
  have untold : ¬ Told (Text.decodeLossy bridge) entry := by
    rintro (some_ | ⟨text, there⟩)
    · exact unsettled (.inr (.inl some_))
    · exact unsettled (.inr (.inr ⟨text, inside.trans there⟩))
  -- The command stays as it is, and is not the one that was requested.
  have ready : Approvable names (doc.insert "mcp_servers" (.table first
      (servers.insert serverName
        (.table own (updateServer (Text.decodeLossy bridge) entry).1)))) :=
    approvable_of_ok approvals (enter_insert_self (enter_form top) _ _ _)
      (get_insert_self _ _ _) changeable
  have same := @look_command names (_, false) two three ready approvals shell
  rw [same, commandPath, look_insert_self, look_table, look_insert_self, look_table, look_single,
    updateServer_untold untold, ← look_single] at command
  exact untold (.inr ⟨text, command⟩)

/-- An installation that sets everything and nothing else is in a configuration that it fits. -/
theorem fits_of_installed (laid : Laid names doc) {after : Table} {flag : Bool}
    (ok : prefer names bridge doc = .ok (after, flag))
    (installed : Installed names bridge doc.look after.look) : Fits names bridge doc := by
  obtain ⟨one, two, three, ⟨server, approvals, shell⟩, rfl⟩ := installs_of_prefer ok
  obtain ⟨first, servers, _, top, _, _⟩ := within_eq_ok server
  obtain ⟨_, _, _, _, _, second⟩ := within_eq_ok approvals
  obtain ⟨form, entries, _, entered, _, _⟩ := within_eq_ok shell
  have registered_ := upsertServer_eq top bridge
  rw [server] at registered_
  simp only [Except.ok.injEq] at registered_
  have features : (doc.enter "features").isSome := by
    rw [second, registered_, enter_insert_ne (by decide), enter_insert_ne (by decide)] at entered
    rw [entered]
    rfl
  obtain ⟨text, valid, command⟩ := installed.command
  have not_inline (named : ¬ Inline doc ["mcp_servers", serverName]) :
      (¬ Inline doc toolsPath ∧ ∀ tool ∈ names, ¬ Inline doc (toolsPath ++ [tool])) ∧
        Settled (Text.decodeLossy bridge) doc := by
    cases found : servers.get serverName with
    | none => exact not_inline_of_absent top found _
    | some item =>
      have whole : doc.find ["mcp_servers", serverName] = some item := by
        rw [enter_find top (List.cons_ne_nil _ _), find_cons, found]
        rfl
      cases item with
      | leaf value =>
        refine absurd ?_ (laid ["mcp_servers", serverName] (by simp [places]) value)
        rw [look, whole]
        rfl
      | table own entry =>
        have changeable : own ≠ .inline := by
          rintro rfl
          exact named ⟨entry, whole⟩
        simp only [found, registered, asTable_table changeable] at registered_
        subst registered_
        refine ⟨not_inline_of_opens (opens_of_approved top found changeable
          (get_updateServer (by decide) (by decide) entry) approvals), ?_⟩
        exact settled_of_command top found changeable approvals shell command
  refine ⟨⟨text, valid⟩, not_inline_of_enter (by rw [top]; rfl), not_inline_of_enter features,
    fun entry replaced => ?_, fun named => (not_inline named).1, fun named => (not_inline named).2⟩
  -- An entry between braces was replaced, so nothing else may have been in it.
  have found : servers.get serverName = some (.table .inline entry) := get_of_find top replaced
  obtain ⟨after, _, ok', wrote⟩ : ∃ after flag, prefer names bridge doc = .ok (after, flag) ∧
      Data.Wrote (Data.drop doc.look ["mcp_servers", serverName])
        (allWrites (Text.decodeLossy bridge) true names) after.look :=
    prefer_replaced top found rfl features
  rw [ok] at ok'
  cases ok'
  exact onlyOurs_of_installed installed replaced wrote fun p => if_pos (List.prefix_append _ _)

/--
An installation goes through, sets what was requested and leaves the rest as it is, exactly in the
configurations that it fits.
-/
theorem prefer_iff (laid : Laid names doc) :
    (∃ after flag, prefer names bridge doc = .ok (after, flag) ∧
      Installed names bridge doc.look after.look) ↔ Fits names bridge doc := by
  constructor
  · rintro ⟨after, flag, ok, installed⟩
    exact fits_of_installed laid ok installed
  · exact installed_of_fits laid

/-- A configuration with features that are written between braces. -/
def braced : Table := [("features", .table .inline [("web_search", .leaf (.boolean true))])]

/-- Its features are a table, and an installation does not go through. -/
theorem not_prefer_braced : Laid mcpCliTools braced ∧
    ¬ ∃ after flag, prefer mcpCliTools [0x2F, 0x62] braced = .ok (after, flag) ∧
      Installed mcpCliTools [0x2F, 0x62] braced.look after.look := by
  constructor
  · intro path place value found
    simp only [places, List.mem_cons, List.mem_map] at place
    rcases place with rfl | rfl | rfl | rfl | ⟨tool, _, rfl⟩
    all_goals cases found
  · rintro ⟨after, flag, ok, _⟩
    -- A table between braces cannot be changed in place.
    have panics : prefer mcpCliTools [0x2F, 0x62] braced =
        .error "just-inserted features must be a table" := rfl
    rw [panics] at ok
    cases ok

/-- The server is registered in a table with dots in its keys. -/
def dotted : Table :=
  [("mcp_servers", .table .dotted [(serverName, .table .dotted [("command", stringItem [])])])]

/-- An installation goes through in it, as it fits. -/
theorem prefer_iff_dotted :
    (∃ after flag, prefer mcpCliTools [0x2F, 0x62] dotted = .ok (after, flag) ∧
      Installed mcpCliTools [0x2F, 0x62] dotted.look after.look) ∧
      Fits mcpCliTools [0x2F, 0x62] dotted := by
  -- None of the places holds a value yet, and the servers are a table of dotted keys.
  have laid : Laid mcpCliTools dotted := by
    intro path place value found
    simp only [places, List.mem_cons, List.mem_map] at place
    rcases place with rfl | rfl | rfl | rfl | ⟨tool, _, rfl⟩
    all_goals cases found
  have fits : Fits mcpCliTools [0x2F, 0x62] dotted := by
    have own : dotted.find ["mcp_servers", serverName] =
        some (.table .dotted [("command", stringItem [])]) := rfl
    refine ⟨⟨['/', 'b'], by decide⟩, ?_, ?_, ?_, ?_, ?_⟩
    · rintro ⟨entries, found⟩
      cases found
    · rintro ⟨entries, found⟩
      cases found
    · intro entry found
      rw [own] at found
      cases found
    · intro _
      refine ⟨?_, fun tool _ => ?_⟩
      · rintro ⟨entries, found⟩
        cases found
      · rintro ⟨entries, found⟩
        cases found
    · exact fun _ => .inr (.inl (by decide))
  exact ⟨(prefer_iff laid).mpr fits, fits⟩

end McpCli.Codex
