import McpCli.Cli.Codex
import McpCli.Toml.Updates

/-! What each step of the registration writes, and when it can. -/

namespace McpCli.Codex

open Toml Toml.Table

/-- The mode of a tool that needs no approval any more. -/
def approvedMode : Leaf := .string "approve".toList

/-- The writes for one tool in the table of the tools. -/
def approvalWrites (tool : String) : List Write := behind tool [(["approval_mode"], some approvedMode)]

variable {doc servers server entry tools : Table} {tool : String} {form : Form}

/-- A tool whose table can be changed is approved. -/
theorem approve_updates (entered : tools.enter tool = some (form, entry)) :
    ∃ changed flag, approve tools tool = .ok (tools.insert tool (.table form changed), flag) ∧
      Updates tools (approvalWrites tool) (tools.insert tool (.table form changed)) flag := by
  have single : ∀ own ∈ [((["approval_mode"], some approvedMode) : Write)], own.1 ≠ [] := by
    intro own member
    rw [List.mem_singleton.mp member]
    exact List.cons_ne_nil _ _
  by_cases found : (entry.get "approval_mode").bind Item.asStr = some "approve".toList
  · -- The mode is there already: nothing is written, and none is said to be.
    refine ⟨entry, false, within_ok entered (if_pos found), ?_⟩
    exact (updates_there (asStr_iff.mp found)).within entered single ⟨_, _, List.mem_cons_self⟩
  · refine ⟨_, true, within_ok entered (if_neg found), ?_⟩
    exact (updates_insert fun there => found (asStr_iff.mpr there)).within entered single
      ⟨_, _, List.mem_cons_self⟩

/-- Whether the table of a tool can be changed does not depend on other tools. -/
theorem enter_insert_isSome (entered : tools.enter tool = some (form, entry)) (changed : Table)
    (other : String) :
    ((tools.insert tool (.table form changed)).enter other).isSome = (tools.enter other).isSome := by
  by_cases same : other = tool
  · rw [same, enter_insert_self (enter_form entered), entered]
    rfl
  · rw [enter_insert_ne same]

/-- The tools whose tables can be changed are approved one after the other. -/
theorem approveAll_updates {names : List String}
    (entered : ∀ tool ∈ names, (tools.enter tool).isSome) :
    ∃ after flag, approveAll tools names = .ok (after, flag) ∧
      Updates tools (names.flatMap approvalWrites) after flag ∧
      ∀ other, (after.enter other).isSome = (tools.enter other).isSome := by
  induction names generalizing tools with
  | nil => exact ⟨tools, false, rfl, Updates.refl tools, fun _ => rfl⟩
  | cons tool rest ih =>
    obtain ⟨⟨form, entry⟩, first⟩ :=
      Option.isSome_iff_exists.mp (entered tool List.mem_cons_self)
    obtain ⟨changed, one, approved, updates⟩ := approve_updates first
    -- The first tool leaves the tables of the others as they are.
    have still : ∀ other ∈ rest,
        ((tools.insert tool (.table form changed)).enter other).isSome := by
      intro other member
      rw [enter_insert_isSome first]
      exact entered other (List.mem_cons_of_mem _ member)
    obtain ⟨after, others, all, later, kept⟩ := ih still
    refine ⟨after, one || others, ?_, ?_, fun other => ?_⟩
    · rw [approveAll, approved]
      simp only [all]
    · rw [List.flatMap_cons]
      exact updates.trans later
    · rw [kept, enter_insert_isSome first]

/-- The tables of the tools that have been approved could be changed. -/
theorem enter_of_approveAll {names : List String} {after : Table} {flag : Bool}
    (ok : approveAll tools names = .ok (after, flag)) :
    ∀ tool ∈ names, (tools.enter tool).isSome := by
  induction names generalizing tools after flag with
  | nil => exact nofun
  | cons tool rest ih =>
    rw [approveAll] at ok
    cases approved : approve tools tool with
    | error e => rw [approved] at ok; cases ok
    | ok result =>
      obtain ⟨middle, one⟩ := result
      rw [approved] at ok
      simp only at ok
      obtain ⟨form, entry, changed, entered, _, same⟩ := within_eq_ok approved
      cases all : approveAll middle rest with
      | error e => rw [all] at ok; cases ok
      | ok result =>
        -- The first tool leaves the tables of the others as they were.
        intro other member
        rcases List.mem_cons.mp member with rfl | later
        · rw [entered]
          rfl
        · rw [← enter_insert_isSome entered changed, ← same]
          exact ih all other later

/-- The writes for the tools in the whole document. -/
def toolWrites (names : List String) : List Write :=
  behind "mcp_servers" (behind serverName (behind "tools" (names.flatMap approvalWrites)))

/-- No write for a tool is one for the table of the tools itself. -/
theorem approvalWrites_ne_nil {names : List String} :
    ∀ own ∈ names.flatMap approvalWrites, own.1 ≠ [] := by
  intro own member
  obtain ⟨tool, _, inside⟩ := List.mem_flatMap.mp member
  exact behind_ne_nil tool _ own inside

/-- There is a server, with a table of tools that can be approved. -/
inductive Approvable (names : List String) (doc : Table) : Prop where
  | intro {first form second : Form} {servers server tools : Table}
      (top : doc.enter "mcp_servers" = some (first, servers))
      (found : servers.get serverName = some (.table form server)) (changeable : form ≠ .inline)
      (inner : server.enter "tools" = some (second, tools))
      (all : ∀ tool ∈ names, (tools.enter tool).isSome)

/-- The tools are approved if they can be, and nothing else is written. -/
theorem upsertToolApprovals_ok {names : List String} (ready : Approvable names doc) :
    ∃ after flag, upsertToolApprovals names doc = .ok (after, flag) ∧
      after.look = Data.writes doc.look (toolWrites names) ∧
      (names ≠ [] → Updates doc (toolWrites names) after flag) ∧ Approvable names after ∧
      ∀ other, other ≠ "mcp_servers" → after.get other = doc.get other := by
  obtain ⟨top, found, changeable, inner, all⟩ := ready
  rename_i first form second servers server tools
  have entered : servers.enter serverName = some (form, server) :=
    enter_eq_some.mpr (.inr ⟨found, changeable⟩)
  obtain ⟨approved, flag, ok, updates, kept⟩ := approveAll_updates all
  refine ⟨doc.insert "mcp_servers" (.table first (servers.insert serverName
    (.table form (server.insert "tools" (.table second approved))))), flag, ?_, ?_,
    fun some_tool => ?_, ?_, fun other apart => get_insert_ne apart _ _⟩
  · -- From inside out: the tools, the entry of the server, and all servers.
    have inside : (server.within "tools" "just-inserted tools must be a table" fun toolsTbl =>
        approveAll toolsTbl names) = .ok (server.insert "tools" (.table second approved), flag) :=
      within_ok inner ok
    apply within_ok top
    simp only [found, Option.bind_some, asTable_table changeable, inside]
  · exact look_within top (look_within entered (look_within inner updates.look))
  · -- The mode of one of the tools is a value that is written.
    obtain ⟨tool, rest, rfl⟩ := List.exists_cons_of_ne_nil some_tool
    have written : (["mcp_servers", serverName, "tools", tool, "approval_mode"],
        some approvedMode) ∈ toolWrites (tool :: rest) := by
      simp [toolWrites, approvalWrites, mem_behind]
    obtain ⟨_, _, one⟩ := mem_behind.mp written
    obtain ⟨_, _, two⟩ := mem_behind.mp one
    obtain ⟨_, _, three⟩ := mem_behind.mp two
    have deep := updates.within inner approvalWrites_ne_nil ⟨_, _, three⟩
    have deeper := deep.within entered (behind_ne_nil _ _) ⟨_, _, two⟩
    exact deeper.within top (behind_ne_nil _ _) ⟨_, _, one⟩
  · refine .intro (enter_insert_self (enter_form top) _ _ _) (get_insert_self _ _ _) changeable
      (enter_insert_self (enter_form inner) _ _ _) fun tool member => ?_
    rw [kept]
    exact all tool member

/-- The tools of a server could be approved if they have been. -/
theorem approvable_of_ok {names : List String} {first : Form} {after : Table} {flag : Bool}
    (ok : upsertToolApprovals names doc = .ok (after, flag))
    (top : doc.enter "mcp_servers" = some (first, servers))
    (found : servers.get serverName = some (.table form server)) (changeable : form ≠ .inline) :
    Approvable names doc := by
  -- Each table that was entered on the way is one that could be.
  obtain ⟨_, _, changed, entered, made, _⟩ := within_eq_ok ok
  rw [top] at entered
  cases entered
  simp only [found, Option.bind_some, asTable_table changeable] at made
  split at made
  · cases made
  · rename_i inside
    obtain ⟨second, tools, approved, inner, all, _⟩ := within_eq_ok inside
    exact .intro top found changeable inner (enter_of_approveAll all)

/-- The writes that switch the shell off. -/
def shellWrites : List Write := behind "features" [(["shell_tool"], some (.boolean false))]

/-- The shell is switched off if the features can be changed. -/
theorem upsertDisableShellTool_updates {features : Table}
    (entered : doc.enter "features" = some (form, features)) :
    ∃ after flag, upsertDisableShellTool doc = .ok (after, flag) ∧
      Updates doc shellWrites after flag ∧ (after.enter "features").isSome ∧
      ∀ other, other ≠ "features" → after.get other = doc.get other := by
  have single : ∀ own ∈ [((["shell_tool"], some (.boolean false)) : Write)], own.1 ≠ [] := by
    intro own member
    rw [List.mem_singleton.mp member]
    exact List.cons_ne_nil _ _
  -- The flag tells whether the switch had to be set.
  by_cases found : (features.get "shell_tool").bind Item.asBool = some false
  · have updates := (updates_there (asBool_iff.mp found)).within entered single
      ⟨_, _, List.mem_cons_self⟩
    refine ⟨_, false, within_ok entered (if_pos found), updates, ?_,
      fun other apart => get_insert_ne apart _ _⟩
    rw [enter_insert_self (enter_form entered)]
    rfl
  · have updates := (updates_insert fun there => found (asBool_iff.mpr there)).within entered
      single ⟨_, _, List.mem_cons_self⟩
    refine ⟨_, true, within_ok entered (if_neg found), updates, ?_,
      fun other apart => get_insert_ne apart _ _⟩
    rw [enter_insert_self (enter_form entered)]
    rfl

/-- The writes for the entry of the server, in which the arguments may be missing. -/
def entryWrites (bridge : List Char) (missing : Bool) : List Write :=
  (["command"], some (.string bridge)) :: if missing then [(["args"], some (.array []))] else []

/-- A new entry has a command and no arguments. -/
theorem newServer_updates (bridge : List Char) :
    Updates [] (entryWrites bridge true) (newServer bridge) true := by
  have command : Updates [] [(["command"], some (.string bridge))]
      (Table.insert [] "command" (stringItem bridge)) true := updates_insert nofun
  have args : Updates (Table.insert [] "command" (stringItem bridge))
      [(["args"], some (.array []))] (newServer bridge) true := by
    apply updates_insert
    -- The command is not where the arguments are.
    rw [look_insert_ne (by decide)]
    exact nofun
  exact command.trans args

/-- The command of an entry is one that can be told from none at all. -/
def Told (bridge : List Char) (entry : Table) : Prop :=
  bridge ≠ [] ∨ ∃ text, entry.look ["command"] = some (.leaf (.string text))

/-- The command is the one that is wanted if it is there and says so. -/
theorem currentCmd_iff {bridge : List Char} (told : Told bridge entry) :
    ((entry.get "command").bind Item.asStr).getD [] = bridge ↔
      entry.look ["command"] = some (.leaf (.string bridge)) := by
  rw [← asStr_iff]
  cases current : (entry.get "command").bind Item.asStr with
  | some text => simp
  | none =>
    -- Without a command the wanted one is not empty.
    rcases told with some_ | ⟨text, found⟩
    · simpa using some_.symm
    · rw [asStr_iff.mpr found] at current
      cases current

/-- Whether the arguments of an entry are missing. -/
def missing (entry : Table) : Bool := !entry.containsKey "args"

/-- A key is there if something is found at it. -/
theorem containsKey_iff {key : String} : entry.containsKey key = true ↔ entry.look [key] ≠ none := by
  rw [containsKey, look_single]
  cases entry.get key with
  | none => simp
  | some item => simp

/-- An entry gets the command that is wanted, and arguments if it has none. -/
theorem updateServer_updates {bridge : List Char} (told : Told bridge entry) :
    Updates entry (entryWrites bridge (missing entry)) (updateServer bridge entry).1
      (updateServer bridge entry).2 := by
  -- The command does not change whether there are arguments.
  have args (middle : Table) (flag : Bool) (same : middle.get "args" = entry.get "args")
      (updates : Updates entry [(["command"], some (.string bridge))] middle flag) :
      Updates entry (entryWrites bridge (missing entry))
        (if middle.containsKey "args" then (middle, flag)
          else (middle.insert "args" emptyArray, true)).1
        (if middle.containsKey "args" then (middle, flag)
          else (middle.insert "args" emptyArray, true)).2 := by
    have both : middle.containsKey "args" = entry.containsKey "args" := by
      rw [containsKey, containsKey, same]
    rw [both, missing]
    cases there : entry.containsKey "args" with
    | true => exact updates
    | false =>
      have absent : middle.look ["args"] ≠ some (.leaf (.array [])) := by
        intro found
        have contained : middle.containsKey "args" = true := by
          rw [containsKey_iff, found]
          exact Option.some_ne_none _
        rw [both, there] at contained
        cases contained
      have more := updates.trans (updates_insert absent)
      rw [Bool.or_true] at more
      exact more
  rw [updateServer]
  by_cases current : ((entry.get "command").bind Item.asStr).getD [] = bridge
  · simp only [current, ne_eq, not_true_eq_false, if_false]
    exact args entry false rfl (updates_there ((currentCmd_iff told).mp current))
  · simp only [current, ne_eq, not_false_eq_true, if_true]
    refine args _ true (get_insert_ne (by decide) _ _) (updates_insert ?_)
    exact fun there => current ((currentCmd_iff told).mpr there)

/-- Keys other than the command and the arguments are as they were. -/
theorem get_updateServer {bridge : List Char} {key : String} (command : key ≠ "command")
    (args : key ≠ "args") (entry : Table) : (updateServer bridge entry).1.get key = entry.get key := by
  simp only [updateServer]
  -- Each branch inserts at one of the two keys, or at none.
  split
  · split
    · exact get_insert_ne command _ _
    · exact (get_insert_ne args _ _).trans (get_insert_ne command _ _)
  · split
    · rfl
    · exact get_insert_ne args _ _

/-- A command that cannot be told from none is left as it is. -/
theorem updateServer_untold {bridge : List Char} (untold : ¬ Told bridge entry) :
    (updateServer bridge entry).1.get "command" = entry.get "command" := by
  rw [Told, not_or, not_not] at untold
  obtain ⟨rfl, absent⟩ := untold
  -- An absent command reads as the empty one, which is the one that is wanted.
  have current : ((entry.get "command").bind Item.asStr).getD [] = [] := by
    cases found : (entry.get "command").bind Item.asStr with
    | none => rfl
    | some text => exact absurd ⟨text, asStr_iff.mp found⟩ absent
  simp only [updateServer, current, ne_eq, not_true_eq_false, if_false]
  split
  · rfl
  · exact get_insert_ne (by decide) _ _

/-- What stands at the key of the server after it was registered, and whether it has changed. -/
def registered (bridge : List Char) : Option Item → Form × Table × Bool
  | none => (.standard, newServer bridge, true)
  | some item =>
    match item.asTable with
    | none => (.standard, newServer bridge, true)
    | some (form, entry) => (form, updateServer bridge entry)

/-- The server is registered if the table of all servers can be changed. -/
theorem upsertServer_eq (top : doc.enter "mcp_servers" = some (form, servers))
    (bridge : List UInt8) :
    upsertServer bridge doc =
      let (own, entry, flag) := registered (Text.decodeLossy bridge) (servers.get serverName)
      .ok (doc.insert "mcp_servers" (.table form (servers.insert serverName (.table own entry))),
        flag) := by
  apply within_ok top
  -- An entry that is absent and one that is no table are both made anew.
  cases servers.get serverName with
  | none => rfl
  | some item =>
    dsimp only
    cases item.asTable with
    | none => rfl
    | some one => rfl

end McpCli.Codex
