import McpCli.Proofs.Cli.Codex

/-! Installations in a configuration, done once and again, and taken back. -/

namespace McpCli.Codex

open Toml Toml.Table

/-- Where the table of the server's tools is. -/
def toolsPath : List String := ["mcp_servers", serverName, "tools"]

/-- The items that are tables, if they are there. -/
def places (names : List String) : List (List String) :=
  ["mcp_servers"] :: ["mcp_servers", serverName] :: toolsPath :: ["features"] ::
    names.map fun tool => toolsPath ++ [tool]

variable {names : List String} {doc servers server entry tools : Table} {form : Form}

/-- The table of all servers and those in it can be changed in place. -/
inductive Opens (names : List String) (doc : Table) : Prop where
  | intro {first own second : Form} {servers entry tools : Table}
      (top : doc.enter "mcp_servers" = some (first, servers))
      (inner : servers.enter serverName = some (own, entry))
      (deep : entry.enter "tools" = some (second, tools))
      (all : ∀ tool ∈ names, (tools.enter tool).isSome)

/-- A table that is absent or written as one can be changed in place. -/
theorem enter_isSome {t : Table} {key : String}
    (there : ∀ item, t.find [key] = some item → item.asTable.isSome) : (t.enter key).isSome := by
  rw [enter]
  -- What is absent is made as a table.
  cases found : t.get key with
  | none => rfl
  | some item =>
    apply there
    rw [find_cons, found]
    rfl

/-- Tables that are absent or written as such can be changed in place. -/
theorem opens_of_find
    (there : ∀ path ∈ places names, ∀ item, doc.find path = some item → item.asTable.isSome) :
    Opens names doc := by
  -- Each table is looked up in the one before it, which has just been entered.
  have one : (doc.enter "mcp_servers").isSome :=
    enter_isSome (there _ (by simp [places]))
  obtain ⟨⟨first, servers⟩, top⟩ := Option.isSome_iff_exists.mp one
  have two : (servers.enter serverName).isSome := by
    apply enter_isSome
    rw [← enter_find top (List.cons_ne_nil _ _)]
    exact there _ (by simp [places])
  obtain ⟨⟨own, entry⟩, inner⟩ := Option.isSome_iff_exists.mp two
  have three : (entry.enter "tools").isSome := by
    apply enter_isSome
    rw [← enter_find inner (List.cons_ne_nil _ _), ← enter_find top (List.cons_ne_nil _ _)]
    exact there _ (by simp [places, toolsPath])
  obtain ⟨⟨second, tools⟩, deep⟩ := Option.isSome_iff_exists.mp three
  refine .intro top inner deep fun tool member => enter_isSome ?_
  rw [← enter_find deep (List.cons_ne_nil _ _), ← enter_find inner (List.cons_ne_nil _ _),
    ← enter_find top (List.cons_ne_nil _ _)]
  exact there _ (by simp [places, toolsPath, member])

/-- What can be approved can be changed in place. -/
theorem Approvable.opens (ready : Approvable names doc) : Opens names doc := by
  obtain ⟨top, found, changeable, inner, all⟩ := ready
  exact .intro top (enter_eq_some.mpr (.inr ⟨found, changeable⟩)) inner all

/-- The writes for the server in the whole document. -/
def serverWrites (bridge : List Char) (missing : Bool) : List Write :=
  behind "mcp_servers" (behind serverName (entryWrites bridge missing))

/-- The arguments of the server. -/
def argsPath : List String := ["mcp_servers", serverName, "args"]

/-- The command of the server. -/
def commandPath : List String := ["mcp_servers", serverName, "command"]

/-- The server can be told from none at all, or is not there. -/
def Settled (bridge : List Char) (doc : Table) : Prop :=
  doc.find ["mcp_servers", serverName] = none ∨ bridge ≠ [] ∨
    ∃ text, doc.look commandPath = some (.leaf (.string text))

/-- The server is registered with its command, and with arguments if it has none. -/
theorem upsertServer_updates {bridge : List UInt8} (opens : Opens names doc)
    (settled : Settled (Text.decodeLossy bridge) doc) :
    ∃ after flag missing, upsertServer bridge doc = .ok (after, flag) ∧
      Updates doc (serverWrites (Text.decodeLossy bridge) missing) after flag ∧
      (missing = true ↔ doc.look argsPath = none) ∧ Approvable names after ∧
      ∀ other, other ≠ "mcp_servers" → after.get other = doc.get other := by
  obtain @⟨first, own, second, servers, entry, tools, top, inner, deep, all⟩ := opens
  -- A new entry is one that had nothing in it before.
  have entered : ∃ changed flag,
      registered (Text.decodeLossy bridge) (servers.get serverName) = (own, changed, flag) ∧
        Updates entry (entryWrites (Text.decodeLossy bridge) (missing entry)) changed flag ∧
        changed.enter "tools" = entry.enter "tools" := by
    rcases enter_eq_some.mp inner with ⟨absent, rfl, rfl⟩ | ⟨found, changeable⟩
    · exact ⟨newServer _, true, by rw [absent]; rfl, newServer_updates _, rfl⟩
    · have told : Told (Text.decodeLossy bridge) entry := by
        rcases settled with absent | some_ | ⟨text, command⟩
        · rw [enter_find top (List.cons_ne_nil _ _), find_cons, found] at absent
          cases absent
        · exact .inl some_
        · refine .inr ⟨text, ?_⟩
          rw [enter_look inner (List.cons_ne_nil _ _), enter_look top (List.cons_ne_nil _ _)]
          exact command
      refine ⟨_, _, ?_, updateServer_updates told, ?_⟩
      · rw [found, registered]
        simp only [asTable_table changeable]
      · rw [enter, enter, get_updateServer (by decide) (by decide)]
  obtain ⟨changed, flag, same, updates, kept⟩ := entered
  have written : (["command"], some (.string (Text.decodeLossy bridge))) ∈
      entryWrites (Text.decodeLossy bridge) (missing entry) := List.mem_cons_self
  have apart : ∀ own ∈ entryWrites (Text.decodeLossy bridge) (missing entry), own.1 ≠ [] := by
    intro own member
    rw [entryWrites] at member
    split at member
    · rcases List.mem_cons.mp member with rfl | other
      · exact List.cons_ne_nil _ _
      · rw [List.mem_singleton.mp other]
        exact List.cons_ne_nil _ _
    · rw [List.mem_singleton.mp member]
      exact List.cons_ne_nil _ _
  have deeper := updates.within inner apart ⟨_, _, written⟩
  refine ⟨_, flag, missing entry, ?_, deeper.within top (behind_ne_nil _ _)
    ⟨_, _, mem_behind.mpr ⟨_, rfl, written⟩⟩, ?_, ?_, fun other away => get_insert_ne away _ _⟩
  · rw [upsertServer_eq top, same]
  · rw [argsPath, ← enter_look top (List.cons_ne_nil _ _), ← enter_look inner (List.cons_ne_nil _ _),
      missing, Bool.not_eq_true', ← Bool.not_eq_true, containsKey_iff, not_not]
  · exact .intro (enter_insert_self (enter_form top) _ _ _) (get_insert_self _ _ _)
      (enter_form inner) (kept.trans deep) all

/-- The mode of a tool of the server. -/
def approvalPath (tool : String) : List String :=
  ["mcp_servers", serverName, "tools", tool, "approval_mode"]

/-- The switch of the shell. -/
def shellPath : List String := ["features", "shell_tool"]

/-- All writes of an installation. -/
def allWrites (bridge : List Char) (missing : Bool) (names : List String) : List Write :=
  serverWrites bridge missing ++ toolWrites names ++ shellWrites

variable {bridge : List Char} {missing : Bool}

/-- The writes of an entry are its command, and its arguments if they are missing. -/
theorem mem_entryWrites {own : Write} :
    own ∈ entryWrites bridge missing ↔
      own = (["command"], some (.string bridge)) ∨
        missing = true ∧ own = (["args"], some (.array [])) := by
  cases missing with
  | true => simp [entryWrites]
  | false => simp [entryWrites]

/-- A write of an installation is of one of four kinds of values, or makes one of the tables. -/
theorem mem_allWrites {own : Write} (member : own ∈ allWrites bridge missing names) :
    own = (commandPath, some (.string bridge)) ∨
      missing = true ∧ own = (argsPath, some (.array [])) ∨
      (∃ tool ∈ names, own = (approvalPath tool, some approvedMode)) ∨
      own = (shellPath, some (.boolean false)) ∨ own.1 ∈ places names ∧ own.2 = none := by
  rw [allWrites, List.mem_append, List.mem_append] at member
  -- At each level, the first write makes the table that the others are in.
  rcases member with (server | tools) | shell
  · rcases mem_behind_iff.mp server with rfl | ⟨_, inner, rfl⟩
    · exact .inr (.inr (.inr (.inr ⟨by simp [places], rfl⟩)))
    · rcases mem_behind_iff.mp inner with rfl | ⟨_, entry, rfl⟩
      · exact .inr (.inr (.inr (.inr ⟨by simp [places], rfl⟩)))
      · rcases mem_entryWrites.mp entry with rfl | ⟨absent, rfl⟩
        · exact .inl rfl
        · exact .inr (.inl ⟨absent, rfl⟩)
  · rcases mem_behind_iff.mp tools with rfl | ⟨_, inner, rfl⟩
    · exact .inr (.inr (.inr (.inr ⟨by simp [places], rfl⟩)))
    · rcases mem_behind_iff.mp inner with rfl | ⟨_, deep, rfl⟩
      · exact .inr (.inr (.inr (.inr ⟨by simp [places], rfl⟩)))
      · rcases mem_behind_iff.mp deep with rfl | ⟨_, approvals, rfl⟩
        · exact .inr (.inr (.inr (.inr ⟨by simp [places, toolsPath], rfl⟩)))
        · obtain ⟨tool, named, one⟩ := List.mem_flatMap.mp approvals
          rcases mem_behind_iff.mp one with rfl | ⟨_, mode, rfl⟩
          · exact .inr (.inr (.inr (.inr ⟨by simp [places, toolsPath, named], rfl⟩)))
          · rw [List.mem_singleton.mp mode]
            exact .inr (.inr (.inl ⟨tool, named, rfl⟩))
  · rcases mem_behind_iff.mp shell with rfl | ⟨_, switch, rfl⟩
    · exact .inr (.inr (.inr (.inr ⟨by simp [places], rfl⟩)))
    · rw [List.mem_singleton.mp switch]
      exact .inr (.inr (.inr (.inl rfl)))

/-- The command is written. -/
theorem command_mem : (commandPath, some (.string bridge)) ∈ serverWrites bridge missing :=
  mem_behind.mpr ⟨_, rfl, mem_behind.mpr ⟨_, rfl, mem_entryWrites.mpr (.inl rfl)⟩⟩

/-- The arguments are written if they are missing. -/
theorem args_mem (absent : missing = true) :
    (argsPath, some (.array [])) ∈ serverWrites bridge missing :=
  mem_behind.mpr ⟨_, rfl, mem_behind.mpr ⟨_, rfl, mem_entryWrites.mpr (.inr ⟨absent, rfl⟩)⟩⟩

/-- The mode of each tool is written. -/
theorem approval_mem {tool : String} (named : tool ∈ names) :
    (approvalPath tool, some approvedMode) ∈ toolWrites names :=
  mem_behind.mpr ⟨_, rfl, mem_behind.mpr ⟨_, rfl, mem_behind.mpr ⟨_, rfl,
    List.mem_flatMap.mpr ⟨tool, named, mem_behind.mpr ⟨_, rfl, List.mem_singleton.mpr rfl⟩⟩⟩⟩⟩

/-- The switch of the shell is written. -/
theorem shell_mem : (shellPath, some (.boolean false)) ∈ shellWrites :=
  mem_behind.mpr ⟨_, rfl, List.mem_singleton.mpr rfl⟩

/-- No table is made beyond a value. -/
theorem places_short {path : List String} (place : path ∈ places names) {value : List String}
    (deep : value = commandPath ∨ value = argsPath ∨ value = shellPath ∨
      ∃ tool, value = approvalPath tool) : ¬ value <+: path := by
  simp only [places, toolsPath, List.mem_cons, List.mem_map] at place
  -- The keys of the tables are too few, or they differ.
  rcases deep with rfl | rfl | rfl | ⟨tool, rfl⟩
  all_goals
    rcases place with rfl | rfl | rfl | rfl | ⟨other, _, rfl⟩
    all_goals simp [commandPath, argsPath, shellPath, approvalPath, serverName]

/-- A value of an installation is of one of four kinds. -/
theorem value_mem_allWrites {path : List String} {value : Leaf}
    (member : (path, some value) ∈ allWrites bridge missing names) :
    path = commandPath ∧ value = .string bridge ∨
      (missing = true ∧ path = argsPath ∧ value = .array []) ∨
      (∃ tool ∈ names, path = approvalPath tool ∧ value = approvedMode) ∨
      path = shellPath ∧ value = .boolean false := by
  rcases mem_allWrites member with same | ⟨absent, same⟩ | ⟨tool, named, same⟩ | same | ⟨_, none_⟩
  · cases same
    exact .inl ⟨rfl, rfl⟩
  · cases same
    exact .inr (.inl ⟨absent, rfl, rfl⟩)
  · cases same
    exact .inr (.inr (.inl ⟨tool, named, rfl, rfl⟩))
  · cases same
    exact .inr (.inr (.inr ⟨rfl, rfl⟩))
  · -- What makes a table writes no value.
    cases none_

/-- No write of an installation takes back another one. -/
theorem compatible_allWrites : Data.Compatible (allWrites bridge missing names) := by
  intro path value member ⟨otherPath, otherValue⟩ another long
  cases otherValue with
  | none =>
    rcases mem_allWrites another with same | ⟨_, same⟩ | ⟨_, _, same⟩ | same | ⟨place, _⟩
    · cases same
    · cases same
    · cases same
    · cases same
    · refine absurd long (places_short place ?_)
      rcases value_mem_allWrites member with own | own | ⟨tool, _, own⟩ | own
      · exact .inl own.1
      · exact .inr (.inl own.2.1)
      · exact .inr (.inr (.inr ⟨tool, own.1⟩))
      · exact .inr (.inr (.inl own.1))
  | some otherValue =>
    -- Of the values, none is at a path that leads to another one.
    rcases value_mem_allWrites member with
      ⟨rfl, rfl⟩ | ⟨_, rfl, rfl⟩ | ⟨tool, _, rfl, rfl⟩ | ⟨rfl, rfl⟩
    all_goals
      rcases value_mem_allWrites another with
        ⟨rfl, rfl⟩ | ⟨_, rfl, rfl⟩ | ⟨other, _, rfl, rfl⟩ | ⟨rfl, rfl⟩
      all_goals simp [commandPath, argsPath, approvalPath, shellPath] at long
    · rfl
    · rfl
    · rw [long]
    · rfl

/-- Nor does one of a part of them. -/
theorem compatible_part {part : List Write}
    (within : ∀ own ∈ part, own ∈ allWrites bridge missing names) : Data.Compatible part :=
  fun path value member other another long =>
    compatible_allWrites path value (within _ member) other (within _ another) long

/-- The steps of an installation, one after the other. -/
structure Installs (names : List String) (bridge : List UInt8) (doc : Table)
    (one two three : Table × Bool) : Prop where
  server : upsertServer bridge doc = .ok one
  approvals : upsertToolApprovals names one.1 = .ok two
  shell : upsertDisableShellTool two.1 = .ok three

/-- What a document is like from which the server has been removed. -/
structure Removed (before after : Table) : Prop where
  gone : after.look ["mcp_servers", serverName] = none
  servers : ∀ name, name ≠ serverName → ∀ p,
    after.look ("mcp_servers" :: name :: p) = before.look ("mcp_servers" :: name :: p)
  others : ∀ key, key ≠ "mcp_servers" → ∀ p, after.look (key :: p) = before.look (key :: p)
  /-- The table of all servers goes away with the last of them. -/
  emptied : after.look ["mcp_servers"] = none ↔
    ∀ name, name ≠ serverName → before.look ["mcp_servers", name] = none

/-- A server that is there is removed, and nothing else is. -/
theorem removeServer_removed (ready : Approvable names doc) :
    (removeServer doc).2 = true ∧ Removed doc (removeServer doc).1 := by
  obtain @⟨first, form, second, servers, server, tools, top, found, _, _, _⟩ := ready
  have there : doc.get "mcp_servers" = some (.table first servers) := by
    rcases enter_eq_some.mp top with ⟨_, _, rfl⟩ | ⟨there, _⟩
    · cases found
    · exact there
  have contained : servers.containsKey serverName = true := by
    rw [containsKey, found]
    rfl
  have below (name : String) (p : List String) :
      doc.look ("mcp_servers" :: name :: p) = servers.look (name :: p) :=
    (enter_look top (List.cons_ne_nil name p)).symm
  -- The table of all servers is empty if no other one was in it.
  have empty : (servers.remove serverName).isEmpty = true ↔
      ∀ name, name ≠ serverName → doc.look ["mcp_servers", name] = none := by
    rw [List.isEmpty_iff, eq_nil_iff]
    constructor
    · intro nothing name apart
      rw [below, look_single, ← get_remove_ne apart, nothing]
      rfl
    · intro nothing name
      by_cases same : name = serverName
      · rw [same, get_remove_self]
      · have absent := nothing name same
        rw [below, look_single, Option.map_eq_none_iff] at absent
        rw [get_remove_ne same, absent]
  have removed : removeServer doc =
      if (servers.remove serverName).isEmpty then (doc.remove "mcp_servers", true)
      else (doc.insert "mcp_servers" (.table first (servers.remove serverName)), true) := by
    simp only [removeServer, there, Option.bind_some, asTable_table (enter_form top), contained,
      true_and]
  rw [removed]
  split
  · rename_i last
    refine ⟨rfl, look_remove_self _ _ _, fun name apart p => ?_, fun key apart p =>
      look_remove_ne apart _ _, iff_of_true (look_remove_self _ _ _) (empty.mp last)⟩
    -- Of another server there was nothing before.
    have nothing := empty.mp last name apart
    have absent : doc.look ("mcp_servers" :: name :: p) = none := by
      rw [below, look_single, Option.map_eq_none_iff] at nothing
      rw [below, look, find_cons, nothing]
      rfl
    rw [absent]
    exact look_remove_self _ _ _
  · rename_i more
    refine ⟨rfl, ?_, fun name apart p => ?_, fun key apart p => look_insert_ne apart _ _ _, ?_⟩
    · rw [look_insert_self, look_table]
      exact look_remove_self _ _ _
    · rw [look_insert_self, look_table, look_remove_ne apart, below]
    · refine iff_of_false ?_ fun nothing => more (empty.mpr nothing)
      rw [look_insert_self, look_table]
      exact Option.some_ne_none _

/-- Where a write is made, as far as its first keys tell. -/
theorem allWrites_place {own : Write} (member : own ∈ allWrites bridge missing names) :
    own = (["mcp_servers"], none) ∨ ["mcp_servers", serverName] <+: own.1 ∨
      own = (["features"], none) ∨ own = (shellPath, some (.boolean false)) := by
  obtain ⟨path, value⟩ := own
  rcases mem_allWrites member with same | ⟨_, same⟩ | ⟨tool, _, same⟩ | same | ⟨place, none_⟩
  · -- All values but the switch of the shell are in the entry of the server.
    cases same
    exact .inr (.inl ⟨_, rfl⟩)
  · cases same
    exact .inr (.inl ⟨_, rfl⟩)
  · cases same
    exact .inr (.inl ⟨_, rfl⟩)
  · exact .inr (.inr (.inr same))
  · simp only [places, List.mem_cons, List.mem_map] at place none_
    subst none_
    rcases place with rfl | rfl | rfl | rfl | ⟨tool, _, rfl⟩
    · exact .inl rfl
    · exact .inr (.inl (List.prefix_refl _))
    · exact .inr (.inl ⟨_, rfl⟩)
    · exact .inr (.inr (.inl rfl))
    · exact .inr (.inl ⟨_, rfl⟩)

/-- Other servers are as they were. -/
theorem other_server {name : String} (apart : name ≠ serverName) (p : List String)
    {d after : Data} (wrote : Data.Wrote d (allWrites bridge missing names) after) :
    after ("mcp_servers" :: name :: p) = d ("mcp_servers" :: name :: p) := by
  -- A path of the server has its name in the second place.
  have second {path : List String} (own : ["mcp_servers", serverName] <+: path) :
      ¬ path <+: "mcp_servers" :: name :: p ∧ ¬ "mcp_servers" :: name :: p <+: path := by
    obtain ⟨rest, rfl⟩ := own
    simp only [List.cons_append, List.cons_prefix_cons, true_and, not_and]
    exact ⟨fun same => absurd same.symm apart, fun same => absurd same apart⟩
  apply wrote.elsewhere
  · intro path value member beyond
    rcases allWrites_place member with same | own | same | same
    · cases same
    · exact (second own).1 beyond
    · cases same
    · cases same
      exact absurd (List.cons_prefix_cons.mp beyond).1 (by decide)
  · intro path value member before
    rcases allWrites_place member with same | own | same | same
    · cases same
      exact absurd (List.cons_prefix_cons.mp before).2 (by simp)
    · exact (second own).2 before
    · cases same
      exact absurd (List.cons_prefix_cons.mp before).1 (by decide)
    · cases same
      exact absurd (List.cons_prefix_cons.mp before).1 (by decide)

/-- And so is what is neither a server nor a feature. -/
theorem other_key {key : String} (server : key ≠ "mcp_servers") (feature : key ≠ "features")
    (p : List String) {d after : Data}
    (wrote : Data.Wrote d (allWrites bridge missing names) after) :
    after (key :: p) = d (key :: p) := by
  apply wrote.elsewhere
  · -- All writes have one of the two keys in the first place.
    intro path value member beyond
    rcases allWrites_place member with same | ⟨rest, same⟩ | same | same
    · cases same
    · subst same
      exact server (List.cons_prefix_cons.mp beyond).1.symm
    · cases same
    · cases same
      exact feature (List.cons_prefix_cons.mp beyond).1.symm
  · intro path value member before
    rcases allWrites_place member with same | ⟨rest, same⟩ | same | same
    · cases same
      exact server (List.cons_prefix_cons.mp before).1
    · subst same
      exact server (List.cons_prefix_cons.mp before).1
    · cases same
      exact feature (List.cons_prefix_cons.mp before).1
    · cases same
      exact feature (List.cons_prefix_cons.mp before).1

/-- The bytes of a path that is not empty are shown as some text. -/
theorem decodeLossy_ne_nil {bytes : List UInt8} (some_ : bytes ≠ []) :
    Text.decodeLossy bytes ≠ [] := by
  obtain ⟨first, rest, rfl⟩ := List.exists_cons_of_ne_nil some_
  rw [Text.decodeLossy_cons]
  exact List.cons_ne_nil _ _

/-- The three steps, where all tables can be changed in place. -/
theorem installs {names : List String} {bridge : List UInt8} (opens : Opens names doc)
    (features : (doc.enter "features").isSome) (settled : Settled (Text.decodeLossy bridge) doc) :
    ∃ one two three missing, Installs names bridge doc one two three ∧
      Updates doc (serverWrites (Text.decodeLossy bridge) missing) one.1 one.2 ∧
      (names ≠ [] → Updates one.1 (toolWrites names) two.1 two.2) ∧
      Updates two.1 shellWrites three.1 three.2 ∧
      three.1.look = Data.writes doc.look (allWrites (Text.decodeLossy bridge) missing names) ∧
      (missing = true ↔ doc.look argsPath = none) ∧ Approvable names three.1 ∧
      (three.1.enter "features").isSome := by
  obtain ⟨one, first, missing, registered, server, absent, ready, kept⟩ :=
    upsertServer_updates opens settled
  obtain ⟨two, second, approved, look, approvals, ready, kept'⟩ := upsertToolApprovals_ok ready
  -- Neither of the first two steps touches the features.
  have same : two.enter "features" = doc.enter "features" := by
    rw [enter, enter, kept' _ (by decide), kept _ (by decide)]
  rw [← same] at features
  obtain ⟨⟨form, entries⟩, entered⟩ := Option.isSome_iff_exists.mp features
  obtain ⟨three, third, switched, shell, still, kept''⟩ := upsertDisableShellTool_updates entered
  refine ⟨(one, first), (two, second), (three, third), missing, ⟨registered, approved, switched⟩,
    server, approvals, shell, ?_, absent, ?_, still⟩
  · show three.look = _
    rw [shell.look, look, server.look, allWrites]
    simp only [Data.writes, List.foldl_append]
  · -- The servers are not touched any more.
    obtain ⟨top, found, changeable, inner, all⟩ := ready
    have same : three.enter "mcp_servers" = two.enter "mcp_servers" := by
      rw [enter, enter, kept'' _ (by decide)]
    exact .intro (same.trans top) found changeable inner all

/-- The values of an installation with arguments are there after one without them, too. -/
theorem value_there {d after : Data} (wrote : Data.Wrote d (allWrites bridge missing names) after)
    {path : List String} {value : Leaf}
    (member : (path, some value) ∈ allWrites bridge false names) :
    after path = some (.leaf value) := by
  apply wrote.value
  rw [allWrites, List.mem_append, List.mem_append]
  rcases value_mem_allWrites member with
    ⟨rfl, rfl⟩ | ⟨absent, _⟩ | ⟨tool, named, rfl, rfl⟩ | ⟨rfl, rfl⟩
  · exact .inl (.inl command_mem)
  · -- Where there are arguments, none are written.
    cases absent
  · exact .inl (.inr (approval_mem named))
  · exact .inr shell_mem

/-- There are arguments after an installation, whether there were some before or not. -/
theorem args_there {d after : Data} (wrote : Data.Wrote d (allWrites bridge missing names) after)
    (absent : missing = true ↔ d argsPath = none) : after argsPath ≠ none := by
  cases missing with
  | true =>
    rw [wrote.value argsPath (.array [])]
    · exact Option.some_ne_none _
    · exact List.mem_append_left _ (List.mem_append_left _ (args_mem rfl))
  | false =>
    -- Nothing is written where the arguments are.
    rw [wrote.elsewhere argsPath]
    · exact fun none_ => Bool.false_ne_true (absent.mpr none_)
    · intro path value member beyond
      rcases value_mem_allWrites member with ⟨rfl, _⟩ | ⟨absent, _⟩ | ⟨tool, _, rfl, _⟩ | ⟨rfl, _⟩
      · simp [commandPath, argsPath] at beyond
      · cases absent
      · simp [approvalPath, argsPath] at beyond
      · simp [shellPath, argsPath] at beyond
    · intro path value member before
      rcases mem_allWrites member with same | ⟨absent, _⟩ | ⟨tool, _, same⟩ | same | ⟨place, _⟩
      · cases same
        simp [commandPath, argsPath] at before
      · cases absent
      · cases same
        simp [approvalPath, argsPath] at before
      · cases same
        simp [shellPath, argsPath] at before
      · simp only [places, toolsPath, List.mem_cons, List.mem_map] at place
        rcases place with rfl | rfl | rfl | rfl | ⟨tool, _, rfl⟩
        all_goals simp [argsPath] at before

/-- The items are absent, or tables under headers of their own. -/
def Standard (names : List String) (doc : Table) : Prop :=
  ∀ path ∈ places names, ∀ item, doc.find path = some item →
    ∃ entries, item = .table .standard entries

/--
Each step tells whether it has changed something, a second installation changes nothing and tells
so, and removing the server afterwards leaves all but its entry as it is.
-/
theorem install_laws {bridge : List UInt8} (standard : Standard names doc)
    (some_bridge : bridge ≠ []) (some_tool : names ≠ []) :
    ∃ one two three, Installs names bridge doc one two three ∧
      (one.2 = true ↔ one.1.look ≠ doc.look) ∧ (two.2 = true ↔ two.1.look ≠ one.1.look) ∧
      (three.2 = true ↔ three.1.look ≠ two.1.look) ∧
      Installs names bridge three.1 (three.1, false) (three.1, false) (three.1, false) ∧
      (removeServer three.1).2 = true ∧ Removed three.1 (removeServer three.1).1 ∧
      (∀ name, name ≠ serverName → ∀ p, (removeServer three.1).1.look ("mcp_servers" :: name :: p) =
        doc.look ("mcp_servers" :: name :: p)) ∧
      ∀ key, key ≠ "mcp_servers" → key ≠ "features" → ∀ p,
        (removeServer three.1).1.look (key :: p) = doc.look (key :: p) := by
  have changeable : ∀ path ∈ places names, ∀ item, doc.find path = some item →
      item.asTable.isSome := by
    intro path place item found
    obtain ⟨entries, rfl⟩ := standard path place item found
    rfl
  -- A path that is not empty is shown as some text, and can be told from no command.
  have settled (doc : Table) : Settled (Text.decodeLossy bridge) doc :=
    .inr (.inl (decodeLossy_ne_nil some_bridge))
  obtain ⟨one, two, three, missing, steps, server, approvals, shell, look, absent, ready, still⟩ :=
    installs (opens_of_find changeable) (enter_isSome (changeable _ (by simp [places])))
      (settled doc)
  have wrote : Data.Wrote doc.look (allWrites (Text.decodeLossy bridge) missing names)
      three.1.look := by
    rw [look]
    exact Data.wrote_writes compatible_allWrites doc.look
  obtain ⟨removed, after⟩ := removeServer_removed ready
  have compatible {part : List Write}
      (within : ∀ own ∈ part, own ∈ allWrites (Text.decodeLossy bridge) missing names) :
      Data.Compatible part := compatible_part within
  refine ⟨one, two, three, steps, server.changed_iff (compatible ?_),
    (approvals some_tool).changed_iff (compatible ?_), shell.changed_iff (compatible ?_),
    ?_, removed, after, ?_, ?_⟩
  · exact fun own member => List.mem_append_left _ (List.mem_append_left _ member)
  · exact fun own member => List.mem_append_left _ (List.mem_append_right _ member)
  · exact fun own member => List.mem_append_right _ member
  · -- Once more, each value is there already.
    obtain ⟨one', two', three', missing', steps', server', approvals', shell', _, absent', _, _⟩ :=
      installs ready.opens still (settled three.1)
    have present : missing' = false := by
      rw [← Bool.not_eq_true, absent']
      exact args_there wrote absent
    subst present
    obtain ⟨quiet, same⟩ := server'.idle fun path value member =>
      value_there wrote (List.mem_append_left _ (List.mem_append_left _ member))
    obtain ⟨quiet', same'⟩ := (approvals' some_tool).idle fun path value member => by
      rw [same]
      exact value_there wrote (List.mem_append_left _ (List.mem_append_right _ member))
    obtain ⟨quiet'', same''⟩ := shell'.idle fun path value member => by
      rw [same', same]
      exact value_there wrote (List.mem_append_right _ member)
    have one_ : one' = (three.1, false) := Prod.ext same quiet
    have two_ : two' = (three.1, false) := Prod.ext (same'.trans same) quiet'
    have three_ : three' = (three.1, false) := Prod.ext (same''.trans (same'.trans same)) quiet''
    rw [one_, two_, three_] at steps'
    exact steps'
  · intro name apart p
    rw [after.servers name apart p]
    exact other_server apart p wrote
  · intro key other feature p
    rw [after.others key other p]
    exact other_key other feature p wrote

/-- A configuration with another server and another feature. -/
def shared : Table :=
  [("mcp_servers", .table .standard
      [("other", .table .standard [("command", stringItem "y".toList)])]),
    ("features", .table .standard [("web_search", .leaf (.boolean true))])]

/-- The laws of an installation beside another server. -/
theorem install_laws_shared :
    ∃ one two three, Installs ["fs_read"] [0x2F, 0x62] shared one two three ∧
      (one.2 = true ↔ one.1.look ≠ shared.look) ∧ (two.2 = true ↔ two.1.look ≠ one.1.look) ∧
      (three.2 = true ↔ three.1.look ≠ two.1.look) ∧
      Installs ["fs_read"] [0x2F, 0x62] three.1 (three.1, false) (three.1, false) (three.1, false) ∧
      (removeServer three.1).2 = true ∧ Removed three.1 (removeServer three.1).1 ∧
      (∀ name, name ≠ serverName → ∀ p, (removeServer three.1).1.look ("mcp_servers" :: name :: p) =
        shared.look ("mcp_servers" :: name :: p)) ∧
      ∀ key, key ≠ "mcp_servers" → key ≠ "features" → ∀ p,
        (removeServer three.1).1.look (key :: p) = shared.look (key :: p) := by
  have standard : Standard ["fs_read"] shared := by
    intro path place item found
    simp only [places, toolsPath, List.map_cons, List.map_nil, List.mem_cons, List.not_mem_nil,
      or_false] at place
    rcases place with rfl | rfl | rfl | rfl | rfl
    · cases found
      -- Only the servers and the features are there.
      exact ⟨_, rfl⟩
    · cases found
    · cases found
    · cases found
      exact ⟨_, rfl⟩
    · cases found
  exact install_laws standard (List.cons_ne_nil _ _) (List.cons_ne_nil _ _)

end McpCli.Codex
