import McpCli.Text.Lossy
import McpCli.Toml.Data

/-! The registration of the server in the configuration of Codex. -/

namespace McpCli.Codex

open Toml

/-- The key of the server. -/
def serverName : String := "mcp-cli"

/-- The tools that are approved when they are to be preferred. -/
def mcpCliTools : List String :=
  ["fs_read", "fs_read_batch", "fs_snapshot", "fs_changes", "fs_scan", "git_status",
    "search_grep", "code_outline", "code_outline_batch", "code_symbols", "code_symbols_batch",
    "metrics_gain", "metrics_tool_latency"]

/-- A text as a value. -/
def stringItem (text : List Char) : Item := .leaf (.string text)

/-- No items. -/
def emptyArray : Item := .leaf (.array [])

/-- Change the table of all servers, which is there afterwards. -/
def mcpServersTable {β : Type} (doc : Table) (change : Table → Except String (Table × β)) :
    Except String (Table × β) :=
  doc.within "mcp_servers" "just-inserted mcp_servers must be a table" change

/-- A new entry. -/
def newServer (bridge : List Char) : Table :=
  Table.insert (Table.insert [] "command" (stringItem bridge)) "args" emptyArray

/-- An entry in which only what has to be is changed, and whether anything was. -/
def updateServer (bridge : List Char) (entry : Table) : Table × Bool :=
  let currentCmd := ((entry.get "command").bind Item.asStr).getD []
  let (entry, changed) :=
    if currentCmd ≠ bridge then (entry.insert "command" (stringItem bridge), true)
    else (entry, false)
  -- Arguments that are there are the user's own.
  if entry.containsKey "args" then (entry, changed) else (entry.insert "args" emptyArray, true)

/-- Register the server, whose executable is at the end of a path. -/
def upsertServer (bridge : List UInt8) (doc : Table) : Except String (Table × Bool) :=
  let bridge := Text.decodeLossy bridge
  mcpServersTable doc fun servers =>
    match servers.get serverName with
    | none => .ok (servers.insert serverName (.table .standard (newServer bridge)), true)
    | some item =>
      match item.asTable with
      -- What is stored there is no table, and is replaced.
      | none => .ok (servers.insert serverName (.table .standard (newServer bridge)), true)
      | some (form, entry) =>
        let (entry, changed) := updateServer bridge entry
        .ok (servers.insert serverName (.table form entry), changed)

/-- Approve one tool. -/
def approve (tools : Table) (tool : String) : Except String (Table × Bool) :=
  tools.within tool "tool entry must be a table" fun entry =>
    if (entry.get "approval_mode").bind Item.asStr = some "approve".toList then .ok (entry, false)
    else .ok (entry.insert "approval_mode" (stringItem "approve".toList), true)

/-- Approve one tool after the other. -/
def approveAll (tools : Table) : List String → Except String (Table × Bool)
  | [] => .ok (tools, false)
  | tool :: rest =>
    match approve tools tool with
    | .error e => .error e
    | .ok (tools, one) =>
      match approveAll tools rest with
      | .error e => .error e
      | .ok (tools, others) => .ok (tools, one || others)

/-- Approve the tools of the server. -/
def upsertToolApprovals (tools : List String) (doc : Table) : Except String (Table × Bool) :=
  mcpServersTable doc fun servers =>
    match (servers.get serverName).bind Item.asTable with
    | none => .ok (servers, false)
    | some (form, server) =>
      match server.within "tools" "just-inserted tools must be a table" fun toolsTbl =>
        approveAll toolsTbl tools with
      | .error e => .error e
      | .ok (server, changed) => .ok (servers.insert serverName (.table form server), changed)

/-- Switch the shell off. -/
def upsertDisableShellTool (doc : Table) : Except String (Table × Bool) :=
  doc.within "features" "just-inserted features must be a table" fun features =>
    if (features.get "shell_tool").bind Item.asBool = some false then .ok (features, false)
    else .ok (features.insert "shell_tool" (.leaf (.boolean false)), true)

/-- Take the server out again, and tell whether it was there. -/
def removeServer (doc : Table) : Table × Bool :=
  match (doc.get "mcp_servers").bind Item.asTable with
  | none => (doc, false)
  | some (form, servers) =>
    let removed := servers.containsKey serverName
    let servers := servers.remove serverName
    if removed ∧ servers.isEmpty then (doc.remove "mcp_servers", removed)
    else (doc.insert "mcp_servers" (.table form servers), removed)

/-- Register the server, approve some tools and switch the shell off. -/
def prefer (tools : List String) (bridge : List UInt8) (doc : Table) :
    Except String (Table × Bool) :=
  match upsertServer bridge doc with
  | .error e => .error e
  | .ok (doc, server) =>
    match upsertToolApprovals tools doc with
    | .error e => .error e
    | .ok (doc, approvals) =>
      match upsertDisableShellTool doc with
      | .error e => .error e
      | .ok (doc, shell) => .ok (doc, server || approvals || shell)

/-- What is written when the server is installed, if anything has changed. -/
def install (bridge : List UInt8) (preferMcp : Bool) (doc : Table) : Except String (Option Table) :=
  match if preferMcp then prefer mcpCliTools bridge doc else upsertServer bridge doc with
  | .error e => .error e
  | .ok (doc, changed) => .ok (if changed then some doc else none)

end McpCli.Codex
