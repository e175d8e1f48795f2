import McpCli.Bridge.DaemonClient
import McpCli.Protocol.JsonText
import McpCli.Text.Words

/-! The bridge's server: messages of the client line by line, and what is written in return. -/

namespace McpCli

namespace Json

/-- The member of a key, if the value is an object and has one. -/
def get : Json → String → Option Json
  | .object members, key => (members.find? fun entry => entry.1 = key).map Prod.snd
  | _, _ => none

/-- The text that a value is. -/
def asStr : Json → Option String
  | .string text => some text
  | _ => none

/-- Whether a value is `null`. -/
def isNull : Json → Bool
  | .null => true
  | _ => false

end Json

/-- The tools, and the methods of the daemon that they are. -/
def daemonMethods : List (String × String) :=
  [("fs_read", "fs.read"),
    ("fs_read_batch", "fs.read_batch"),
    ("fs_apply_patch", "fs.apply_patch"),
    ("fs_replace_all", "fs.replace_all"),
    ("fs_snapshot", "fs.snapshot"),
    ("fs_changes", "fs.changes"),
    ("fs_scan", "fs.scan"),
    ("git_status", "git.status"),
    ("git_log", "git.log"),
    ("git_diff", "git.diff"),
    ("git_blame", "git.blame"),
    ("git_history", "git.history"),
    ("search_grep", "search.grep"),
    ("code_outline", "code.outline"),
    ("code_outline_batch", "code.outline_batch"),
    ("code_symbols", "code.symbols"),
    ("code_symbols_batch", "code.symbols_batch"),
    ("code_imports", "code.imports"),
    ("code_dependencies", "code.dependencies"),
    ("code_find_occurrences", "code.find_occurrences"),
    ("fs_read_skeleton", "fs.read_skeleton"),
    ("tool_run", "tool.run"),
    ("tool_gh", "tool.gh"),
    ("tool_spawn", "tool.spawn"),
    ("tool_read_logs", "tool.read_logs"),
    ("tool_kill", "tool.kill"),
    ("metrics_gain", "metrics.gain"),
    ("metrics_tool_latency", "metrics.tool_latency"),
    ("pipe", "pipe")]

/-- What is written in return when there is a result. -/
def resultMessage (id result : Json) : Json :=
  .object [("jsonrpc", .string "2.0"), ("id", id), ("result", result)]

/-- What is written in return when something failed. -/
def errorMessage (id : Json) (code : Int) (message : String) : Json :=
  .object
    [("jsonrpc", .string "2.0"),
      ("id", id),
      ("error", .object [("code", .number (toString code)), ("message", .string message)])]

/-- What the server is made of besides the connection: the JSON library, and its own texts. -/
structure McpTexts where
  fromStr : List Char → Except String Json
  toStringPretty : Json → String
  /-- An error of a call as it is told to the client. -/
  describe : CallError → String
  toolDefinitions : Json

/-- Something that is done for one message, with the daemon as far as it is needed. -/
abbrev Exchange (World Stream α : Type) := Option (α × DaemonClient World Stream)

section

variable {World Stream : Type} (texts : McpTexts) (serde : Serde Json)
  (transport : Transport World Stream)

/-- Call a tool of the daemon. -/
def toolsCall (params : Json) (client : DaemonClient World Stream) :
    Exchange World Stream (Except String Json) :=
  match (params.get "name").bind Json.asStr with
  | none => some (.error "missing tool name", client)
  | some name =>
    let args := (params.get "arguments").getD (.object [])
    match daemonMethods.find? fun entry => entry.1 = name with
    | none => some (.error s!"unknown tool: {name}", client)
    | some (_, daemonMethod) =>
      match call serde transport daemonMethod args client with
      | none => none
      | some (.error e, client) => some (.error (texts.describe e), client)
      | some (.ok daemonResult, client) =>
        let content : Json := .object
          [("type", .string "text"), ("text", .string (texts.toStringPretty daemonResult))]
        some (.ok (.object [("content", .array [content]), ("isError", .bool false)]), client)

/-- Do what a message asks for. -/
def handle (method : String) (params : Json) (client : DaemonClient World Stream) :
    Exchange World Stream (Except String Json) :=
  match method with
  | "initialize" =>
    let serverInfo : Json :=
      .object [("name", .string "mcp-cli-bridge"), ("version", .string "0.1.0")]
    let result : Json := .object
      [("protocolVersion", .string "2024-11-05"),
        ("capabilities", .object [("tools", .object [])]),
        ("serverInfo", serverInfo)]
    some (.ok result, client)
  | "tools/list" => some (.ok (.object [("tools", texts.toolDefinitions)]), client)
  | "tools/call" => toolsCall texts serde transport params client
  | "ping" => some (.ok (.object []), client)
  | other => some (.error s!"method not supported: {other}", client)

/-- What is written for a line. -/
def respond (line : List Char) (client : DaemonClient World Stream) :
    Exchange World Stream (List Json) :=
  if Text.trim line = [] then some ([], client)
  else
    match texts.fromStr line with
    | .error e => some ([errorMessage .null (-32700) s!"parse error: {e}"], client)
    | .ok req =>
      let id := (req.get "id").getD .null
      let method := ((req.get "method").bind Json.asStr).getD ""
      let params := (req.get "params").getD .null
      -- A message with the number `null` is taken for one without a number.
      if id.isNull ∧ "notifications/".toList.isPrefixOf method.toList then some ([], client)
      else
        match handle texts serde transport method params client with
        | none => none
        | some (.ok result, client) => some ([resultMessage id result], client)
        | some (.error e, client) => some ([errorMessage id (-32000) e], client)

/-- What is written for one line after the other, until the daemon does not answer any more. -/
def runLoop (client : DaemonClient World Stream) : List (List Char) → List (List Json)
  | [] => []
  | line :: rest =>
    match respond texts serde transport line client with
    | none => []
    | some (written, client) => written :: runLoop client rest

end

end McpCli
