import McpCli.Bridge.Mcp
import McpCli.Bridge.Served

/-! What a client of the bridge is to get: what the methods return, as if it called them itself. -/

namespace McpCli

/-- What is done for a line. -/
inductive Errand where
  | write (messages : List Json)
  /-- A method is called for the message of this number. -/
  | call (number : Json) (method : String) (args : Json)

/-- What a message of this number asks for. -/
def errandOf (texts : McpTexts) (number : Json) (method : String) (params : Json) : Errand :=
  match method with
  | "initialize" =>
    let serverInfo : Json :=
      .object [("name", .string "mcp-cli-bridge"), ("version", .string "0.1.0")]
    .write [resultMessage number <| .object
      [("protocolVersion", .string "2024-11-05"),
        ("capabilities", .object [("tools", .object [])]),
        ("serverInfo", serverInfo)]]
  | "tools/list" => .write [resultMessage number (.object [("tools", texts.toolDefinitions)])]
  | "tools/call" =>
    match (params.get "name").bind Json.asStr with
    | none => .write [errorMessage number (-32000) "missing tool name"]
    | some name =>
      match daemonMethods.find? fun entry => entry.1 = name with
      | none => .write [errorMessage number (-32000) s!"unknown tool: {name}"]
      | some (_, method) => .call number method ((params.get "arguments").getD (.object []))
  | "ping" => .write [resultMessage number (.object [])]
  | other => .write [errorMessage number (-32000) s!"method not supported: {other}"]

/-- What a line asks for. -/
def errand (texts : McpTexts) (line : List Char) : Errand :=
  if Text.trim line = [] then .write []
  else
    match texts.fromStr line with
    | .error e => .write [errorMessage .null (-32700) s!"parse error: {e}"]
    | .ok req =>
      let number := (req.get "id").getD .null
      let method := ((req.get "method").bind Json.asStr).getD ""
      if number.isNull ∧ "notifications/".toList.isPrefixOf method.toList then .write []
      else errandOf texts number method ((req.get "params").getD .null)

/-- The message with what a method has returned. -/
def toolMessage (texts : McpTexts) (number : Json) : Except CallError Json → Json
  | .error e => errorMessage number (-32000) (texts.describe e)
  | .ok value =>
    let content : Json :=
      .object [("type", .string "text"), ("text", .string (texts.toStringPretty value))]
    resultMessage number (.object [("content", .array [content]), ("isError", .bool false)])

section
variable {State : Type} (serde : Serde Json) (methods : Methods State Json)

/-- One attempt, on a stream that is alive or not, and what it makes of the daemon's state. -/
inductive Attempted (st : State) (req : Request Json) :
    Bool → Except CallError Json → State → Bool → Prop
  /-- Nothing is sent of a request that is too large. -/
  | refused {alive} (large : 2 ^ 32 ≤ (serde.toVec req).length) :
      Attempted st req alive (.error .requestTooLarge) st alive
  /-- The daemon has left the stream before. -/
  | stale {kind : ErrorKind} (lost : kind.looksLikeDisconnect = true)
      (fits : (serde.toVec req).length < 2 ^ 32) :
      Attempted st req false (.error (.io kind)) st false
  /-- The daemon reads the length, and leaves. -/
  | cut {kind : ErrorKind} (lost : kind.looksLikeDisconnect = true)
      (fits : (serde.toVec req).length < 2 ^ 32) (large : maxFrame < (serde.toVec req).length) :
      Attempted st req true (.error (.io kind)) st false
  | panicked {kind : ErrorKind} {next} (lost : kind.looksLikeDisconnect = true)
      (small : (serde.toVec req).length ≤ maxFrame) (executed : methods st req = (next, none)) :
      Attempted st req true (.error (.io kind)) next false
  | answered {next outcome} (small : (serde.toVec req).length ≤ maxFrame)
      (executed : methods st req = (next, some outcome)) :
      Attempted st req true (outcome.mapError .daemon) next true

/-- A call: after an attempt that was lost there is one more, under the next number. -/
inductive Executed (st : State) (id : Nat) (method : String) (args : Json) (alive : Bool) :
    Except CallError Json → State → Nat → Bool → Prop
  | once {outcome next alive'}
      (attempt : Attempted serde methods st { id, method, params := args } alive outcome next
        alive')
      (kept : ∀ e, outcome = .error e → e.looksLikeDisconnect = false) :
      Executed st id method args alive outcome next (id + 1) alive'
  | again {e middle alive' outcome next alive''}
      (first : Attempted serde methods st { id, method, params := args } alive (.error e) middle
        alive')
      (lost : e.looksLikeDisconnect = true)
      (second : Attempted serde methods middle { id := id + 1, method, params := args } true
        outcome next alive'') :
      Executed st id method args alive outcome next (id + 2) alive''

/-- What is written for some lines, when the methods are called one after the other. -/
inductive Conversation (texts : McpTexts) :
    State → Nat → Bool → List (List Char) → List (List Json) → State → Prop
  | nil {st id alive} : Conversation texts st id alive [] [] st
  | write {st id alive line messages rest later last}
      (asked : errand texts line = .write messages)
      (onward : Conversation texts st id alive rest later last) :
      Conversation texts st id alive (line :: rest) (messages :: later) last
  | call {st id alive line number method args outcome next id' alive' rest later last}
      (asked : errand texts line = .call number method args)
      (executed : Executed serde methods st id method args alive outcome next id' alive')
      (onward : Conversation texts next id' alive' rest later last) :
      Conversation texts st id alive (line :: rest) ([toolMessage texts number outcome] :: later)
        last

end

end McpCli
