import McpCli.Bridge.Mcp
import McpCli.Daemon.Connection
import McpCli.Text.Utf8

/-! What the bridge and the daemon write to each other: requests and responses as JSON texts. -/

namespace McpCli

open Text

/-- The third-party JSON library, as far as it reads. -/
structure JsonReader where
  fromSlice : List UInt8 → Except String Json
  /-- What it says of a value that is not one of the type asked for. -/
  unexpected : Json → String

namespace Json

/-- An unsigned number of 64 bits. -/
def ofU64 (n : Nat) : Json := .number (String.ofList (decimal n))

/-- The unsigned number of 64 bits that a value is. -/
def asU64 : Json → Option Nat
  | .number text => parseUsize text.toList
  | _ => none

/-- A signed number of 32 bits. -/
def ofI32 (n : Int) : Json :=
  .number (String.ofList (if n < 0 then '-' :: decimal n.natAbs else decimal n.natAbs))

/-- The signed number of 32 bits that a value is. -/
def asI32 : Json → Option Int
  | .number text =>
    match text.toList with
    | '-' :: digits =>
      (parseUsize digits).bind fun n => if 0 < n ∧ n ≤ 2 ^ 31 then some (-n) else none
    | digits => (parseUsize digits).bind fun n => if n < 2 ^ 31 then some n else none
  | _ => none

/-- A value that may be missing, which `null` stands for as well. -/
def asOption : Option Json → Option Json
  | none | some .null => none
  | some value => some value

end Json

/-- A request as a value. -/
def Request.toJson (req : Request Json) : Json :=
  .object [("id", .ofU64 req.id), ("method", .string req.method), ("params", req.params)]

/-- The request that a value is; the members of a structure may come as an array, too. -/
def Request.ofJson : Json → Option (Request Json)
  | .object members => do
    let id ← ((Json.object members).get "id").bind Json.asU64
    let method ← ((Json.object members).get "method").bind Json.asStr
    -- Only the parameters may be missing.
    some { id, method, params := ((Json.object members).get "params").getD .null }
  | .array [id, method] => do
    some { id := ← id.asU64, method := ← method.asStr, params := .null }
  | .array [id, method, params] => do
    some { id := ← id.asU64, method := ← method.asStr, params }
  | _ => none

/-- An error as a value. -/
def RpcError.toJson (error : RpcError) : Json :=
  .object [("code", .ofI32 error.code), ("message", .string error.message)]

/-- The error that a value is. -/
def RpcError.ofJson : Json → Option RpcError
  | .object members => do
    let code ← ((Json.object members).get "code").bind Json.asI32
    let message ← ((Json.object members).get "message").bind Json.asStr
    some { code, message }
  | .array [code, message] => do some { code := ← code.asI32, message := ← message.asStr }
  | _ => none

/-- A response as a value; what there is not of it is left out. -/
def Response.toJson (resp : Response Json) : Json :=
  .object <| ("id", .ofU64 resp.id) ::
    ((resp.result.toList.map fun result => ("result", result)) ++
      resp.error.toList.map fun error => ("error", error.toJson))

/-- A response with these members; an error has to be one if it is there. -/
def Response.ofMembers (id : Json) (result error : Option Json) : Option (Response Json) := do
  let id ← id.asU64
  match Json.asOption error with
  | none => some { id, result := Json.asOption result, error := none }
  | some error => do
    some { id, result := Json.asOption result, error := some (← RpcError.ofJson error) }

/-- The response that a value is. -/
def Response.ofJson : Json → Option (Response Json)
  | .object members => do
    Response.ofMembers (← (Json.object members).get "id") ((Json.object members).get "result")
      ((Json.object members).get "error")
  | .array [id, result, error] => Response.ofMembers id (some result) (some error)
  | _ => none

/-- How the bridge writes and reads. -/
def bridgeSerde (reader : JsonReader) : Serde Json where
  toVec req := encodeUtf8 req.toJson.write
  fromSlice bytes :=
    match reader.fromSlice bytes with
    | .ok value => Response.ofJson value
    | .error _ => none
  null := .null

/-- How the daemon reads and writes. -/
def daemonSerde (reader : JsonReader) : DaemonSerde Json where
  fromSlice bytes :=
    match reader.fromSlice bytes with
    | .ok value =>
      match Request.ofJson value with
      | some req => .ok req
      | none => .error (reader.unexpected value)
    | .error e => .error e
  toWriter resp := encodeUtf8 resp.toJson.write

/-- The library reads a number as one that it writes in the same way. -/
def JsonReader.ReadsNumber (reader : JsonReader) (text : String) : Prop :=
  reader.fromSlice (encodeUtf8 text.toList) = .ok (.number text)

mutual

/--
A value that the library has a text for which it reads as the value again: its numbers are read as
they are written, its keys are in the order of the library's maps, and it goes only so deep.
-/
def Json.Sound (reader : JsonReader) (levels : Nat) : Json → Prop
  | .number text => (Json.number text).Formed ∧ reader.ReadsNumber text
  | .array items => 0 < levels ∧ Json.SoundItems reader (levels - 1) items
  | .object members =>
    0 < levels ∧ (members.map Prod.fst).Pairwise (· < ·) ∧
      Json.SoundMembers reader (levels - 1) members
  | _ => True

/-- Some items that are such values. -/
def Json.SoundItems (reader : JsonReader) (levels : Nat) : List Json → Prop
  | [] => True
  | item :: rest => item.Sound reader levels ∧ Json.SoundItems reader levels rest

/-- Some members with such values. -/
def Json.SoundMembers (reader : JsonReader) (levels : Nat) : List (String × Json) → Prop
  | [] => True
  | (_, value) :: rest => value.Sound reader levels ∧ Json.SoundMembers reader levels rest

end

/-- How deep the values of a text may go. -/
def maxNesting : Nat := 127

/--
What the library reads is what was written: whole numbers of 64 bits, and structures, whose members
may be in any order. Other numbers may be read as ones that are written otherwise.
-/
structure JsonReader.Reads (reader : JsonReader) : Prop where
  whole : ∀ n < 2 ^ 64, reader.ReadsNumber (String.ofList (decimal n))
  negative : ∀ n, 0 < n → n ≤ 2 ^ 63 → reader.ReadsNumber (String.ofList ('-' :: decimal n))
  members : ∀ members, (members.map Prod.fst).Nodup →
    Json.SoundMembers reader (maxNesting - 1) members →
    reader.fromSlice (encodeUtf8 (Json.object members).write) = .ok (.object members)

end McpCli
