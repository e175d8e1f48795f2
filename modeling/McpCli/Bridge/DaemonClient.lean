import McpCli.Daemon.Framing
import McpCli.Protocol.Messages

/-! The bridge's connection to the daemon: one call at a time, retried once when it is lost. -/

namespace McpCli

/-- The third-party JSON library. -/
structure Serde (Value : Type) where
  toVec : Request Value → List UInt8
  fromSlice : List UInt8 → Option (Response Value)
  null : Value

/-- What kind of error the operating system reports. -/
inductive ErrorKind where
  | brokenPipe
  | unexpectedEof
  | connectionReset
  | connectionAborted
  | notConnected
  | notFound
  | connectionRefused
  | other
  deriving DecidableEq, Repr

/-- Why a call failed. -/
inductive CallError where
  | requestTooLarge
  | io (kind : ErrorKind)
  /-- No daemon could be spawned that accepts connections. -/
  | spawn
  | responseTooLarge (len : Nat)
  /-- The response is not the JSON of one. -/
  | badResponse
  | daemon (error : RpcError)
  deriving DecidableEq, Repr

/-- Whether reconnecting might help; a false positive should waste at most one connect attempt. -/
def ErrorKind.looksLikeDisconnect : ErrorKind → Bool
  | .brokenPipe | .unexpectedEof | .connectionReset | .connectionAborted | .notConnected
  | .notFound | .connectionRefused => true
  | .other => false

/-- Only an error of the operating system can look like a disconnect. -/
def CallError.looksLikeDisconnect : CallError → Bool
  | .io kind => kind.looksLikeDisconnect
  | _ => false

/-- The streams of the operating system, with a daemon at their other end. -/
structure Transport (World Stream : Type) where
  connect : World → Except CallError Stream × World
  writeAll : List UInt8 → Stream → World → Option (Except ErrorKind Unit × Stream × World)
  flush : Stream → World → Option (Except ErrorKind Unit × Stream × World)
  readExact : Nat → Stream → World → Option (Except ErrorKind (List UInt8) × Stream × World)

/-- The client's own state, and the world around it. -/
structure DaemonClient (World Stream : Type) where
  /-- The retained stream, or `none` after it was dropped. -/
  stream : Option Stream
  nextId : Nat
  world : World

/-- A computation of the client that may fail, or never return. -/
def Call (World Stream α : Type) :=
  DaemonClient World Stream → Option (Except CallError α × DaemonClient World Stream)

namespace Call

variable {World Stream α β : Type}

/-- End with a result or an error, keeping the stream as it is. -/
def finish (result : Except CallError α) : Call World Stream α := fun client =>
  some (result, client)

/-- Do one thing after another, until one of them fails or does not return. -/
instance : Monad (Call World Stream) where
  pure a := fun client => some (.ok a, client)
  bind first next := fun client =>
    match first client with
    | none => none
    | some (.error e, client) => some (.error e, client)
    | some (.ok a, client) => next a client

/-- Operate on the retained stream, which stays retained when that fails. -/
def onStream (op : Stream → World → Option (Except ErrorKind α × Stream × World)) :
    Call World Stream α := fun client =>
  match client.stream with
  -- There is always a stream, because the client connects first.
  | none => some (.error (.io .notConnected), client)
  | some stream =>
    match op stream client.world with
    | none => none
    | some (.error kind, stream, world) =>
      -- Only a retry drops the stream.
      some (.error (.io kind), { client with stream := some stream, world })
    | some (.ok a, stream, world) => some (.ok a, { client with stream := some stream, world })

end Call

section
variable {Value World Stream : Type} (serde : Serde Value) (transport : Transport World Stream)

/-- Take the next request number. -/
def freshId : Call World Stream Nat := fun client =>
  some (.ok client.nextId, { client with nextId := client.nextId + 1 })

/-- Connect, unless there is a retained stream. -/
def ensureConnected : Call World Stream Unit := fun client =>
  match client.stream with
  -- A retained stream is taken as it is, whatever is on it.
  | some _ => some (.ok (), client)
  | none =>
    match transport.connect client.world with
    | (.ok stream, world) => some (.ok (), { client with stream := some stream, world })
    | (.error e, world) => some (.error e, { client with world })

/-- What a response says; its number is not looked at. -/
def Response.outcome : Option (Response Value) → Except CallError Value
  | none => .error .badResponse
  | some resp =>
    match resp.error with
    | some err => .error (.daemon err)
    -- A response without a result stands for one with `null`.
    | none => .ok (resp.result.getD serde.null)

/-- Write a request frame. -/
def writeRequest (payload : List UInt8) : Call World Stream Unit := do
  Call.onStream (transport.writeAll (Bytes.toBe 4 payload.length))
  Call.onStream (transport.writeAll payload)
  Call.onStream transport.flush

/-- Read a response frame. -/
def readResponse : Call World Stream Value := do
  let lenBuf ← Call.onStream (transport.readExact 4)
  let respLen := Bytes.fromBe lenBuf
  -- The payload of a frame that is too large stays on the stream.
  if maxFrame < respLen then Call.finish (.error (.responseTooLarge respLen))
  else
    let buf ← Call.onStream (transport.readExact respLen)
    Call.finish (Response.outcome serde (serde.fromSlice buf))

/-- One attempt at a call. -/
def tryCall (method : String) (params : Value) : Call World Stream Value := do
  let id ← freshId
  let payload := serde.toVec { id, method, params }
  -- Nothing is sent of a request whose length does not fit in four bytes.
  if 2 ^ 32 ≤ payload.length then Call.finish (.error .requestTooLarge)
  else
    ensureConnected transport
    writeRequest transport payload
    readResponse serde transport

/-- A call, tried once more on a fresh stream when the first attempt looks like a disconnect. -/
def call (method : String) (params : Value) : Call World Stream Value := fun client =>
  match tryCall serde transport method params client with
  | none => none
  | some (.ok value, client) => some (.ok value, client)
  | some (.error e, client) =>
    if e.looksLikeDisconnect then
      -- The daemon may have taken the first request, and gets it again under a new number.
      tryCall serde transport method params { client with stream := none }
    else some (.error e, client)

end

end McpCli
