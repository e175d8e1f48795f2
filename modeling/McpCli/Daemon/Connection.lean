import McpCli.Daemon.BufferPool
import McpCli.Daemon.Framing
import McpCli.Protocol.Messages

/-! The loop of the daemon on each of its connections, which share a pool of buffers. -/

namespace McpCli

/-- The third-party JSON library, as the daemon uses it. -/
structure DaemonSerde (Value : Type) where
  fromSlice : List UInt8 → Except String (Request Value)
  toWriter : Response Value → List UInt8

/-- The response to a body that is no request. -/
def Response.refusal {Value : Type} (message : String) : Response Value :=
  { id := 0, result := none, error := some { code := -32700, message } }

/-- The response to a request, by what its method has returned. -/
def Response.dispatched {Value : Type} (id : Nat) : Except RpcError Value → Response Value
  | .ok value => { id, result := some value, error := none }
  | .error err => { id, result := none, error := some err }

/-- Where the loop of a connection is. -/
inductive ConnectionPhase (Value : Type) where
  /-- At its top, without a buffer. -/
  | listening
  /-- Waiting for a frame, with a buffer from the pool. -/
  | reading (frame : Buffer)
  /-- The method of the request is at work. -/
  | dispatching (req : Request Value)
  | answering (resp : Response Value)
  /-- Serializing the response into a buffer from the pool, and writing it. -/
  | writing (resp : Response Value) (buf : Buffer)
  | returned (result : Except String Unit)
  /-- The operating system has reported an error of the stream. -/
  | lost

/-- A connection. -/
structure Connection (Value : Type) where
  /-- What the peer sends, up to the point where it shuts its side down. -/
  sent : List UInt8
  /-- What of it has not been read. -/
  input : List UInt8
  output : List UInt8
  /-- What the methods have returned so far for the requests of this connection. -/
  outcomes : List (Except RpcError Value)
  phase : ConnectionPhase Value

/-- A connection that has just been accepted. -/
def Connection.accepted {Value : Type} (sent : List UInt8) : Connection Value :=
  { sent, input := sent, output := [], outcomes := [], phase := .listening }

/-- Something that a connection does next. -/
inductive ConnectionAction (Value : Type) where
  | acquire
  /-- A frame is read, or the end of the stream; `room` is what the allocator gives at least. -/
  | read (room : Nat)
  /-- The method returns. -/
  | dispatch (outcome : Except RpcError Value)
  | reserve (room : Nat)
  | write (room : Nat)
  /-- The stream fails, when so many bytes of a response have been written. -/
  | hangUp (written room : Nat)

section
variable {Value : Type} (serde : DaemonSerde Value)

/-- What follows a call that reads a frame. -/
def Connection.received (read : FrameRead) : ConnectionPhase Value :=
  match read.result with
  | .error e => .returned (.error e)
  | .ok none => .returned (.ok ())
  | .ok (some ()) =>
    match serde.fromSlice read.buf with
    -- A body that is no request does not end the loop.
    | .error e => .answering (.refusal e)
    | .ok req => .dispatching req

/-- One step of a connection, which may take a buffer out of the pool or put it back. -/
def Connection.step (pool : BufferPool) (conn : Connection Value) :
    ConnectionAction Value → Option (BufferPool × Connection Value)
  | .acquire =>
    match conn.phase with
    | .listening =>
      let (frame, pool) := pool.acquire
      some (pool, { conn with phase := .reading frame })
    | _ => none
  | .read room =>
    match conn.phase with
    | .reading frame =>
      let read := readFrameInto frame.bytes conn.input
      -- The buffer goes back before the response is looked for.
      some (pool.drop (frame.fill read.buf room),
        { conn with input := read.rest, phase := Connection.received serde read })
    | _ => none
  | .dispatch outcome =>
    match conn.phase with
    | .dispatching req => some (pool,
        { conn with
          outcomes := conn.outcomes ++ [outcome]
          phase := .answering (.dispatched req.id outcome) })
    | _ => none
  | .reserve room =>
    match conn.phase with
    | .answering resp =>
      let (buf, pool) := pool.acquireWithCapacity 1024 room
      some (pool, { conn with phase := .writing resp buf })
    | _ => none
  | .write room =>
    match conn.phase with
    | .writing resp buf =>
      -- The library writes behind what is in the buffer.
      let buf := buf.fill (buf.bytes ++ serde.toWriter resp) room
      match writeFrame buf.bytes with
      | some bytes => some (pool.drop buf,
          { conn with output := conn.output ++ bytes, phase := .listening })
      | none => some (pool.drop buf,
          { conn with phase := .returned (.error "frame too large to encode") })
    | _ => none
  | .hangUp written room =>
    match conn.phase with
    | .reading frame => some (pool.drop frame, { conn with phase := .lost })
    | .writing resp buf =>
      let buf := buf.fill (buf.bytes ++ serde.toWriter resp) room
      match writeFrame buf.bytes with
      | some bytes => some (pool.drop buf,
          { conn with output := conn.output ++ bytes.take written, phase := .lost })
      | none => none
    | _ => none

/-- The connections of a daemon, and the pool that they share. -/
structure Connections (Value : Type) where
  pool : BufferPool
  conns : List (Connection Value)

/-- The next thing that happens. -/
inductive ConnectionsAction (Value : Type) where
  /-- A connection is accepted, whose peer sends these bytes. -/
  | accept (sent : List UInt8)
  | conn (i : Nat) (action : ConnectionAction Value)

namespace Connections

/-- A daemon without connections. -/
def start (pool : BufferPool) : Connections Value := { pool, conns := [] }

/-- Take one step, if it is possible. -/
def step (s : Connections Value) : ConnectionsAction Value → Option (Connections Value)
  | .accept sent => some { s with conns := s.conns ++ [.accepted sent] }
  | .conn i action =>
    match s.conns[i]? with
    | none => none
    | some conn =>
      (conn.step serde s.pool action).map fun (pool, conn) =>
        { pool, conns := s.conns.set i conn }

end Connections

end

end McpCli
