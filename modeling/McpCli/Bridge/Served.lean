import McpCli.Bridge.DaemonClient
import McpCli.Daemon.Connection

/-! The daemon at the other end of the bridge's connection: its loop, and the methods behind it. -/

namespace McpCli

/-- What the methods make of the daemon's state and return; `none` stands for a panic. -/
abbrev Methods (State Value : Type) :=
  State → Request Value → State × Option (Except RpcError Value)

/-- A connection as the client has it: the daemon's end, and how much of its output was read. -/
structure Socket (Value : Type) where
  conn : Connection Value
  taken : Nat

/-- The daemon of one client. -/
structure Server (State : Type) where
  pool : BufferPool
  state : State
  /-- Whether the daemon goes on with its work when the client writes, one time after the other. -/
  turns : List Bool

/-- What is up to the operating system. -/
structure SystemChoices where
  /-- How much the allocator gives at least. -/
  room : Nat
  /-- How a write ends on a connection that the daemon has left. -/
  writeFails : ErrorKind
  readFails : ErrorKind

namespace Connection

variable {Value : Type}

/-- More bytes arrive. -/
def send (bytes : List UInt8) (conn : Connection Value) : Connection Value :=
  { conn with sent := conn.sent ++ bytes, input := conn.input ++ bytes }

/-- Whether the loop of the connection has ended. -/
def left (conn : Connection Value) : Bool :=
  match conn.phase with
  | .returned _ | .lost => true
  | _ => false

/-- Whether a read of the next frame does not have to wait. -/
def frameThere (conn : Connection Value) : Bool :=
  let len := Bytes.fromBe (conn.input.take 4)
  -- A length that is too large is refused before its payload is there.
  4 ≤ conn.input.length && (maxFrame < len || len ≤ (conn.input.drop 4).length)

variable (serde : DaemonSerde Value) (room : Nat)

/-- Write the response. -/
def answer (pool : BufferPool) (conn : Connection Value) :
    Option (BufferPool × Connection Value) := do
  let (pool, conn) ← conn.step serde pool (.reserve room)
  conn.step serde pool (.write room)

/-- Go on with what has been read. -/
def proceed {State : Type} (methods : Methods State Value) (server : Server State)
    (conn : Connection Value) : Option (Server State × Connection Value) :=
  match conn.phase with
  | .dispatching req =>
    match methods server.state req with
    -- The task of the connection goes down, and the stream with it.
    | (state, none) => some ({ server with state }, { conn with phase := .lost })
    | (state, some outcome) => do
      let (pool, conn) ← conn.step serde server.pool (.dispatch outcome)
      let (pool, conn) ← conn.answer serde room pool
      some ({ server with pool, state }, conn)
  | .answering _ => do
    let (pool, conn) ← conn.answer serde room server.pool
    some ({ server with pool }, conn)
  | _ => some (server, conn)

/-- Once around the loop: the next frame is read, and answered. -/
def around {State : Type} (methods : Methods State Value) (server : Server State)
    (conn : Connection Value) : Option (Server State × Connection Value) := do
  let (pool, conn) ← conn.step serde server.pool .acquire
  let (pool, conn) ← conn.step serde pool (.read room)
  conn.proceed serde room methods { server with pool }

/-- So many times around the loop at most, as long as it does not have to wait. -/
def work {State : Type} (methods : Methods State Value) :
    Nat → Server State → Connection Value → Server State × Connection Value
  | 0, server, conn => (server, conn)
  | rounds + 1, server, conn =>
    if conn.frameThere then
      match conn.around serde room methods server with
      | some (server, conn) => work methods rounds server conn
      -- The loop has ended.
      | none => (server, conn)
    else (server, conn)

/-- All that the loop can do with what has arrived. -/
def workAll {State : Type} (methods : Methods State Value) (server : Server State)
    (conn : Connection Value) : Server State × Connection Value :=
  conn.work serde room methods conn.input.length server

end Connection

section
variable {State Value : Type} (serde : DaemonSerde Value) (system : SystemChoices)
  (methods : Methods State Value)

/-- The daemon goes on with its work, if it is its turn. -/
def Server.turn (server : Server State) (conn : Connection Value) :
    Server State × Connection Value :=
  match server.turns with
  | true :: turns => conn.workAll serde system.room methods { server with turns }
  | false :: turns => ({ server with turns }, conn)
  | [] => (server, conn)

/-- A connection to the daemon. -/
def Server.transport : Transport (Server State) (Socket Value) where
  connect server := (.ok { conn := .accepted [], taken := 0 }, server)
  writeAll bytes socket server :=
    let (server, conn) := server.turn serde system methods socket.conn
    if conn.left then some (.error system.writeFails, { socket with conn }, server)
    else some (.ok (), { socket with conn := conn.send bytes }, server)
  flush socket server :=
    let (server, conn) := server.turn serde system methods socket.conn
    some (.ok (), { socket with conn }, server)
  readExact length socket server :=
    -- Until the daemon has done all that it can there is no end of waiting.
    let (server, conn) := socket.conn.workAll serde system.room methods server
    let unread := conn.output.drop socket.taken
    if length ≤ unread.length then
      some (.ok (unread.take length), { conn, taken := socket.taken + length }, server)
    else if conn.left then
      some (.error system.readFails, { conn, taken := conn.output.length }, server)
    else none

/-- A client that has not connected yet. -/
def DaemonClient.unconnected (server : Server State) :
    DaemonClient (Server State) (Socket Value) :=
  { stream := none, nextId := 1, world := server }

end

end McpCli
