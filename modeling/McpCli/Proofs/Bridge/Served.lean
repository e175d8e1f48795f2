import McpCli.Bridge.Served
import McpCli.Proofs.Bridge.Calls
import McpCli.Proofs.Daemon.Connection
import McpCli.Protocol.Json

/-! What becomes of a request on its way through the daemon's loop and back to the bridge. -/

namespace McpCli

/-! What the daemon does with what has arrived. -/

/-- A length that is too large is refused, whatever follows it. -/
theorem readFrameInto_large {header : List UInt8} (four : header.length = 4)
    (large : maxFrame < Bytes.fromBe header) (buf rest : List UInt8) :
    readFrameInto buf (header ++ rest) =
      { result := .error s!"frame too large: {Bytes.fromBe header}", buf, rest } := by
  have enough : ¬ (header ++ rest).length < 4 := by
    rw [List.length_append]
    omega
  simp only [readFrameInto, if_neg enough, List.take_left' four, List.drop_left' four,
    if_pos large]

namespace Connection

variable {State : Type} {serde : DaemonSerde Json} {methods : Methods State Json} {room : Nat}

/-- Nothing has arrived, and nothing is there to be read. -/
theorem frameThere_nil {conn : Connection Json} (nothing : conn.input = []) :
    conn.frameThere = false := by
  simp [frameThere, nothing]

/-- The length alone is not the frame. -/
theorem frameThere_length {conn : Connection Json} {payload : List UInt8}
    (some_ : payload ≠ []) (small : payload.length ≤ maxFrame)
    (arrived : conn.input = Bytes.toBe 4 payload.length) : conn.frameThere = false := by
  have length : Bytes.fromBe (conn.input.take 4) = payload.length := by
    rw [arrived, List.take_of_length_le (by rw [Bytes.length_toBe]),
      fromBe_length (Nat.lt_of_le_of_lt small maxFrame_lt)]
  have rest : conn.input.drop 4 = [] := by
    rw [arrived, List.drop_eq_nil_of_le (by rw [Bytes.length_toBe])]
  -- At least one byte of the payload is still missing.
  have positive := List.length_pos_iff.mpr some_
  simp only [frameThere, length, rest, List.length_nil, Nat.not_lt.mpr small,
    Nat.not_le.mpr positive, decide_false, Bool.or_self, Bool.and_false]

/-- A frame that has arrived as a whole can be read. -/
theorem frameThere_whole {conn : Connection Json} {payload : List UInt8}
    (fits : payload.length < 2 ^ 32)
    (arrived : conn.input = Bytes.toBe 4 payload.length ++ payload) : conn.frameThere = true := by
  -- The first four bytes tell the length of what is behind them.
  have length : Bytes.fromBe (conn.input.take 4) = payload.length := by
    rw [arrived, List.take_left' (Bytes.length_toBe 4 _), fromBe_length fits]
  have rest : conn.input.drop 4 = payload := by
    rw [arrived, List.drop_left' (Bytes.length_toBe 4 _)]
  have four : 4 ≤ conn.input.length := by
    rw [arrived, List.length_append, Bytes.length_toBe]
    omega
  simp [frameThere, length, rest, four]

/-- A length that is too large can be read without what follows it. -/
theorem frameThere_large {conn : Connection Json} {len : Nat} {rest : List UInt8}
    (fits : len < 2 ^ 32) (large : maxFrame < len)
    (arrived : conn.input = Bytes.toBe 4 len ++ rest) : conn.frameThere = true := by
  have length : Bytes.fromBe (conn.input.take 4) = len := by
    rw [arrived, List.take_left' (Bytes.length_toBe 4 _), Bytes.fromBe_toBe_of_lt fits]
  have four : 4 ≤ conn.input.length := by
    rw [arrived, List.length_append, Bytes.length_toBe]
    omega
  simp [frameThere, length, four, large]

/-- There is nothing that the loop could do now. -/
def Still (conn : Connection Json) : Prop := conn.frameThere = false ∨ conn.left = true

/-- The daemon leaves alone what is still. -/
theorem work_still {conn : Connection Json} (still : conn.Still) (rounds : Nat)
    (server : Server State) : conn.work serde room methods rounds server = (server, conn) := by
  cases rounds with
  | zero => rfl
  | succ rounds =>
    rw [work]
    rcases still with waiting | left
    · simp [waiting]
    · -- The first step of a round is only taken at the top of the loop.
      have ended : conn.around serde room methods server = none := by
        unfold Connection.left at left
        split at left
        · rename_i here
          simp [around, Connection.step, here]
        · rename_i here
          simp [around, Connection.step, here]
        · cases left
      rw [ended]
      split
      · rfl
      · rfl

/-- After a round that leaves nothing to be done, the daemon has done all that it can. -/
theorem workAll_around {conn after : Connection Json} {server next : Server State}
    (there : conn.frameThere = true)
    (went : conn.around serde room methods server = some (next, after)) (still : after.Still) :
    conn.workAll serde room methods server = (next, after) := by
  -- What can be read has four bytes at least, so there is a round to go.
  have four : 4 ≤ conn.input.length := by
    simp only [frameThere, Bool.and_eq_true, decide_eq_true_eq] at there
    exact there.1
  obtain ⟨rounds, long⟩ : ∃ rounds, conn.input.length = rounds + 1 :=
    ⟨conn.input.length - 1, by omega⟩
  rw [workAll, long, work, if_pos there, went]
  exact work_still still rounds next

variable (serde methods room)

/-- A buffer is taken and the response goes out, if it fits into a frame. -/
theorem answer_spec {pool : BufferPool} (clean : pool.Clean) {conn : Connection Json}
    {resp : Response Json} (here : conn.phase = .answering resp) {bytes : List UInt8}
    (written : writeFrame (serde.toWriter resp) = some bytes) :
    ∃ after : BufferPool, after.Clean ∧ conn.answer serde room pool =
      some (after, { conn with output := conn.output ++ bytes, phase := .listening }) := by
  obtain ⟨empty, kept⟩ := clean.acquireWithCapacity 1024 room
  refine ⟨_, kept.drop ((pool.acquireWithCapacity 1024 room).1.fill (serde.toWriter resp) room), ?_⟩
  simp only [answer, Connection.step, here, Option.bind_eq_bind, Option.bind_some, Buffer.fill,
    empty, List.nil_append, written]

/-- The loop takes a buffer, reads into it what has arrived, and goes on with that. -/
theorem around_read {conn : Connection Json} {server : Server State} (clean : server.pool.Clean)
    (here : conn.phase = .listening) :
    ∃ (pool : BufferPool) (buf : List UInt8), pool.Clean ∧
      conn.around serde room methods server =
        proceed serde room methods { server with pool }
          { conn with
            input := (readFrameInto buf conn.input).rest
            phase := received serde (readFrameInto buf conn.input) } := by
  obtain ⟨empty, kept⟩ := clean.acquire
  refine ⟨_, server.pool.acquire.1.bytes, kept.drop (server.pool.acquire.1.fill
    (readFrameInto server.pool.acquire.1.bytes conn.input).buf room), ?_⟩
  simp only [around, Connection.step, here, Option.bind_eq_bind, Option.bind_some]

/-- A request that has arrived is read, and its method called. -/
theorem around_frame {conn : Connection Json} {payload : List UInt8} {server : Server State}
    {req : Request Json} (clean : server.pool.Clean) (here : conn.phase = .listening)
    (small : payload.length ≤ maxFrame)
    (arrived : conn.input = Bytes.toBe 4 payload.length ++ payload)
    (parsed : serde.fromSlice payload = .ok req) :
    ∃ pool : BufferPool, pool.Clean ∧ conn.around serde room methods server =
      proceed serde room methods { server with pool }
        { conn with input := [], phase := .dispatching req } := by
  obtain ⟨pool, buf, kept, went⟩ := around_read serde methods room clean here
  have read := readFrameInto_frame small buf []
  rw [List.append_nil, ← arrived] at read
  exact ⟨pool, kept, by rw [went, read]; simp only [received, parsed]⟩

/-- What the method returns goes out. -/
theorem around_answered {conn : Connection Json} {payload bytes : List UInt8}
    {server : Server State} {req : Request Json} {next : State} {outcome : Except RpcError Json}
    (clean : server.pool.Clean) (here : conn.phase = .listening)
    (small : payload.length ≤ maxFrame)
    (arrived : conn.input = Bytes.toBe 4 payload.length ++ payload)
    (parsed : serde.fromSlice payload = .ok req)
    (executed : methods server.state req = (next, some outcome))
    (written : writeFrame (serde.toWriter (.dispatched req.id outcome)) = some bytes) :
    ∃ pool : BufferPool, pool.Clean ∧ conn.around serde room methods server =
      some ({ server with pool, state := next },
        { conn with
          input := []
          outcomes := conn.outcomes ++ [outcome]
          output := conn.output ++ bytes
          phase := .listening }) := by
  obtain ⟨pool, kept, went⟩ := around_frame serde methods room clean here small arrived parsed
  -- The connection as it is when the method has returned.
  let conn' : Connection Json := { conn with
    input := []
    outcomes := conn.outcomes ++ [outcome]
    phase := .answering (.dispatched req.id outcome) }
  have here' : conn'.phase = .answering (.dispatched req.id outcome) := rfl
  obtain ⟨after, kept, answered⟩ := answer_spec serde room kept here' written
  refine ⟨after, kept, ?_⟩
  -- The method is called first, and then its outcome is written.
  rw [went]
  simp only [proceed, executed, Connection.step, Option.bind_eq_bind, Option.bind_some]
  exact congrArg (Option.bind · _) answered

/-- A panic takes the connection down, after whatever the method has done. -/
theorem around_panicked {conn : Connection Json} {payload : List UInt8}
    {server : Server State} {req : Request Json} {next : State}
    (clean : server.pool.Clean) (here : conn.phase = .listening)
    (small : payload.length ≤ maxFrame)
    (arrived : conn.input = Bytes.toBe 4 payload.length ++ payload)
    (parsed : serde.fromSlice payload = .ok req)
    (executed : methods server.state req = (next, none)) :
    ∃ pool : BufferPool, pool.Clean ∧ conn.around serde room methods server =
      some ({ server with pool, state := next }, { conn with input := [], phase := .lost }) := by
  obtain ⟨pool, kept, went⟩ := around_frame serde methods room clean here small arrived parsed
  exact ⟨pool, kept, by rw [went]; simp only [proceed, executed]⟩

/-- A length that is too large ends the loop. -/
theorem around_large {conn : Connection Json} {len : Nat} {rest : List UInt8}
    {server : Server State} (clean : server.pool.Clean) (here : conn.phase = .listening)
    (fits : len < 2 ^ 32) (large : maxFrame < len)
    (arrived : conn.input = Bytes.toBe 4 len ++ rest) :
    ∃ pool : BufferPool, pool.Clean ∧ conn.around serde room methods server =
      some ({ server with pool },
        { conn with
          input := rest
          phase := .returned (.error s!"frame too large: {len}") }) := by
  obtain ⟨pool, buf, kept, went⟩ := around_read serde methods room clean here
  -- The length is read back as it was written, and refused before any of the payload.
  have length : Bytes.fromBe (Bytes.toBe 4 len) = len := Bytes.fromBe_toBe_of_lt fits
  have read := readFrameInto_large (Bytes.length_toBe 4 len) (by rw [length]; exact large) buf rest
  rw [← arrived, length] at read
  exact ⟨pool, kept, by rw [went, read]; simp only [received, proceed]⟩

variable {serde methods room}

/-- When the daemon has done all that it can, it has come to a state like this. -/
def Comes (serde : DaemonSerde Json) (room : Nat) (methods : Methods State Json)
    (goal : Server State → Connection Json → Prop) (server : Server State)
    (conn : Connection Json) : Prop :=
  (conn.workAll serde room methods server).2.Still ∧
    goal (conn.workAll serde room methods server).1 (conn.workAll serde room methods server).2

/-- A round that leaves nothing to be done shows where the daemon comes. -/
theorem comes_of_around {goal : Server State → Connection Json → Prop}
    {conn after : Connection Json} {server next : Server State} (there : conn.frameThere = true)
    (went : conn.around serde room methods server = some (next, after)) (still : after.Still)
    (reached : goal next after) : conn.Comes serde room methods goal server := by
  rw [Comes, workAll_around there went still]
  exact ⟨still, reached⟩

/-- The daemon is in this state, and waits for the next request after such an output. -/
def Waits (state : State) (output : List UInt8) (server : Server State) (conn : Connection Json) :
    Prop :=
  server.pool.Clean ∧ server.state = state ∧ conn.output = output ∧
    conn.phase = .listening ∧ conn.input = []

/-- The daemon is in this state, and has left the stream after such an output. -/
def Leaves (state : State) (output : List UInt8) (server : Server State) (conn : Connection Json) :
    Prop :=
  server.pool.Clean ∧ server.state = state ∧ conn.output = output ∧ conn.left = true

/-- After a request whose method has returned, the daemon waits for the next one. -/
theorem comes_answered {conn : Connection Json} {payload bytes : List UInt8}
    {server : Server State} {req : Request Json} {next : State} {outcome : Except RpcError Json}
    (clean : server.pool.Clean) (here : conn.phase = .listening)
    (small : payload.length ≤ maxFrame)
    (arrived : conn.input = Bytes.toBe 4 payload.length ++ payload)
    (parsed : serde.fromSlice payload = .ok req)
    (executed : methods server.state req = (next, some outcome))
    (written : writeFrame (serde.toWriter (.dispatched req.id outcome)) = some bytes) :
    conn.Comes serde room methods (Waits next (conn.output ++ bytes)) server := by
  obtain ⟨pool, kept, went⟩ :=
    around_answered serde methods room clean here small arrived parsed executed written
  have there := frameThere_whole (Nat.lt_of_le_of_lt small maxFrame_lt) arrived
  exact comes_of_around there went (.inl (frameThere_nil rfl)) ⟨kept, rfl, rfl, rfl, rfl⟩

/-- After one whose method has panicked, it has left the stream. -/
theorem comes_panicked {conn : Connection Json} {payload : List UInt8} {server : Server State}
    {req : Request Json} {next : State} (clean : server.pool.Clean)
    (here : conn.phase = .listening) (small : payload.length ≤ maxFrame)
    (arrived : conn.input = Bytes.toBe 4 payload.length ++ payload)
    (parsed : serde.fromSlice payload = .ok req)
    (executed : methods server.state req = (next, none)) :
    conn.Comes serde room methods (Leaves next conn.output) server := by
  obtain ⟨pool, kept, went⟩ :=
    around_panicked serde methods room clean here small arrived parsed executed
  have there := frameThere_whole (Nat.lt_of_le_of_lt small maxFrame_lt) arrived
  exact comes_of_around there went (.inr rfl) ⟨kept, rfl, rfl, rfl⟩

/-- So it has after a length that is too large. -/
theorem comes_large {conn : Connection Json} {len : Nat} {rest : List UInt8}
    {server : Server State} (clean : server.pool.Clean) (here : conn.phase = .listening)
    (fits : len < 2 ^ 32) (large : maxFrame < len)
    (arrived : conn.input = Bytes.toBe 4 len ++ rest) :
    conn.Comes serde room methods (Leaves server.state conn.output) server := by
  obtain ⟨pool, kept, went⟩ := around_large serde methods room clean here fits large arrived
  exact comes_of_around (frameThere_large fits large arrived) went (.inr rfl) ⟨kept, rfl, rfl, rfl⟩

variable (serde methods)

/-- On a stream that is still the daemon stays where it is. -/
theorem turn_still (choices : SystemChoices) {conn : Connection Json} (still : conn.Still)
    (server : Server State) :
    ∃ turns, server.turn serde choices methods conn = ({ server with turns }, conn) := by
  unfold Server.turn
  split
  · exact ⟨_, work_still still _ _⟩
  · exact ⟨_, rfl⟩
  · exact ⟨server.turns, rfl⟩

variable {serde methods}

/-- A turn of the daemon leaves everything as it was, or gets as far as it can. -/
theorem turn_comes (choices : SystemChoices) {goal : Server State → Connection Json → Prop}
    {conn : Connection Json} {server : Server State}
    (comes : ∀ turns, conn.Comes serde choices.room methods goal { server with turns }) :
    let after := server.turn serde choices methods conn
    after.2.Comes serde choices.room methods goal after.1 ∧
      ((∃ turns, after = ({ server with turns }, conn)) ∨
        after.2.Still ∧ goal after.1 after.2) := by
  intro after
  unfold after Server.turn
  split
  · rename_i turns _
    obtain ⟨still, reached⟩ := comes turns
    refine ⟨?_, .inr ⟨still, reached⟩⟩
    -- There is nothing to be done after that.
    rw [Comes, workAll, work_still still]
    exact ⟨still, reached⟩
  · -- It is not the turn of the daemon, which has all of its work in front of it.
    exact ⟨comes _, .inl ⟨_, rfl⟩⟩
  · exact ⟨comes server.turns, .inl ⟨server.turns, rfl⟩⟩

end Connection

namespace Call

variable {World Stream α β : Type}

/-- A computation that fails is the end of what it is part of. -/
theorem bind_error {first : Call World Stream α} {next : α → Call World Stream β} {e : CallError}
    {client after : DaemonClient World Stream} (ran : first client = some (.error e, after)) :
    (first >>= next) client = some (.error e, after) := by
  simp only [bind, ran]

end Call

/-! What becomes of a request on its way to the daemon and back. -/

section
variable {State : Type} {serde : DaemonSerde Json} {methods : Methods State Json}
  {choices : SystemChoices}

/-- A client on this connection. -/
def DaemonClient.on (conn : Connection Json) (taken id : Nat) (server : Server State) :
    DaemonClient (Server State) (Socket Json) :=
  { stream := some { conn, taken }, nextId := id, world := server }

open DaemonClient

/-- A write arrives, unless the daemon has left. -/
theorem writeAll_on {conn after : Connection Json} {server next : Server State}
    (turned : server.turn serde choices methods conn = (next, after)) (bytes : List UInt8)
    (taken id : Nat) :
    Call.onStream ((Server.transport serde choices methods).writeAll bytes)
        (on conn taken id server) =
      if after.left then some (.error (.io choices.writeFails), on after taken id next)
      else some (.ok (), on (after.send bytes) taken id next) := by
  simp only [Call.onStream, on, Server.transport, turned]
  cases after.left with
  | true => rfl
  | false => rfl

/-- Nothing is held back on the client's side. -/
theorem flush_on {conn after : Connection Json} {server next : Server State}
    (turned : server.turn serde choices methods conn = (next, after)) (taken id : Nat) :
    Call.onStream (Server.transport serde choices methods).flush (on conn taken id server) =
      some (.ok (), on after taken id next) := by
  simp only [Call.onStream, on, Server.transport, turned]

/-- What the daemon has written is read. -/
theorem readExact_on {conn : Connection Json} {server : Server State} {front rest : List UInt8}
    {taken : Nat}
    (unread : (conn.workAll serde choices.room methods server).2.output.drop taken = front ++ rest)
    (id : Nat) :
    Call.onStream ((Server.transport serde choices methods).readExact front.length)
        (on conn taken id server) =
      some (.ok front, on (conn.workAll serde choices.room methods server).2
        (taken + front.length) id (conn.workAll serde choices.room methods server).1) := by
  simp only [Call.onStream, on, Server.transport, unread, List.length_append,
    Nat.le_add_right, if_true, List.take_left]

/-- If it has left without having written anything, a read fails. -/
theorem readExact_lost {conn : Connection Json} {server : Server State} {taken : Nat}
    (unread : (conn.workAll serde choices.room methods server).2.output.length = taken)
    (left : (conn.workAll serde choices.room methods server).2.left = true) (id : Nat) :
    Call.onStream ((Server.transport serde choices methods).readExact 4) (on conn taken id server) =
      some (.error (.io choices.readFails), on (conn.workAll serde choices.room methods server).2
        taken id (conn.workAll serde choices.room methods server).1) := by
  simp [Call.onStream, on, Server.transport, left, unread]

/-- What the bridge does for a request on a connection. -/
def exchange (clientSerde : Serde Json) (transport : Transport (Server State) (Socket Json))
    (payload : List UInt8) : Call (Server State) (Socket Json) Json := do
  writeRequest transport payload
  readResponse clientSerde transport

/-- A request that is not too large arrives as a whole, and the daemon comes to answer it. -/
theorem writeRequest_whole {goal : Server State → Connection Json → Prop}
    {conn : Connection Json} {server : Server State} {payload : List UInt8}
    (here : conn.phase = .listening) (nothing : conn.input = []) (some_ : payload ≠ [])
    (small : payload.length ≤ maxFrame)
    (comes : ∀ turns, (conn.send (Bytes.toBe 4 payload.length ++ payload)).Comes serde choices.room
      methods goal { server with turns })
    (taken id : Nat) :
    ∃ next after, writeRequest (Server.transport serde choices methods) payload
        (on conn taken id server) = some (.ok (), on after taken id next) ∧
      after.Comes serde choices.room methods goal next := by
  -- Until the payload has been written, there is nothing that the daemon could read.
  obtain ⟨turns, first⟩ := Connection.turn_still serde methods choices
    (.inl (Connection.frameThere_nil nothing)) server
  have listening : conn.left = false := by simp [Connection.left, here]
  have length : (conn.send (Bytes.toBe 4 payload.length)).input = Bytes.toBe 4 payload.length := by
    simp [Connection.send, nothing]
  have listening' : (conn.send (Bytes.toBe 4 payload.length)).left = false := listening
  obtain ⟨turns', second⟩ := Connection.turn_still serde methods choices
    (.inl (Connection.frameThere_length some_ small length)) { server with turns }
  have both : (conn.send (Bytes.toBe 4 payload.length)).send payload =
      conn.send (Bytes.toBe 4 payload.length ++ payload) := by
    simp [Connection.send]
  have goes : ∀ turns, (conn.send (Bytes.toBe 4 payload.length ++ payload)).Comes serde choices.room
      methods goal { { server with turns := turns' } with turns } := comes
  obtain ⟨reached, -⟩ := Connection.turn_comes choices goes
  refine ⟨_, _, ?_, reached⟩
  rw [writeRequest,
    Call.bind_ok (by rw [writeAll_on first, if_neg (Bool.eq_false_iff.mp listening)])]
  rw [Call.bind_ok (by rw [writeAll_on second, if_neg (Bool.eq_false_iff.mp listening')]), both]
  exact flush_on rfl taken id

/-- A response that has been written is read to its end, if it is not too large. -/
theorem readResponse_waiting {clientSerde : Serde Json} {conn : Connection Json}
    {server : Server State} {state : State} {output response : List UInt8}
    (comes : conn.Comes serde choices.room methods
      (Connection.Waits state (output ++ (Bytes.toBe 4 response.length ++ response))) server)
    (short : response.length ≤ maxFrame) (id : Nat) :
    ∃ (after : Connection Json) (last : Server State),
      readResponse clientSerde (Server.transport serde choices methods)
          (on conn output.length id server) =
        some (Response.outcome clientSerde (clientSerde.fromSlice response),
          on after after.output.length id last) ∧
        last.pool.Clean ∧ last.state = state ∧ after.phase = .listening ∧ after.input = [] := by
  obtain ⟨still, clean, same, wrote, listening, nothing⟩ := comes
  refine ⟨_, _, ?_, clean, same, listening, nothing⟩
  have four := Bytes.length_toBe 4 response.length
  -- The length comes first, and then the body; the daemon has nothing to add to them.
  have header := @readExact_on State serde methods choices conn server
    (Bytes.toBe 4 response.length) response output.length (by rw [wrote, List.drop_left]) id
  generalize conn.workAll serde choices.room methods server = worked at *
  obtain ⟨last, after⟩ := worked
  -- Between the two reads, the daemon stays where it is.
  have ended : after.workAll serde choices.room methods last = (last, after) :=
    Connection.work_still still _ _
  have body := @readExact_on State serde methods choices after last response []
    (output.length + 4) (by
      rw [ended, wrote, ← List.append_assoc, List.drop_left' (by simp), List.append_nil]) id
  rw [ended] at body
  rw [four] at header
  have length : after.output.length = output.length + 4 + response.length := by
    rw [wrote]
    simp only [List.length_append, four]
    omega
  rw [readResponse, Call.bind_ok header]
  simp only [fromBe_length (Nat.lt_of_le_of_lt short maxFrame_lt), if_neg (Nat.not_lt.mpr short)]
  rw [Call.bind_ok body, length]
  rfl

variable (choices)

/-- The request is executed, and the client reads what the method has returned. -/
theorem exchange_answered (clientSerde : Serde Json) {conn : Connection Json}
    {server : Server State} {payload : List UInt8} {req : Request Json} {next : State}
    {outcome : Except RpcError Json} (clean : server.pool.Clean) (here : conn.phase = .listening)
    (nothing : conn.input = []) (some_ : payload ≠ []) (small : payload.length ≤ maxFrame)
    (parsed : serde.fromSlice payload = .ok req)
    (executed : methods server.state req = (next, some outcome))
    (short : (serde.toWriter (.dispatched req.id outcome)).length ≤ maxFrame) (id : Nat) :
    ∃ (after : Connection Json) (last : Server State),
      exchange clientSerde (Server.transport serde choices methods) payload
          (on conn conn.output.length id server) =
        some (Response.outcome clientSerde
            (clientSerde.fromSlice (serde.toWriter (.dispatched req.id outcome))),
          on after after.output.length id last) ∧
        last.pool.Clean ∧ last.state = next ∧ after.phase = .listening ∧ after.input = [] := by
  have written : writeFrame (serde.toWriter (.dispatched req.id outcome)) = some _ :=
    if_pos (Nat.lt_of_le_of_lt short maxFrame_lt)
  have arrived : (conn.send (Bytes.toBe 4 payload.length ++ payload)).input =
      Bytes.toBe 4 payload.length ++ payload := by
    simp [Connection.send, nothing]
  have comes : ∀ turns, (conn.send (Bytes.toBe 4 payload.length ++ payload)).Comes serde
      choices.room methods _ { server with turns } := fun turns =>
    Connection.comes_answered clean here small arrived parsed executed written
  -- Whenever the daemon gets its turn, it comes to the same response.
  obtain ⟨last, after, wrote, reached⟩ :=
    writeRequest_whole here nothing some_ small comes conn.output.length id
  rw [exchange, Call.bind_ok wrote]
  exact readResponse_waiting reached short id

/-- A request whose method panics is executed, and the client is told that the stream is lost. -/
theorem exchange_panicked (clientSerde : Serde Json) {conn : Connection Json}
    {server : Server State} {payload : List UInt8} {req : Request Json} {next : State}
    (clean : server.pool.Clean) (here : conn.phase = .listening)
    (nothing : conn.input = []) (some_ : payload ≠ []) (small : payload.length ≤ maxFrame)
    (parsed : serde.fromSlice payload = .ok req)
    (executed : methods server.state req = (next, none)) (id : Nat) :
    ∃ (after : Connection Json) (last : Server State),
      exchange clientSerde (Server.transport serde choices methods) payload
          (on conn conn.output.length id server) =
        some (.error (.io choices.readFails), on after after.output.length id last) ∧
        last.pool.Clean ∧ last.state = next ∧ after.left = true := by
  have arrived : (conn.send (Bytes.toBe 4 payload.length ++ payload)).input =
      Bytes.toBe 4 payload.length ++ payload := by
    simp [Connection.send, nothing]
  have comes : ∀ turns, (conn.send (Bytes.toBe 4 payload.length ++ payload)).Comes serde
      choices.room methods _ { server with turns } := fun turns =>
    Connection.comes_panicked clean here small arrived parsed executed
  obtain ⟨last, after, wrote, still, kept, same, output, left⟩ :=
    writeRequest_whole here nothing some_ small comes conn.output.length id
  -- Nothing is there to be read, and nothing will be.
  have output' : (after.workAll serde choices.room methods last).2.output.length =
      conn.output.length := congrArg List.length output
  refine ⟨_, _, ?_, kept, same, left⟩
  rw [exchange, Call.bind_ok wrote, readResponse,
    Call.bind_error (readExact_lost output' left id), output']

/-- Of a request that is too large the daemon reads the length, and the client loses the stream. -/
theorem exchange_large (clientSerde : Serde Json) {conn : Connection Json}
    {server : Server State} {payload : List UInt8} (clean : server.pool.Clean)
    (here : conn.phase = .listening) (nothing : conn.input = [])
    (fits : payload.length < 2 ^ 32) (large : maxFrame < payload.length) (id : Nat) :
    ∃ (after : Connection Json) (last : Server State) (kind : ErrorKind),
      (kind = choices.writeFails ∨ kind = choices.readFails) ∧
      exchange clientSerde (Server.transport serde choices methods) payload
          (on conn conn.output.length id server) =
        some (.error (.io kind), on after after.output.length id last) ∧
        last.pool.Clean ∧ last.state = server.state ∧ after.left = true := by
  have header : ∀ rest, (conn.send (Bytes.toBe 4 payload.length ++ rest)).input =
      Bytes.toBe 4 payload.length ++ rest := fun rest => by simp [Connection.send, nothing]
  -- The daemon leaves when it gets to read the length, whether the payload is there or not.
  have comes : ∀ rest turns, (conn.send (Bytes.toBe 4 payload.length ++ rest)).Comes serde
      choices.room methods (Connection.Leaves server.state conn.output) { server with turns } :=
    fun rest turns => Connection.comes_large clean here fits large (header rest)
  have listening : conn.left = false := by simp [Connection.left, here]
  obtain ⟨turns, first⟩ := Connection.turn_still serde methods choices
    (.inl (Connection.frameThere_nil nothing)) server
  have sent : Call.onStream ((Server.transport serde choices methods).writeAll
      (Bytes.toBe 4 payload.length)) (on conn conn.output.length id server) =
      some (.ok (), on (conn.send (Bytes.toBe 4 payload.length ++ [])) conn.output.length id
        { server with turns }) := by
    rw [writeAll_on first, if_neg (Bool.eq_false_iff.mp listening), List.append_nil]
  have second : ∀ turns', (conn.send (Bytes.toBe 4 payload.length ++ [])).Comes serde choices.room
      methods (Connection.Leaves server.state conn.output)
        { { server with turns } with turns := turns' } := comes []
  obtain ⟨-, waiting | ⟨-, kept, same, output, left⟩⟩ := Connection.turn_comes choices second
  · -- The payload is written, and the read fails.
    obtain ⟨turns', waiting⟩ := waiting
    have both : (conn.send (Bytes.toBe 4 payload.length ++ [])).send payload =
        conn.send (Bytes.toBe 4 payload.length ++ payload) := by
      simp [Connection.send]
    have listening' : (conn.send (Bytes.toBe 4 payload.length ++ [])).left = false := listening
    obtain ⟨last, after, went⟩ : ∃ last after, Server.turn serde choices methods
        { server with turns := turns' } (conn.send (Bytes.toBe 4 payload.length ++ payload)) =
          (last, after) := ⟨_, _, rfl⟩
    have third : ∀ turns, (conn.send (Bytes.toBe 4 payload.length ++ payload)).Comes serde
        choices.room methods (Connection.Leaves server.state conn.output)
          { { server with turns := turns' } with turns } := comes payload
    have reached := (Connection.turn_comes choices third).1
    rw [went] at reached
    obtain ⟨still, kept, same, output, left⟩ := reached
    have sent' : Call.onStream ((Server.transport serde choices methods).writeAll payload)
        (on (conn.send (Bytes.toBe 4 payload.length ++ [])) conn.output.length id
          { server with turns }) =
        some (.ok (), on (conn.send (Bytes.toBe 4 payload.length ++ payload)) conn.output.length id
          { server with turns := turns' }) := by
      rw [writeAll_on waiting, if_neg (Bool.eq_false_iff.mp listening'), both]
    have wrote : writeRequest (Server.transport serde choices methods) payload
        (on conn conn.output.length id server) =
          some (.ok (), on after conn.output.length id last) := by
      rw [writeRequest, Call.bind_ok sent, Call.bind_ok sent']
      exact flush_on went _ id
    have output' := congrArg List.length output
    refine ⟨_, _, _, .inr rfl, ?_, kept, same, left⟩
    rw [exchange, Call.bind_ok wrote, readResponse,
      Call.bind_error (readExact_lost output' left id),
      output']
  · -- The daemon has left already when the payload is to be written.
    obtain ⟨last, after, went⟩ : ∃ last after, Server.turn serde choices methods
        { server with turns } (conn.send (Bytes.toBe 4 payload.length ++ [])) = (last, after) :=
      ⟨_, _, rfl⟩
    rw [went] at kept same output left
    have failed := writeAll_on went payload conn.output.length id
    rw [if_pos left] at failed
    refine ⟨_, _, _, .inl rfl, ?_, kept, same, left⟩
    rw [exchange, Call.bind_error (by rw [writeRequest, Call.bind_ok sent, Call.bind_error failed]),
      congrArg List.length output]

/-- On a stream that the daemon has left nothing is sent. -/
theorem exchange_left (clientSerde : Serde Json) {conn : Connection Json} {server : Server State}
    (left : conn.left = true) (payload : List UInt8) (taken id : Nat) :
    ∃ turns, exchange clientSerde (Server.transport serde choices methods) payload
        (on conn taken id server) =
      some (.error (.io choices.writeFails), on conn taken id { server with turns }) := by
  obtain ⟨turns, turned⟩ := Connection.turn_still serde methods choices (.inr left) server
  -- The write of the length fails already.
  have failed := writeAll_on turned (Bytes.toBe 4 payload.length) taken id
  rw [if_pos left] at failed
  exact ⟨turns, Call.bind_error (Call.bind_error failed)⟩

end

end McpCli
