import McpCli.Bridge.Conversation
import McpCli.Protocol.JsonRead
import McpCli.Proofs.Bridge.Served
import McpCli.Proofs.Bridge.Wire

/-! A conversation with the bridge is one with the methods of the daemon, whatever lies between. -/

namespace McpCli

section
variable {World Stream : Type} (texts : McpTexts) (serde : Serde Json)
  (transport : Transport World Stream)

/-- What is done for an errand. -/
def runErrand (client : DaemonClient World Stream) : Errand → Exchange World Stream (List Json)
  | .write messages => some (messages, client)
  | .call number method args => (call serde transport method args client).map
      fun (outcome, client) => ([toolMessage texts number outcome], client)

/-- A message is handled by doing what it asks for. -/
theorem handle_eq_errandOf (number : Json) (method : String) (params : Json)
    (client : DaemonClient World Stream) :
    (match handle texts serde transport method params client with
      | none => none
      | some (.ok result, client) => some ([resultMessage number result], client)
      | some (.error e, client) => some ([errorMessage number (-32000) e], client)) =
      runErrand texts serde transport client (errandOf texts number method params) := by
  fun_cases handle texts serde transport method params client
  case case3 =>
    -- Only here is the daemon asked.
    unfold toolsCall errandOf
    cases (params.get "name").bind Json.asStr with
    | none => rfl
    | some name =>
      simp only
      cases daemonMethods.find? fun entry => entry.1 = name with
      | none => rfl
      | some entry =>
        simp only [runErrand]
        cases call serde transport entry.2 ((params.get "arguments").getD (.object [])) client with
        | none => rfl
        | some ended =>
          obtain ⟨outcome, next⟩ := ended
          cases outcome with
          | error e => rfl
          | ok value => rfl
  case case5 => simp_all [errandOf, runErrand]
  all_goals rfl

/-- What is written for a line is what it asks for, or what comes of the call that it asks for. -/
theorem respond_eq_errand (line : List Char) (client : DaemonClient World Stream) :
    respond texts serde transport line client =
      runErrand texts serde transport client (errand texts line) := by
  -- A blank line, one that is no JSON and a notification are answered without a call.
  unfold respond errand
  split
  · rfl
  · cases texts.fromStr line with
    | error e => rfl
    | ok req =>
      simp only
      split
      · rfl
      · exact handle_eq_errandOf texts serde transport _ _ _ client

end

section
variable {State : Type}

open DaemonClient

/-- A client in front of its next call, whose stream is alive or not. -/
structure Ready (state : State) (id : Nat) (alive : Bool)
    (client : DaemonClient (Server State) (Socket Json)) : Prop where
  clean : client.world.pool.Clean
  state : client.world.state = state
  number : client.nextId = id
  /-- Without a stream it is going to connect. -/
  connects : client.stream = none → alive = true
  read : ∀ socket, client.stream = some socket →
    socket.taken = socket.conn.output.length ∧
      if alive then socket.conn.phase = .listening ∧ socket.conn.input = []
      else socket.conn.left = true

/-- A client that is going to connect again is ready. -/
theorem Ready.reconnect {state : State} {id : Nat} {alive : Bool}
    {client : DaemonClient (Server State) (Socket Json)} (ready : Ready state id alive client) :
    Ready state id true { client with stream := none } :=
  ⟨ready.clean, ready.state, ready.number, fun _ => rfl, fun _ none => by cases none⟩

/-- So is one whose connection is what such a one has to be. -/
theorem ready_on {conn : Connection Json} {server : Server State} (alive : Bool)
    (clean : server.pool.Clean)
    (there : if alive then conn.phase = .listening ∧ conn.input = [] else conn.left = true)
    (id : Nat) : Ready server.state id alive (on conn conn.output.length id server) := by
  refine ⟨clean, rfl, rfl, ?_, ?_⟩
  · intro none
    cases none
  · intro socket same
    cases same
    exact ⟨rfl, there⟩

/--
What a method returns for these arguments is read as it is written, and not too large for the
client, whatever the state is.
-/
structure Methods.Sound (reader : JsonReader) (methods : Methods State Json) (method : String)
    (args : Json) : Prop where
  outcome : ∀ state id next outcome,
    methods state { id, method, params := args } = (next, some outcome) →
      SoundOutcome reader outcome
  small : ∀ state id next outcome, id < 2 ^ 64 →
    methods state { id, method, params := args } = (next, some outcome) →
      ((daemonSerde reader).toWriter (.dispatched id outcome)).length ≤ maxFrame

end

section
variable {State : Type} {methods : Methods State Json} {choices : SystemChoices}
  {reader : JsonReader} (reads : reader.Reads)
  (lost : choices.writeFails.looksLikeDisconnect = true ∧
    choices.readFails.looksLikeDisconnect = true)

open DaemonClient

include reads lost

/-- An attempt on a stream on which the daemon waits. -/
theorem exchange_attempted {conn : Connection Json} {server : Server State}
    (clean : server.pool.Clean) (here : conn.phase = .listening) (nothing : conn.input = [])
    {req : Request Json} (valid : req.params.Sound reader (maxNesting - 1))
    (sound : methods.Sound reader req.method req.params) (numbered : req.id < 2 ^ 64)
    (fits : ((bridgeSerde reader).toVec req).length < 2 ^ 32) (id : Nat) :
    ∃ outcome next alive client',
      exchange (bridgeSerde reader) (Server.transport (daemonSerde reader) choices methods)
          ((bridgeSerde reader).toVec req) (on conn conn.output.length id server) =
        some (outcome, client') ∧
      Attempted (bridgeSerde reader) methods server.state req true outcome next alive ∧
      Ready next id alive client' := by
  have some_ : (bridgeSerde reader).toVec req ≠ [] := toVec_ne_nil req
  rcases Nat.lt_or_ge maxFrame ((bridgeSerde reader).toVec req).length with large | small
  · obtain ⟨after, last, kind, origin, gone, kept, same, left⟩ := @exchange_large _
      (daemonSerde reader) methods choices (bridgeSerde reader) _ _ _ clean here nothing fits large
        id
    -- Whichever of its calls fails, the client takes the stream for lost.
    have disconnected : kind.looksLikeDisconnect = true := by
      rcases origin with rfl | rfl
      · exact lost.1
      · exact lost.2
    exact ⟨_, _, _, _, gone, .cut disconnected fits large, same ▸ ready_on false kept left id⟩
  · have parsed := request_reaches reads numbered valid
    obtain ⟨next, outcome, executed⟩ : ∃ next outcome,
        methods server.state req = (next, outcome) := ⟨_, _, rfl⟩
    cases outcome with
    | none =>
      obtain ⟨after, last, gone, kept, same, left⟩ := exchange_panicked choices
        (bridgeSerde reader) clean here nothing some_ small parsed executed id
      exact ⟨_, _, _, _, gone, .panicked lost.2 small executed, same ▸ ready_on false kept left id⟩
    | some outcome =>
      have short := sound.small server.state req.id next outcome numbered executed
      obtain ⟨after, last, came, kept, same, waits⟩ := exchange_answered choices
        (bridgeSerde reader) clean here nothing some_ small parsed executed short id
      -- What the client reads is what the method has returned.
      have told := sound.outcome server.state req.id next outcome executed
      rw [outcome_reaches reads numbered told] at came
      exact ⟨_, _, _, _, came, .answered small executed, same ▸ ready_on true kept waits id⟩

/-- An attempt is one of those that there are, and leaves the client ready. -/
theorem tryCall_attempted {state : State} {id : Nat} {alive : Bool}
    {client : DaemonClient (Server State) (Socket Json)} (ready : Ready state id alive client)
    (numbered : id < 2 ^ 64) {method : String} {args : Json}
    (valid : args.Sound reader (maxNesting - 1)) (sound : methods.Sound reader method args) :
    ∃ outcome next alive' client',
      tryCall (bridgeSerde reader) (Server.transport (daemonSerde reader) choices methods) method
          args client = some (outcome, client') ∧
        Attempted (bridgeSerde reader) methods state { id, method, params := args } alive outcome
          next alive' ∧
        Ready next (id + 1) alive' client' := by
  obtain ⟨stream, nextId, server⟩ := client
  obtain ⟨clean, rfl, rfl, connects, read⟩ := ready
  simp only at clean connects read
  -- The number is taken before anything else, also by a request that is not sent.
  have fresh : freshId { stream, nextId, world := server } =
      some (.ok nextId, { stream, nextId := nextId + 1, world := server }) := rfl
  rw [tryCall, Call.bind_ok fresh]
  simp only
  split
  · rename_i large
    exact ⟨_, _, _, _, rfl, .refused large, clean, rfl, rfl, connects, read⟩
  · rename_i fits
    have fits := Nat.not_le.mp fits
    cases stream with
    | none =>
      -- A new stream is alive.
      cases connects rfl
      have connected : ensureConnected (Server.transport (daemonSerde reader) choices methods)
          { stream := none, nextId := nextId + 1, world := server } =
          some (.ok (), on (.accepted []) 0 (nextId + 1) server) := rfl
      rw [Call.bind_ok connected]
      exact exchange_attempted reads lost clean rfl rfl valid sound numbered fits (nextId + 1)
    | some socket =>
      obtain ⟨conn, taken⟩ := socket
      obtain ⟨all, there⟩ := read _ rfl
      simp only at all there
      subst all
      have connected : ensureConnected (Server.transport (daemonSerde reader) choices methods)
          (on conn conn.output.length (nextId + 1) server) =
          some (.ok (), on conn conn.output.length (nextId + 1) server) := rfl
      rw [← on, Call.bind_ok connected]
      cases alive with
      | true =>
        obtain ⟨here, nothing⟩ := there
        exact exchange_attempted reads lost clean here nothing valid sound numbered fits
          (nextId + 1)
      | false =>
        have left : conn.left = true := there
        obtain ⟨turns, gone⟩ := @exchange_left _ (daemonSerde reader) methods choices
          (bridgeSerde reader) _ server left
          ((bridgeSerde reader).toVec { id := nextId, method, params := args }) conn.output.length
          (nextId + 1)
        have clean' : Server.pool { server with turns } |>.Clean := clean
        exact ⟨_, _, _, _, gone, .stale lost.1 fits, ready_on false clean' left (nextId + 1)⟩

/-- A call executes its method as often as it makes attempts that get through. -/
theorem call_executed {state : State} {id : Nat} {alive : Bool}
    {client : DaemonClient (Server State) (Socket Json)} (ready : Ready state id alive client)
    (numbered : id + 1 < 2 ^ 64) {method : String} {args : Json}
    (valid : args.Sound reader (maxNesting - 1)) (sound : methods.Sound reader method args) :
    ∃ outcome next id' alive' client', id' ≤ id + 2 ∧
      call (bridgeSerde reader) (Server.transport (daemonSerde reader) choices methods) method args
          client = some (outcome, client') ∧
        Executed (bridgeSerde reader) methods state id method args alive outcome next id' alive' ∧
        Ready next id' alive' client' := by
  obtain ⟨outcome, next, alive', client', tried, attempt, ready'⟩ :=
    tryCall_attempted reads lost ready (by omega) valid sound
  rw [call, tried]
  cases outcome with
  | ok value =>
    -- What comes with a value is not tried again.
    exact ⟨_, _, _, _, _, by omega, rfl, .once attempt (fun e same => by cases same), ready'⟩
  | error e =>
    simp only
    split
    · -- The stream is given up, and the second attempt takes the next number.
      rename_i disconnected
      obtain ⟨outcome, last, alive'', client'', again, second, ready''⟩ :=
        tryCall_attempted reads lost ready'.reconnect numbered valid sound
      exact ⟨_, _, _, _, _, by omega, again, .again attempt disconnected second, ready''⟩
    · rename_i connected
      exact ⟨_, _, _, _, _, by omega, rfl, .once attempt
        (fun other same => by cases same; exact Bool.eq_false_iff.mpr connected), ready'⟩

end

/-- What an optional member is, with a sound value in its place, is sound. -/
theorem Json.Sound.getD {reader : JsonReader} {levels : Nat} {value other : Json}
    (sound : value.Sound reader levels) (otherwise : other.Sound reader (levels - 1))
    (key : String) : ((value.get key).getD other).Sound reader (levels - 1) := by
  cases there : value.get key with
  | none => exact otherwise
  | some member => exact sound.get there

/-- The arguments of a call that a message asks for are as sound as its parameters. -/
theorem errandOf_sound {reader : JsonReader} {levels : Nat} (deep : 1 < levels) {texts : McpTexts}
    {number number' params args : Json} {method method' : String}
    (sound : params.Sound reader levels)
    (asked : errandOf texts number method params = .call number' method' args) :
    args.Sound reader levels := by
  unfold errandOf at asked
  split at asked
  · cases asked
  · cases asked
  · split at asked
    · cases asked
    · split at asked
      · cases asked
      · cases asked
        -- Without arguments, an empty object is sent.
        have empty : (Json.object []).Sound reader (levels - 1) :=
          ⟨Nat.sub_pos_of_lt deep, .nil, trivial⟩
        exact (sound.getD empty "arguments").mono (Nat.sub_le levels 1)
  · cases asked
  · cases asked

/-- The arguments of a call that a line asks for are as sound as the line. -/
theorem errand_sound {reader : JsonReader} {texts : McpTexts} {line : List Char}
    (parses : ∀ value, texts.fromStr line = .ok value → value.Sound reader maxNesting)
    {number : Json} {method : String} {args : Json}
    (asked : errand texts line = .call number method args) :
    args.Sound reader (maxNesting - 1) := by
  unfold errand at asked
  split at asked
  · cases asked
  · cases parsed : texts.fromStr line with
    | error e =>
      rw [parsed] at asked
      cases asked
    | ok req =>
      rw [parsed] at asked
      simp only at asked
      split at asked
      · cases asked
      · -- Without parameters, the message is handled as if they were null.
        have null : Json.null.Sound reader (maxNesting - 1) := trivial
        exact errandOf_sound (by decide) ((parses req parsed).getD null "params") asked

/--
Whatever lines a client of the bridge writes, and however the daemon's work on its connection is
timed, what is written in return is what comes of calling the methods of the daemon themselves, one
call after the other. A method is called a second time for a line only after it has panicked, and
a call fails without its method having returned only if it is too large or its method has panicked.
The numbers in the lines and in the results have to be such as the library reads as they are
written.
-/
theorem bridge_is_transparent {State : Type} {reader : JsonReader} (reads : reader.Reads)
    {methods : Methods State Json} {texts : McpTexts} {lines : List (List Char)}
    (parses : ∀ line ∈ lines, ∀ value, texts.fromStr line = .ok value →
      value.Sound reader maxNesting)
    (sound : ∀ line ∈ lines, ∀ number method args,
      errand texts line = .call number method args → methods.Sound reader method args)
    {choices : SystemChoices}
    (lost : choices.writeFails.looksLikeDisconnect = true ∧
      choices.readFails.looksLikeDisconnect = true)
    (server : Server State) (clean : server.pool.inner = []) (few : 2 * lines.length < 2 ^ 64) :
    ∃ last, Conversation (bridgeSerde reader) methods texts server.state 1 true lines
      (runLoop texts (bridgeSerde reader) (Server.transport (daemonSerde reader) choices methods)
        (DaemonClient.unconnected server) lines) last := by
  suffices follow : ∀ (rest : List (List Char)) state id alive client, rest ⊆ lines →
      id + 2 * rest.length ≤ 2 ^ 64 → Ready state id alive client →
      ∃ last, Conversation (bridgeSerde reader) methods texts state id alive rest
        (runLoop texts (bridgeSerde reader)
          (Server.transport (daemonSerde reader) choices methods) client rest) last by
    refine follow lines server.state 1 true (DaemonClient.unconnected server) (List.Subset.refl _)
      (by omega) ⟨?_, rfl, rfl, fun _ => rfl, fun _ none => by cases none⟩
    intro buf member
    rw [DaemonClient.unconnected, clean] at member
    cases member
  -- Each call takes two numbers at most, so that there is one for each attempt.
  intro rest
  induction rest with
  | nil => exact fun state id alive client _ _ ready => ⟨state, .nil⟩
  | cons line rest ih =>
    intro state id alive client inside few ready
    obtain ⟨here, later⟩ := List.cons_subset.mp inside
    rw [List.length_cons] at few
    rw [runLoop, respond_eq_errand]
    cases asked : errand texts line with
    | write messages =>
      -- The daemon is not asked.
      obtain ⟨last, onward⟩ := ih state id alive client later (by omega) ready
      exact ⟨last, .write asked onward⟩
    | call number method args =>
      have valid := errand_sound (parses line here) asked
      obtain ⟨outcome, next, id', alive', client', next_id, called, executed, ready'⟩ :=
        call_executed reads lost ready (by omega) valid (sound line here number method args asked)
      obtain ⟨last, onward⟩ := ih next id' alive' client' later (by omega) ready'
      simp only [runErrand, called, Option.map_some]
      exact ⟨last, .call asked executed onward⟩

/-- A library that reads whole numbers only. -/
def wholeReader : JsonReader where
  fromSlice bytes :=
    match (Text.decodeUtf8 bytes).bind readJson with
    | some value => .ok value
    | none => .error "expected value at line 1 column 1"
  unexpected _ := "missing field"

/-- It reads what is written, if all numbers are whole. -/
theorem wholeReader_write {value : Json} (whole : value.Whole) :
    wholeReader.fromSlice (Text.encodeUtf8 value.write) = .ok value := by
  simp only [wholeReader, Text.decodeUtf8_encodeUtf8, Option.bind_some, readJson_write whole]

/-- A number that it reads as it is written is whole. -/
theorem isWhole_of_readsNumber {text : String} (reads : wholeReader.ReadsNumber text) :
    isWhole text.toList = true := by
  simp only [JsonReader.ReadsNumber, wholeReader, Text.decodeUtf8_encodeUtf8,
    Option.bind_some] at reads
  -- The reader refuses every number that is not whole.
  split at reads
  · rename_i value read
    cases reads
    exact isWhole_of_readJson read
  · cases reads

mutual

/-- The values that are sound for it have whole numbers only. -/
theorem Json.Sound.whole : ∀ {value : Json} {levels : Nat}, value.Sound wholeReader levels →
    value.Whole
  | .null, _, _ | .bool _, _, _ | .string _, _, _ => trivial
  | .number _, _, sound => ⟨sound.1, isWhole_of_readsNumber sound.2⟩
  | .array _, _, sound => Json.SoundItems.whole sound.2
  | .object _, _, sound => Json.SoundMembers.whole sound.2.2

/-- And so have sound items. -/
theorem Json.SoundItems.whole : ∀ {items : List Json} {levels : Nat},
    Json.SoundItems wholeReader levels items → Json.WholeItems items
  | [], _, _ => trivial
  | _ :: _, _, sound => ⟨sound.1.whole, Json.SoundItems.whole sound.2⟩

/-- And sound members. -/
theorem Json.SoundMembers.whole : ∀ {members : List (String × Json)} {levels : Nat},
    Json.SoundMembers wholeReader levels members → Json.WholeMembers members
  | [], _, _ => trivial
  | (_, _) :: _, _, sound => ⟨sound.1.whole, Json.SoundMembers.whole sound.2⟩

end

/-- Whole numbers are read as they are written. -/
theorem wholeReader_readsNumber {text : List Char}
    (formed : (Json.number (String.ofList text)).Formed) (whole : isWhole text = true) :
    wholeReader.ReadsNumber (String.ofList text) := by
  have value : (Json.number (String.ofList text)).Whole :=
    ⟨formed, by rwa [String.toList_ofList]⟩
  have read := wholeReader_write value
  rwa [Json.write] at read

/-- What it reads is what was written. -/
theorem wholeReader_reads : wholeReader.Reads where
  whole n fits := wholeReader_readsNumber (decimal_formed n) (isWhole_decimal fits)
  negative n above below := by
    refine wholeReader_readsNumber ?_ (isWhole_negative above below)
    -- The sign and the digits are those that a negative number is written with.
    have signed := Json.ofI32_formed (-n)
    rwa [Json.ofI32, if_pos (by omega), Int.natAbs_neg, Int.natAbs_natCast] at signed
  members members _ sound := by
    have whole : (Json.object members).Whole := Json.SoundMembers.whole sound
    exact wholeReader_write whole

/-- A method that panics when it is called first, and then counts its calls. -/
def panicsOnce : Methods Nat Json := fun calls _ =>
  if calls = 0 then (1, none) else (calls + 1, some (.ok (.bool true)))

/-- The message of a client that calls a tool. -/
def callPing : Json := .object
  [("id", .ofU64 1), ("method", .string "tools/call"),
    ("params", .object [("name", .string "metrics_gain")])]

/-- The client's messages are read by the same library, and all it writes is `true`. -/
def wholeTexts : McpTexts where
  fromStr line :=
    match readJson line with
    | some value => .ok value
    | none => .error "expected value at line 1 column 1"
  toStringPretty _ := "true"
  describe _ := "lost"
  toolDefinitions := .array []

/-- A daemon without buffers, with which nothing has been done. -/
def untouched : Server Nat := { pool := framePool, state := 0, turns := [true, false, true] }

/-- What the system reports of streams that are lost. -/
def brokenPipes : SystemChoices :=
  { room := 0, writeFails := .brokenPipe, readFails := .unexpectedEof }

/-- The message is a sound value. -/
theorem callPing_sound : callPing.Sound wholeReader maxNesting := by
  refine ⟨by decide, by decide, Json.ofU64_sound wholeReader_reads (by decide) _, trivial, ?_,
    trivial⟩
  exact ⟨by decide, List.pairwise_singleton _ _, trivial, trivial⟩

/-- The method's results are short. -/
theorem panicsOnce_sound (method : String) (args : Json) :
    panicsOnce.Sound wholeReader method args := by
  constructor
  · intro state id next outcome executed
    unfold panicsOnce at executed
    split at executed
    · cases executed
    · cases executed
      trivial
  · intro state id next outcome numbered executed
    unfold panicsOnce at executed
    split at executed
    · cases executed
    · cases executed
      -- All but the number is fixed, and the number has twenty digits at most.
      have digits : (Text.decimal id).length ≤ 20 :=
        (Nat.length_toDigits_le_iff (by decide) (by decide)).mpr (by omega)
      have bytes := Text.length_encodeUtf8_le
        (Response.dispatched id (.ok (.bool true))).toJson.write
      have length : (Response.dispatched id (.ok (.bool true))).toJson.write.length =
          (Text.decimal id).length + 21 := by
        have id : (Text.quoted "id".toList).length = 4 := by decide
        have result : (Text.quoted "result".toList).length = 8 := by decide
        simp only [Response.toJson, Response.dispatched, Option.toList_some, Option.toList_none,
          List.map_cons, List.map_nil, List.append_nil, Json.write, Json.writeMembers, Json.ofU64,
          String.toList_ofList, List.length_append, List.length_cons, List.length_nil, id, result]
        have := (by decide : "true".toList.length = 4)
        omega
      have := (by decide : 4 * 41 ≤ maxFrame)
      simp only [daemonSerde]
      omega

/-- The method that panics once is called a second time, and its result is what is written. -/
theorem bridge_is_transparent_panic :
    ∃ last, Conversation (bridgeSerde wholeReader) panicsOnce wholeTexts 0 1 true [callPing.write]
      (runLoop wholeTexts (bridgeSerde wholeReader)
        (Server.transport (daemonSerde wholeReader) brokenPipes panicsOnce)
        (DaemonClient.unconnected untouched) [callPing.write]) last := by
  refine bridge_is_transparent wholeReader_reads ?_
    (fun _ _ _ method args _ => panicsOnce_sound method args) ⟨rfl, rfl⟩ untouched rfl (by decide)
  -- There is one line, which is the call of a method without parameters.
  intro line member value parsed
  cases List.mem_singleton.mp member
  simp only [wholeTexts, readJson_write callPing_sound.whole] at parsed
  cases parsed
  exact callPing_sound

end McpCli
