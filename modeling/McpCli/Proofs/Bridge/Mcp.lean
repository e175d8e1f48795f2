import McpCli.Bridge.Mcp

/-! Which messages of the client are answered by the bridge. -/

namespace McpCli

/-- A response to the message of this number. -/
def IsResponse (id response : Json) : Prop :=
  (∃ result, response = resultMessage id result) ∨
    ∃ message, response = errorMessage id (-32000) message

/-- A message with a number has one response with this number, and another one has none. -/
def AnsweredRight (message : Json) (written : List Json) : Prop :=
  match message.get "id" with
  | some id => ∃ response, written = [response] ∧ IsResponse id response
  | none => written = []

/-- Whether the method of a message begins like that of a notification. -/
def namedNotification (message : Json) : Bool :=
  "notifications/".toList.isPrefixOf (((message.get "method").bind Json.asStr).getD "").toList

/-- A message without a number is named like a notification, and none with the number `null` is. -/
def NamedByNumber (message : Json) : Prop :=
  match message.get "id" with
  | some id => id.isNull = true → namedNotification message = false
  | none => namedNotification message = true

/-- The daemon, and the system, answer to all that is done with a stream. -/
structure Transport.Answers {World Stream : Type} (transport : Transport World Stream) : Prop where
  writeAll : ∀ bytes stream world, (transport.writeAll bytes stream world).isSome
  flush : ∀ stream world, (transport.flush stream world).isSome
  readExact : ∀ length stream world, (transport.readExact length stream world).isSome

namespace Call

variable {World Stream α β : Type}

/-- It ends, with a result or with an error. -/
def Returns (computation : Call World Stream α) : Prop := ∀ client, (computation client).isSome

/-- What ends at once ends. -/
theorem returns_finish (result : Except CallError α) :
    (finish result : Call World Stream α).Returns := fun _ => rfl

/-- One thing after another ends if both end. -/
theorem Returns.bind {first : Call World Stream α} {next : α → Call World Stream β}
    (firstEnds : first.Returns) (nextEnds : ∀ a, (next a).Returns) : (first >>= next).Returns := by
  intro client
  obtain ⟨⟨outcome, after⟩, done⟩ := Option.isSome_iff_exists.mp (firstEnds client)
  -- What comes second is done only if the first thing has a result.
  simp only [Bind.bind, done]
  cases outcome with
  | error e => rfl
  | ok a => exact nextEnds a after

/-- What is done with the stream ends if the stream answers. -/
theorem returns_onStream {op : Stream → World → Option (Except ErrorKind α × Stream × World)}
    (answers : ∀ stream world, (op stream world).isSome) : (onStream op).Returns := by
  intro client
  -- Without a stream nothing is waited for.
  unfold onStream
  split
  · rfl
  · rename_i stream _
    obtain ⟨⟨outcome, after⟩, done⟩ := Option.isSome_iff_exists.mp (answers stream client.world)
    rw [done]
    cases outcome with
    | error kind => rfl
    | ok a => rfl

end Call

section

variable {World Stream : Type} (texts : McpTexts) (serde : Serde Json)
  (transport : Transport World Stream)

/-- An attempt at a call ends if the daemon answers. -/
theorem tryCall_returns (answers : transport.Answers) (method : String) (params : Json) :
    (tryCall serde transport method params).Returns := by
  -- Each operation on the stream is answered, and nothing else is waited for.
  refine Call.Returns.bind (fun _ => rfl) fun id => ?_
  simp only
  split
  · exact Call.returns_finish _
  · refine Call.Returns.bind ?_ fun _ => Call.Returns.bind ?_ fun _ => ?_
    · -- Connecting does not wait for the daemon.
      intro client
      unfold ensureConnected
      split
      · rfl
      · split
        all_goals rfl
    · exact (Call.returns_onStream (answers.writeAll _)).bind fun _ =>
        (Call.returns_onStream (answers.writeAll _)).bind fun _ =>
          Call.returns_onStream answers.flush
    · refine (Call.returns_onStream (answers.readExact 4)).bind fun lenBuf => ?_
      simp only
      split
      · exact Call.returns_finish _
      · exact (Call.returns_onStream (answers.readExact _)).bind fun _ => Call.returns_finish _

/-- A call ends if the daemon answers. -/
theorem call_returns (answers : transport.Answers) (method : String) (params : Json) :
    (call serde transport method params).Returns := by
  intro client
  obtain ⟨⟨outcome, after⟩, done⟩ := Option.isSome_iff_exists.mp
    (tryCall_returns serde transport answers method params client)
  unfold call
  rw [done]
  -- After an error there is one more attempt at most.
  cases outcome with
  | ok value => rfl
  | error e =>
    simp only
    split
    · exact tryCall_returns serde transport answers method params _
    · rfl

/-- A message is handled, one way or the other, if the daemon answers. -/
theorem handle_returns (answers : transport.Answers) (method : String) (params : Json)
    (client : DaemonClient World Stream) :
    ∃ outcome next, handle texts serde transport method params client = some (outcome, next) := by
  -- Only the call of a known tool asks the daemon.
  unfold handle
  split
  · exact ⟨_, _, rfl⟩
  · exact ⟨_, _, rfl⟩
  · unfold toolsCall
    split
    · exact ⟨_, _, rfl⟩
    · split
      · exact ⟨_, _, rfl⟩
      · rename_i daemonMethod _
        obtain ⟨⟨outcome, next⟩, called⟩ := Option.isSome_iff_exists.mp
          (call_returns serde transport answers daemonMethod
            ((params.get "arguments").getD (.object [])) client)
        simp only [called]
        cases outcome with
        | error e => exact ⟨_, _, rfl⟩
        | ok result => exact ⟨_, _, rfl⟩
  · exact ⟨_, _, rfl⟩
  · exact ⟨_, _, rfl⟩

/-- What is written for a message is right exactly if its name fits to its number. -/
theorem respond_spec (answers : transport.Answers)
    (blankFails : ∀ line, Text.trim line = [] → ∃ e, texts.fromStr line = .error e)
    {line : List Char} {members : List (String × Json)}
    (parsed : texts.fromStr line = .ok (.object members)) (client : DaemonClient World Stream) :
    ∃ written next, respond texts serde transport line client = some (written, next) ∧
      (AnsweredRight (.object members) written ↔ NamedByNumber (.object members)) := by
  have text : Text.trim line ≠ [] := by
    intro blank
    obtain ⟨e, fails⟩ := blankFails line blank
    rw [fails] at parsed
    cases parsed
  obtain ⟨outcome, next, handled⟩ := handle_returns texts serde transport answers
    (((Json.object members).get "method").bind Json.asStr |>.getD "")
    (((Json.object members).get "params").getD .null) client
  -- The response carries the number, or `null` if there is none.
  obtain ⟨response, said, isResponse⟩ : ∃ response,
      (match outcome with
        | .ok result => resultMessage (((Json.object members).get "id").getD .null) result
        | .error e => errorMessage (((Json.object members).get "id").getD .null) (-32000) e) =
        response ∧ IsResponse (((Json.object members).get "id").getD .null) response := by
    cases outcome with
    | error e => exact ⟨_, rfl, .inr ⟨e, rfl⟩⟩
    | ok result => exact ⟨_, rfl, .inl ⟨result, rfl⟩⟩
  have responds : respond texts serde transport line client =
      if (((Json.object members).get "id").getD .null).isNull ∧
          namedNotification (.object members) = true then some ([], client)
      else some ([response], next) := by
    simp only [respond, if_neg text, parsed, handled, ← said]
    unfold namedNotification
    cases outcome with
    | error e => rfl
    | ok result => rfl
  rw [responds]
  unfold AnsweredRight NamedByNumber
  cases number : (Json.object members).get "id" with
  | some id =>
    rw [number, Option.getD_some] at isResponse
    rw [Option.getD_some]
    by_cases silent : id.isNull ∧ namedNotification (.object members) = true
    · refine ⟨[], client, if_pos silent, ?_⟩
      simp [silent.1, silent.2]
    · refine ⟨[response], next, if_neg silent, ?_⟩
      simp only [List.cons.injEq, and_true, exists_eq_left', isResponse, true_iff]
      intro null
      simpa [null] using silent
  | none =>
    rw [Option.getD_none]
    by_cases named : namedNotification (.object members) = true
    · exact ⟨[], client, if_pos ⟨rfl, named⟩, by simp [named]⟩
    · exact ⟨[response], next, if_neg fun both => named both.2, by simp [named]⟩

/--
Every message with a number has one response with this number, in the order of the messages, and
nothing is written for the other ones, exactly if those are the ones named like notifications, and
none with the number `null` is.
-/
theorem answered_right_iff (answers : transport.Answers)
    (blankFails : ∀ line, Text.trim line = [] → ∃ e, texts.fromStr line = .error e)
    (client : DaemonClient World Stream) {lines : List (List Char)}
    {messages : List (List (String × Json))}
    (parsed : List.Forall₂ (fun line members => texts.fromStr line = .ok (.object members))
      lines messages) :
    List.Forall₂ (fun members written => AnsweredRight (.object members) written) messages
        (runLoop texts serde transport client lines) ↔
      ∀ members ∈ messages, NamedByNumber (.object members) := by
  -- The client goes on in whatever state a message has left it.
  induction parsed generalizing client with
  | nil => simp [runLoop]
  | @cons line members rest others first later ih =>
    obtain ⟨written, next, responds, right⟩ :=
      respond_spec texts serde transport answers blankFails first client
    rw [runLoop, responds]
    simp only [List.forall₂_cons, List.forall_mem_cons, right, ih next]

end

/-- A daemon that nobody can connect to. -/
def refusing : Transport Unit Unit where
  connect := fun world => (.error (.io .connectionRefused), world)
  writeAll := fun _ stream world => some (.error .brokenPipe, stream, world)
  flush := fun stream world => some (.error .brokenPipe, stream, world)
  readExact := fun _ stream world => some (.error .unexpectedEof, stream, world)

/-- A library that writes requests without bytes. -/
def emptySerde : Serde Json where
  toVec := fun _ => []
  fromSlice := fun _ => none
  null := .null

/-- It fails at once. -/
theorem refusing_answers : refusing.Answers where
  writeAll := fun _ _ _ => rfl
  flush := fun _ _ => rfl
  readExact := fun _ _ _ => rfl

/-- A reader of these messages, as they are written. -/
def readerOf (messages : List (List (String × Json))) : McpTexts where
  fromStr := fun line =>
    match messages.find? fun members => (Json.object members).write = line with
    | some members => .ok (.object members)
    | none => .error "expected value"
  toStringPretty := fun value => String.ofList value.write
  describe := fun _ => "the daemon cannot be reached"
  toolDefinitions := .array []

/-- What is blank is no message. -/
theorem readerOf_blank (messages : List (List (String × Json))) (line : List Char)
    (blank : Text.trim line = []) : ∃ e, (readerOf messages).fromStr line = .error e := by
  unfold readerOf
  simp only
  split
  · rename_i members found
    have written : (Json.object members).write = line := by simpa using List.find?_some found
    rw [← written] at blank
    -- A message that is written begins with a brace.
    cases members with
    | nil => exact absurd blank (Text.trim_cons_ne_nil (by decide) _)
    | cons member others => exact absurd blank (Text.trim_cons_ne_nil (by decide) _)
  · exact ⟨_, rfl⟩

/-- The client, before it has connected. -/
def unconnected : DaemonClient Unit Unit := { stream := none, nextId := 1, world := () }

/-- A message without a number that is no notification by its name. -/
def pingWithoutNumber : List (String × Json) :=
  [("jsonrpc", .string "2.0"), ("method", .string "ping")]

/-- Something is written for a message without a number. -/
theorem not_answered_right_ping :
    runLoop (readerOf [pingWithoutNumber]) emptySerde refusing unconnected
        [(Json.object pingWithoutNumber).write] = [[resultMessage .null (.object [])]] ∧
      ¬ AnsweredRight (.object pingWithoutNumber) [resultMessage .null (.object [])] := by
  refine ⟨rfl, ?_⟩
  intro right
  cases right

/-- A start of a session: a notification between requests, one of which fails. -/
def session : List (List (String × Json)) :=
  [[("id", .number "1"), ("method", .string "tools/list")],
    [("method", .string "notifications/initialized")],
    [("id", .string "a"), ("method", .string "tools/call"),
      ("params", .object [("name", .string "fs_read")])]]

/-- Both requests are answered under their numbers, and the notification is not. -/
theorem answered_right_session :
    List.Forall₂ (fun members written => AnsweredRight (.object members) written) session
      (runLoop (readerOf session) emptySerde refusing unconnected
        (session.map fun members => (Json.object members).write)) := by
  refine (answered_right_iff (readerOf session) emptySerde refusing refusing_answers
    (readerOf_blank session) unconnected ?_).mpr ?_
  · -- Each line is read as the message that was written.
    exact .cons rfl (.cons rfl (.cons rfl .nil))
  · intro members member
    simp only [session, List.mem_cons, List.not_mem_nil, or_false] at member
    rcases member with rfl | rfl | rfl
    · exact fun null => absurd null (by decide)
    · show namedNotification _ = true
      decide
    · exact fun null => absurd null (by decide)

end McpCli
