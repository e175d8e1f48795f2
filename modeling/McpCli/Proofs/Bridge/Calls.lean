import McpCli.Bridge.Calls
import McpCli.Proofs.Daemon.Framing

/-! When every call gets the answer to its own request from a stream that holds nothing else. -/

namespace McpCli

variable {Value State : Type} {serde : Serde Value} {daemon : Answering State}

namespace Call

variable {World Stream α β : Type}

/-- A computation that succeeds hands its result and the client over to the next one. -/
theorem bind_ok {first : Call World Stream α} {next : α → Call World Stream β} {a : α}
    {client after : DaemonClient World Stream} (ran : first client = some (.ok a, after)) :
    (first >>= next) client = next a after := by
  simp only [bind, ran]

end Call

namespace Answering

/-- The response frame is the response with its length in front, which fits in four bytes. -/
theorem frame_eq (daemon : Answering State) (st : State) (payload : List UInt8) :
    daemon.frame st payload = Bytes.toBe 4 (daemon.respond st payload).2.length ++
        (daemon.respond st payload).2 ∧
      (daemon.respond st payload).2.length < 2 ^ 32 := by
  -- The daemon only gives responses that can be written.
  have written := daemon.encodable st payload
  by_cases fits : (daemon.respond st payload).2.length < 2 ^ 32
  · have whole : writeFrame (daemon.respond st payload).2 = some (Bytes.toBe 4
        (daemon.respond st payload).2.length ++ (daemon.respond st payload).2) := if_pos fits
    exact ⟨by rw [Answering.frame, Option.get_of_eq_some _ whole], fits⟩
  · rw [writeFrame, if_neg fits] at written
    cases written

end Answering

/-- A client whose stream holds what it has not read of earlier responses. -/
def DaemonClient.behind (id : Nat) (st : State) (unread : List UInt8) : DaemonClient State Pipe :=
  { stream := some { unread, written := [] }, nextId := id, world := st }

/-- A client on a stream without unread bytes. -/
def DaemonClient.ready (id : Nat) (st : State) : DaemonClient State Pipe := behind id st []

open DaemonClient

/-- A written request is answered by one response frame, behind what is unread already. -/
theorem writeRequest_behind (daemon : Answering State) {payload : List UInt8}
    (fits : payload.length < 2 ^ 32) (id : Nat) (st : State) (unread : List UInt8) :
    writeRequest daemon.transport payload (behind id st unread) =
      some (.ok (), behind id (daemon.respond st payload).1
        (unread ++ daemon.frame st payload)) := by
  -- The daemon finds exactly the request frame on its side of the stream.
  have taken : splitFrame (Bytes.toBe 4 payload.length ++ payload) = some (payload, []) := by
    have split := splitFrame_append fits []
    rwa [List.append_nil] at split
  have flushed : Call.onStream daemon.transport.flush
      { stream := some { unread, written := Bytes.toBe 4 payload.length ++ payload }
        nextId := id
        world := st } =
      some (.ok (), behind id (daemon.respond st payload).1
        (unread ++ daemon.frame st payload)) := by
    simp [Call.onStream, Answering.transport, taken, behind]
  exact flushed

/-- Bytes that are there are read off the front. -/
theorem readExact_behind (daemon : Answering State) {front : List UInt8} {n : Nat}
    (exactly : front.length = n) (rest : List UInt8) (id : Nat) (st : State) :
    Call.onStream (daemon.transport.readExact n) (behind id st (front ++ rest)) =
      some (.ok front, behind id st rest) := by
  -- The stream is long enough, so the read does not stop short.
  have enough : n ≤ (front ++ rest).length := by
    rw [List.length_append]
    omega
  simp only [Call.onStream, behind, Answering.transport, if_pos enough, List.take_left' exactly,
    List.drop_left' exactly]

/-- Four bytes that spell too large a length end the attempt in front of what follows them. -/
theorem readResponse_large {header rest : List UInt8} (four : header.length = 4)
    (large : maxFrame < Bytes.fromBe header) (id : Nat) (st : State) :
    readResponse serde daemon.transport (behind id st (header ++ rest)) =
      some (.error (.responseTooLarge (Bytes.fromBe header)), behind id st rest) := by
  rw [readResponse, Call.bind_ok (readExact_behind daemon four rest id st)]
  simp only [if_pos large]
  rfl

/-- A response is read to its end, or left where it is behind its length when it is too large. -/
theorem readResponse_behind {response : List UInt8} (fits : response.length < 2 ^ 32) (id : Nat)
    (st : State) :
    readResponse serde daemon.transport
        (behind id st (Bytes.toBe 4 response.length ++ response)) =
      if maxFrame < response.length then
        some (.error (.responseTooLarge response.length), behind id st response)
      else some (Response.outcome serde (serde.fromSlice response), ready id st) := by
  have spelled := fromBe_length fits
  split
  · rename_i large
    rw [readResponse_large (Bytes.length_toBe 4 _) (by rw [spelled]; exact large), spelled]
  · rename_i small
    -- The length says how long the body is, and nothing follows it.
    have body := readExact_behind daemon (rfl : response.length = _) [] id st
    rw [List.append_nil] at body
    rw [readResponse, Call.bind_ok (readExact_behind daemon (Bytes.length_toBe 4 _) response id st)]
    simp only [spelled, if_neg small]
    rw [Call.bind_ok body]
    rfl

/-- An attempt sends its request, and then reads what comes first on the stream. -/
theorem tryCall_behind (id : Nat) (st : State) (unread : List UInt8) (method : String)
    (params : Value) :
    tryCall serde daemon.transport method params (behind id st unread) =
      match answerTo serde daemon st { id, method, params } with
      | (next, none) => some (.error .requestTooLarge, behind (id + 1) next unread)
      | (next, some response) => readResponse serde daemon.transport
          (behind (id + 1) next (unread ++ (Bytes.toBe 4 response.length ++ response))) := by
  -- The call takes the next id, whatever bytes it is still behind by.
  have fresh : freshId (behind id st unread) = some (.ok id, behind (id + 1) st unread) := rfl
  rw [tryCall, Call.bind_ok fresh, answerTo]
  by_cases fits : (serde.toVec { id, method, params }).length < 2 ^ 32
  · have open_ : ensureConnected daemon.transport (behind (id + 1) st unread) =
      some (.ok (), behind (id + 1) st unread) := rfl
    have written := writeRequest_behind daemon fits (id + 1) st unread
    rw [(daemon.frame_eq st (serde.toVec { id, method, params })).1] at written
    simp only [if_pos fits, if_neg (Nat.not_le.mpr fits)]
    rw [Call.bind_ok open_, Call.bind_ok written]
  · -- Such a request is refused before any byte of it is written, so the daemon does not move.
    simp only [if_neg fits, if_pos (Nat.not_lt.mp fits)]
    rfl

/-- Every answer of the daemon has a length that fits in four bytes. -/
theorem answerTo_fits {st next : State} {req : Request Value} {response : List UInt8}
    (answered : answerTo serde daemon st req = (next, some response)) :
    response.length < 2 ^ 32 := by
  -- What is answered is what a frame was made of.
  rw [answerTo] at answered
  split at answered
  · simp only [Prod.mk.injEq, Option.some.injEq] at answered
    exact answered.2 ▸ (daemon.frame_eq st (serde.toVec req)).2
  · cases answered

/-- From a clean stream an attempt ends in one of three ways, and only one of them is unclean. -/
theorem tryCall_ready (id : Nat) (st : State) (method : String) (params : Value) :
    tryCall serde daemon.transport method params (ready id st) =
      match answerTo serde daemon st { id, method, params } with
      | (next, none) => some (.error .requestTooLarge, ready (id + 1) next)
      | (next, some response) =>
        if maxFrame < response.length then
          some (.error (.responseTooLarge response.length), behind (id + 1) next response)
        else some (Response.outcome serde (serde.fromSlice response), ready (id + 1) next) := by
  -- A client in step is one that is behind by no bytes.
  rw [ready, tryCall_behind]
  cases answered : answerTo serde daemon st { id, method, params } with
  | mk next answer =>
    cases answer with
    | none => rfl
    | some response => exact readResponse_behind (answerTo_fits answered) (id + 1) next

/-- A response that came through never looks like a disconnect, whatever it says. -/
theorem outcome_connected {response : Option (Response Value)} {e : CallError}
    (failed : Response.outcome serde response = .error e) : e.looksLikeDisconnect = false := by
  -- Such an error is a value that cannot be read, or the error that the daemon sent.
  cases response with
  | none =>
    cases failed
    rfl
  | some resp =>
    cases refused : resp.error with
    | none => simp [Response.outcome, refused] at failed
    | some err =>
      simp only [Response.outcome, refused, Except.error.injEq] at failed
      subst failed
      rfl

/-- Without a disconnect there is no second attempt. -/
theorem call_eq_tryCall {World Stream : Type} {transport : Transport World Stream}
    {method : String} {params : Value} {client : DaemonClient World Stream}
    (connected : ∀ e next,
      tryCall serde transport method params client = some (.error e, next) →
        e.looksLikeDisconnect = false) :
    call serde transport method params client =
      tryCall serde transport method params client := by
  rw [call]
  cases tried : tryCall serde transport method params client with
  | none => rfl
  | some ended =>
    obtain ⟨result, next⟩ := ended
    cases result with
    | ok value => rfl
    -- The error is not that of a lost connection, so there is no second try.
    | error e => simp [connected e next tried]

/-- From a clean stream a call is a single attempt. -/
theorem call_ready (id : Nat) (st : State) (method : String) (params : Value) :
    call serde daemon.transport method params (ready id st) =
      tryCall serde daemon.transport method params (ready id st) := by
  refine call_eq_tryCall ?_
  intro e next failed
  -- No error of the three ways in which the attempt can end comes from the operating system.
  rw [tryCall_ready] at failed
  cases answered : answerTo serde daemon st { id, method, params } with
  | mk after answer =>
    cases answer with
    | none =>
      simp only [answered, Option.some.injEq, Prod.mk.injEq, Except.error.injEq] at failed
      rw [← failed.1]
      rfl
    | some response =>
      simp only [answered] at failed
      split at failed
      · simp only [Option.some.injEq, Prod.mk.injEq, Except.error.injEq] at failed
        rw [← failed.1]
        rfl
      · simp only [Option.some.injEq, Prod.mk.injEq] at failed
        exact outcome_connected failed.1

/--
The call started on a stream without unread bytes, and it returned an error or what the daemon
answers to its own request.
-/
def Called.Sound (serde : Serde Value) (called : Called Value) : Prop :=
  called.unread = [] ∧
    match called.outcome with
    | none => False
    | some (.error _) => True
    | some (.ok value) => ∃ response, called.answer = some response ∧
        Response.outcome serde (serde.fromSlice response) = .ok value

/-- A call that returns is followed by the others, from the client that it leaves behind. -/
theorem calls_cons {client next : DaemonClient State Pipe} {method : String} {params : Value}
    {outcome : Except CallError Value}
    (made : call serde daemon.transport method params client = some (outcome, next))
    (rest : List (String × Value)) :
    calls serde daemon client ((method, params) :: rest) =
      { unread := client.unread, outcome := some outcome
        answer := (answerTo serde daemon client.world
          { id := client.nextId, method, params }).2 } :: calls serde daemon next rest := by
  simp only [calls, made]

/-- A call from a clean stream is sound, however it ends. -/
theorem sound_ready (serde : Serde Value) (daemon : Answering State) (id : Nat) (st : State)
    (method : String) (params : Value) :
    ∃ outcome next, call serde daemon.transport method params (ready id st) =
        some (outcome, next) ∧
      Called.Sound serde
        { unread := [], outcome := some outcome
          answer := (answerTo serde daemon st { id, method, params }).2 } := by
  rw [call_ready, tryCall_ready]
  cases answered : answerTo serde daemon st { id, method, params } with
  | mk after answer =>
    cases answer with
    -- A request that was not sent is not said to have an answer.
    | none => exact ⟨_, _, rfl, rfl, trivial⟩
    | some response =>
      simp only
      split
      · exact ⟨_, _, rfl, rfl, trivial⟩
      · refine ⟨_, _, rfl, rfl, ?_⟩
        -- Only a value claims something about the answer.
        cases said : Response.outcome serde (serde.fromSlice response) with
        | error e => trivial
        | ok value => exact ⟨response, rfl, said⟩

/-- The first of some calls starts with whatever the client has not read. -/
theorem first_unread (client : DaemonClient State Pipe) (request : String × Value)
    (rest : List (String × Value)) :
    ∃ called ∈ calls serde daemon client (request :: rest), called.unread = client.unread := by
  obtain ⟨method, params⟩ := request
  cases made : call serde daemon.transport method params client with
  | none => exact ⟨_, by rw [calls, made]; exact List.mem_singleton_self _, rfl⟩
  | some ended => exact ⟨_, by rw [calls, made]; exact List.mem_cons_self, rfl⟩

/-- After a response that is too large, whatever is called next does not start clean. -/
theorem next_unsound (serde : Serde Value) (daemon : Answering State) {response : List UInt8}
    (large : maxFrame < response.length) (id : Nat) (st : State) (request : String × Value)
    (rest : List (String × Value)) :
    ∃ called ∈ calls serde daemon (behind id st response) (request :: rest),
      ¬ called.Sound serde := by
  obtain ⟨called, member, unread⟩ := first_unread (behind id st response) request rest
  refine ⟨called, member, ?_⟩
  intro sound
  -- The body of the response is still there.
  have empty : response = [] := unread.symm.trans sound.1
  rw [empty, List.length_nil] at large
  exact absurd large (Nat.not_lt_zero _)

/--
However many calls follow one another, each one starts on a stream without unread bytes and
returns an error or the answer to its own request, if and only if no response but the last one is
larger than the client reads.
-/
theorem calls_sound_iff (serde : Serde Value) (daemon : Answering State) (st : State)
    (requests : List (String × Value)) :
    (∀ called ∈ calls serde daemon (DaemonClient.connected st) requests, called.Sound serde) ↔
      ∀ response, some response ∈ (answers serde daemon st 1 requests).dropLast →
        response.length ≤ maxFrame := by
  -- The induction follows the calls from one clean stream to the next.
  suffices follow : ∀ id st,
      (∀ called ∈ calls serde daemon (ready id st) requests, called.Sound serde) ↔
        ∀ response, some response ∈ (answers serde daemon st id requests).dropLast →
          response.length ≤ maxFrame from follow 1 st
  induction requests with
  | nil => simp [calls, answers]
  | cons request rest ih =>
    obtain ⟨method, params⟩ := request
    intro id st
    obtain ⟨outcome, next, made, sound⟩ := sound_ready serde daemon id st method params
    have sequence : calls serde daemon (ready id st) ((method, params) :: rest) =
        { unread := [], outcome := some outcome
          answer := (answerTo serde daemon st { id, method, params }).2 } ::
          calls serde daemon next rest := calls_cons made rest
    rw [sequence, List.forall_mem_cons, answers]
    cases rest with
    | nil => simp [sound, calls, answers]
    | cons second later =>
      have nonempty : answers serde daemon (answerTo serde daemon st { id, method, params }).1
          (id + 1) (second :: later) ≠ [] := by
        obtain ⟨method, params⟩ := second
        exact List.cons_ne_nil _ _
      rw [List.dropLast_cons_of_ne_nil nonempty]
      rw [call_ready, tryCall_ready] at made
      cases answered : answerTo serde daemon st { id, method, params } with
      | mk after answer =>
        simp only [answered] at made sound ⊢
        cases answer with
        | none =>
          -- Nothing was sent, and the stream is as clean as before.
          simp only [Option.some.injEq, Prod.mk.injEq] at made
          rw [← made.2, ih (id + 1) after]
          simp [sound]
        | some response =>
          simp only at made
          split at made
          · -- The response stays on the stream, where the second call finds it.
            rename_i large
            simp only [Option.some.injEq, Prod.mk.injEq] at made
            obtain ⟨called, member, unsound⟩ := next_unsound serde daemon large (id + 1)
              after second later
            rw [← made.2]
            refine ⟨fun all => absurd (all.2 called member) unsound, fun all => ?_⟩
            exact absurd (all response List.mem_cons_self) (Nat.not_le.mpr large)
          · rename_i small
            simp only [Option.some.injEq, Prod.mk.injEq] at made
            rw [← made.2, ih (id + 1) after]
            simp [sound, Nat.not_lt.mp small]

/-- The first bytes of a JSON response, which as a length are far beyond every limit. -/
def jsonStart : List UInt8 := [0x7B, 0x22, 0x69, 0x64]

/-- A response of four bytes more than the client reads. -/
def largeResponse : List UInt8 := jsonStart ++ List.replicate maxFrame 0x20

/-- The response is larger than the client reads, and can be written all the same. -/
theorem length_largeResponse : largeResponse.length = 4 + maxFrame := by
  rw [largeResponse, List.length_append, List.length_replicate]
  rfl

/-- A daemon that answers one request, the large read, at length, and every other one shortly. -/
def longReader : Answering Unit where
  respond _ payload := ((), if payload = [1] then largeResponse else [0x7B, 0x7D])
  encodable _ payload := by
    have fits : (if payload = [1] then largeResponse else [0x7B, 0x7D]).length < 2 ^ 32 := by
      split
      · rw [length_largeResponse]
        decide
      · decide
    show (writeFrame (if payload = [1] then largeResponse else [0x7B, 0x7D])).isSome
    rw [writeFrame, if_pos fits]
    rfl

/-- Requests of one byte, and a response that is the empty object. -/
def shortJson : Serde UInt8 where
  toVec req := [req.params]
  fromSlice bytes :=
    if bytes = [0x7B, 0x7D] then some { id := 0, result := some 0, error := none } else none
  null := 0

/--
A read whose response is too large fails and leaves the response on the stream. The next call
takes four bytes of it for the length of its own response and fails as well, although the
daemon's answer to it is short and well formed.
-/
theorem large_response_fails_next_call :
    ∃ first second, calls shortJson longReader (DaemonClient.connected ())
        [("fs.read", 1), ("fs.snapshot", 2)] = [first, second] ∧
      first.outcome = some (.error (.responseTooLarge (4 + maxFrame))) ∧
      second.unread = largeResponse ∧
      second.outcome = some (.error (.responseTooLarge 0x7B226964)) ∧
      second.answer = some [0x7B, 0x7D] ∧
      Response.outcome shortJson (shortJson.fromSlice [0x7B, 0x7D]) = .ok 0 := by
  have large : maxFrame < largeResponse.length := by
    rw [length_largeResponse]
    decide
  have long : answerTo shortJson longReader () { id := 1, method := "fs.read", params := 1 } =
      ((), some largeResponse) := rfl
  have short : answerTo shortJson longReader ()
      { id := 2, method := "fs.snapshot", params := 2 } = ((), some [0x7B, 0x7D]) := rfl
  have read : call shortJson longReader.transport "fs.read" 1 (ready 1 ()) =
      some (.error (.responseTooLarge largeResponse.length), behind 2 () largeResponse) := by
    rw [call_ready, tryCall_ready, long]
    simp only [if_pos large]
  have snapshot : ∃ after,
      call shortJson longReader.transport "fs.snapshot" 2 (behind 2 () largeResponse) =
        some (.error (.responseTooLarge 0x7B226964), after) := by
    have tried : tryCall shortJson longReader.transport "fs.snapshot" 2
        (behind 2 () largeResponse) =
        some (.error (.responseTooLarge 0x7B226964), behind 3 () (List.replicate maxFrame 0x20 ++
          (Bytes.toBe 4 2 ++ [0x7B, 0x7D]))) := by
      rw [tryCall_behind, short]
      -- What is read as a length is the beginning of the response before.
      show readResponse shortJson longReader.transport (behind 3 () (largeResponse ++ _)) = _
      rw [largeResponse, List.append_assoc]
      exact readResponse_large rfl (by decide) 3 ()
    refine ⟨_, (call_eq_tryCall ?_).trans tried⟩
    intro e next failed
    rw [tried, Option.some.injEq, Prod.mk.injEq, Except.error.injEq] at failed
    rw [← failed.1]
    rfl
  obtain ⟨after, snapshot⟩ := snapshot
  have sequence : calls shortJson longReader (ready 1 ()) [("fs.read", 1), ("fs.snapshot", 2)] =
      [{ unread := (ready 1 ()).unread
         outcome := some (.error (.responseTooLarge largeResponse.length))
         answer := (answerTo shortJson longReader ()
           { id := 1, method := "fs.read", params := 1 }).2 },
       { unread := (behind 2 () largeResponse).unread
         outcome := some (.error (.responseTooLarge 0x7B226964))
         answer := (answerTo shortJson longReader ()
           { id := 2, method := "fs.snapshot", params := 2 }).2 }] := by
    rw [calls_cons read, calls_cons snapshot]
    rfl
  refine ⟨_, _, sequence, ?_, rfl, rfl, ?_, ?_⟩
  · rw [length_largeResponse]
  · rw [short]
  · rfl

end McpCli
