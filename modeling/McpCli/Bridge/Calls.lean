import McpCli.Bridge.DaemonClient

/-! Sequences of calls to a daemon that answers every request frame with one response frame. -/

namespace McpCli

/-- A daemon that answers the payload of each request with a payload that it can write. -/
structure Answering (State : Type) where
  respond : State → List UInt8 → State × List UInt8
  encodable : ∀ st payload, (writeFrame (respond st payload).2).isSome

/-- The bytes on their way between client and daemon. -/
structure Pipe where
  /-- What the client can read. -/
  unread : List UInt8
  /-- What the client has written and the daemon not taken yet. -/
  written : List UInt8
  deriving DecidableEq, Repr

namespace Answering

variable {State : Type} (daemon : Answering State)

/-- The response frame for a request. -/
def frame (st : State) (payload : List UInt8) : List UInt8 :=
  (writeFrame (daemon.respond st payload).2).get (daemon.encodable st payload)

/-- A connection that never fails: what is not there yet is waited for, and may never come. -/
def transport : Transport State Pipe where
  connect st := (.ok { unread := [], written := [] }, st)
  writeAll bytes pipe st := some (.ok (), { pipe with written := pipe.written ++ bytes }, st)
  flush pipe st :=
    -- A frame that is whole is answered at once.
    match splitFrame pipe.written with
    | none => some (.ok (), pipe, st)
    | some (payload, rest) =>
      some (.ok (), { unread := pipe.unread ++ daemon.frame st payload, written := rest },
        (daemon.respond st payload).1)
  readExact n pipe st :=
    -- A read of more than there is never returns.
    if n ≤ pipe.unread.length then
      some (.ok (pipe.unread.take n), { pipe with unread := pipe.unread.drop n }, st)
    else none

end Answering

/-- A client right after it has connected to a daemon. -/
def DaemonClient.connected {State : Type} (st : State) : DaemonClient State Pipe :=
  { stream := some { unread := [], written := [] }, nextId := 1, world := st }

/-- The bytes that the retained stream still holds for the client. -/
def DaemonClient.unread {State : Type} (client : DaemonClient State Pipe) : List UInt8 :=
  match client.stream with
  | some pipe => pipe.unread
  | none => []

/-- What became of one call. -/
structure Called (Value : Type) where
  /-- The unread bytes of the stream when the call started. -/
  unread : List UInt8
  /-- What the call returned, if it returned. -/
  outcome : Option (Except CallError Value)
  /-- The payload with which the daemon answers this request, if it was sent. -/
  answer : Option (List UInt8)

section
variable {Value State : Type} (serde : Serde Value) (daemon : Answering State)

/-- The daemon's answer to a request, and the daemon afterwards. -/
def answerTo (st : State) (req : Request Value) : State × Option (List UInt8) :=
  let payload := serde.toVec req
  -- A request that is too large does not reach the daemon.
  if payload.length < 2 ^ 32 then
    ((daemon.respond st payload).1, some (daemon.respond st payload).2)
  else (st, none)

/-- The daemon's answers to a sequence of requests, numbered one after another. -/
def answers (st : State) (id : Nat) : List (String × Value) → List (Option (List UInt8))
  | [] => []
  | (method, params) :: rest =>
    let (next, answer) := answerTo serde daemon st { id, method, params }
    answer :: answers next (id + 1) rest

/-- Call one method after another, as long as the calls return. -/
def calls (client : DaemonClient State Pipe) : List (String × Value) → List (Called Value)
  | [] => []
  | (method, params) :: rest =>
    let answer := (answerTo serde daemon client.world { id := client.nextId, method, params }).2
    match call serde daemon.transport method params client with
    -- A call that does not return is the last one.
    | none => [{ unread := client.unread, outcome := none, answer }]
    | some (outcome, next) =>
      { unread := client.unread, outcome := some outcome, answer } :: calls next rest

end

end McpCli
