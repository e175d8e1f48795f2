import McpCli.Bridge.DaemonClient
import McpCli.Transition.Run

/-! Calls whose connection may be lost at any point of the daemon's work on them. -/

namespace McpCli

/-- What the connection task of the daemon is doing. -/
inductive ConnTask where
  /-- It reads, or waits for, the next request frame. -/
  | reading
  | received (request : Nat)
  | executed (request : Nat)
  | gone
  deriving DecidableEq, Repr

/-- One connection; requests are told apart by the call that they belong to. -/
structure Conn where
  /-- The requests on their way to the daemon, oldest first. -/
  sent : List Nat
  task : ConnTask
  /-- The responses on their way to the client, oldest first. -/
  replies : List Nat
  lost : Bool
  deriving DecidableEq, Repr

namespace Conn

/-- A connection just opened. -/
def opened : Conn := { sent := [], task := .reading, replies := [], lost := false }

/-- What can happen at the daemon's end of a connection. -/
inductive Event where
  | receive
  | execute
  | reply
  /-- The task ends, by a crash of the daemon or a panic of the handler. -/
  | kill
  /-- The connection breaks, which the task only finds out when it replies. -/
  | reset
  deriving DecidableEq, Repr

/-- What an event makes of the connection, and the requests that it executes. -/
def step (conn : Conn) : Event → Option (Conn × List Nat)
  | .receive =>
    match conn.task, conn.sent with
    | .reading, request :: sent => some ({ conn with sent, task := .received request }, [])
    | _, _ => none
  | .execute =>
    match conn.task with
    | .received request => some ({ conn with task := .executed request }, [request])
    | _ => none
  | .reply =>
    match conn.task with
    | .executed request =>
      -- The request has been executed, even if there is nobody left to reply to.
      if conn.lost then some ({ conn with task := .gone }, [])
      else some ({ conn with task := .reading, replies := conn.replies ++ [request] }, [])
    | _ => none
  | .kill =>
    if conn.task = .gone then none
    else some ({ conn with sent := [], task := .gone, lost := true }, [])
  | .reset =>
    if conn.lost then none else some ({ conn with sent := [], replies := [], lost := true }, [])

end Conn

/-- How far the current call has come, if there is one. -/
inductive Caller where
  | idle
  /-- An attempt, the second one if `retry` is set, that has not sent its request yet. -/
  | starting (request : Nat) (retry : Bool)
  | awaiting (request : Nat) (retry : Bool)
  deriving DecidableEq, Repr

/-- A client, its connections to one daemon after another, and what the daemons have executed. -/
structure Delivery where
  conns : List Conn
  /-- The connection of the retained stream. -/
  stream : Option Nat
  caller : Caller
  nextRequest : Nat
  executed : List Nat
  deriving DecidableEq, Repr

namespace Delivery

/-- A client right after it has connected. -/
def connected : Delivery :=
  { conns := [Conn.opened], stream := some 0, caller := .idle, nextRequest := 0, executed := [] }

/-- One thing that can happen next. -/
inductive Action where
  | call
  /-- The request is too large to be sent. -/
  | tooLarge
  | connect
  | refuse (e : CallError)
  | write
  | writeError (kind : ErrorKind)
  | read
  | readError (kind : ErrorKind)
  | conn (id : Nat) (what : Conn.Event)
  deriving DecidableEq, Repr

/-- An attempt fails: the first one is repeated on a fresh stream if it looks like a disconnect. -/
def failed (s : Delivery) (request : Nat) (retry : Bool) (e : CallError) : Delivery :=
  -- The stream is only dropped for the second attempt.
  if !retry && e.looksLikeDisconnect then
    { s with stream := none, caller := .starting request true }
  else { s with caller := .idle }

/-- The connection of the retained stream, with its number. -/
def retained (s : Delivery) : Option (Nat × Conn) :=
  s.stream.bind fun id => s.conns[id]?.map fun conn => (id, conn)

/-- Take one step, if it is possible. -/
def step (s : Delivery) : Action → Option Delivery
  | .call =>
    match s.caller with
    | .idle =>
      some { s with caller := .starting s.nextRequest false, nextRequest := s.nextRequest + 1 }
    | _ => none
  | .tooLarge =>
    match s.caller with
    | .starting request retry => some (s.failed request retry .requestTooLarge)
    | _ => none
  | .connect =>
    match s.caller, s.stream with
    | .starting _ _, none =>
      some { s with conns := s.conns ++ [Conn.opened], stream := some s.conns.length }
    | _, _ => none
  | .refuse e =>
    match s.caller, s.stream with
    | .starting request retry, none => some (s.failed request retry e)
    | _, _ => none
  | .write =>
    match s.caller, s.retained with
    | .starting request retry, some (id, conn) =>
      if conn.lost then none
      else
        some { s with
          conns := s.conns.set id { conn with sent := conn.sent ++ [request] }
          caller := .awaiting request retry }
    | _, _ => none
  | .writeError kind =>
    match s.caller, s.retained with
    | .starting request retry, some (_, conn) =>
      if conn.lost then some (s.failed request retry (.io kind)) else none
    | _, _ => none
  | .read =>
    match s.caller, s.retained with
    | .awaiting _ _, some (id, conn) =>
      -- The response is taken for the one to this request, whichever it is.
      match conn.replies with
      | [] => none
      | _ :: replies =>
        some { s with conns := s.conns.set id { conn with replies }, caller := .idle }
    | _, _ => none
  | .readError kind =>
    match s.caller, s.retained with
    | .awaiting request retry, some (_, conn) =>
      -- Replies that have arrived can still be read from a connection that is lost.
      if conn.lost ∧ conn.replies = [] then some (s.failed request retry (.io kind)) else none
    | _, _ => none
  | .conn id what =>
    s.conns[id]?.bind fun conn => (conn.step what).map fun (next, executed) =>
      { s with conns := s.conns.set id next, executed := s.executed ++ executed }

end Delivery

end McpCli
