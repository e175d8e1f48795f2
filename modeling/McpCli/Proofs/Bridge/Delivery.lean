import McpCli.Bridge.Delivery
import McpCli.Transition.Population

/-! When the retry of a lost call never has the daemon execute a request twice. -/

namespace McpCli

open Transition.Population

namespace Conn

/-- Everything an event at the daemon's end can be. -/
inductive Step (conn : Conn) : Event → Conn → List Nat → Prop where
  | receive (request : Nat) (sent : List Nat) (reading : conn.task = .reading)
      (first : conn.sent = request :: sent) :
      Step conn .receive { conn with sent, task := .received request } []
  | execute (request : Nat) (received : conn.task = .received request) :
      Step conn .execute { conn with task := .executed request } [request]
  | replyLost (request : Nat) (executed : conn.task = .executed request)
      (lost : conn.lost = true) : Step conn .reply { conn with task := .gone } []
  | reply (request : Nat) (executed : conn.task = .executed request) (kept : conn.lost = false) :
      Step conn .reply { conn with task := .reading, replies := conn.replies ++ [request] } []
  | kill : Step conn .kill { conn with sent := [], task := .gone, lost := true } []
  | reset : Step conn .reset { conn with sent := [], replies := [], lost := true } []

/-- An event is one of these. -/
theorem step_spec {conn next : Conn} {what : Event} {executed : List Nat}
    (taken : conn.step what = some (next, executed)) : Step conn what next executed := by
  obtain ⟨sent, task, replies, lost⟩ := conn
  -- Each event is possible in some phases of the task only.
  cases what with
  | receive =>
    cases task with
    | reading =>
      cases sent with
      | nil => cases taken
      | cons request sent =>
        cases taken
        exact .receive request sent rfl rfl
    | _ => cases taken
  | execute =>
    cases task with
    | received request =>
      cases taken
      exact .execute request rfl
    | _ => cases taken
  | reply =>
    cases task with
    | executed request =>
      cases lost with
      | true =>
        cases taken
        exact .replyLost request rfl rfl
      | false =>
        cases taken
        exact .reply request rfl rfl
    | _ => cases taken
  | kill =>
    simp only [step] at taken
    split at taken
    · cases taken
    · cases taken
      exact .kill
  | reset =>
    cases lost with
    | true => cases taken
    | false =>
      cases taken
      exact .reset

/-- How often the daemon may still execute a request that reached it over this connection. -/
def weight (request : Nat) (conn : Conn) : Nat :=
  conn.sent.count request + if conn.task = .received request then 1 else 0

/-- An event turns what may still be executed into what is executed, or takes it away. -/
theorem weight_step {conn next : Conn} {what : Event} {executed : List Nat}
    (moved : Step conn what next executed) (request : Nat) :
    next.weight request + executed.count request ≤ conn.weight request := by
  -- Receiving and executing only move the request on; what is dropped can only make it less.
  cases moved with
  | receive other sent reading first =>
    simp only [weight, reading, first, List.count_cons, ConnTask.received.injEq]
    simp
  | execute other received =>
    simp only [weight, received, List.count_singleton, ConnTask.received.injEq]
    simp
  | replyLost other executed lost => simp [weight]
  | reply other executed kept => simp [weight]
  | kill => simp [weight]
  | reset => simp [weight]

/-- The request is on its way through a connection that still works, or its response is there. -/
def Holds (conn : Conn) (request : Nat) : Prop :=
  request ∈ conn.replies ∨
    conn.lost = false ∧ (request ∈ conn.sent ∨ conn.task = .received request ∨
      conn.task = .executed request)

/-- The connection is not lost between the execution of the request and its response. -/
def Spares (conn : Conn) (request : Nat) : Event → Prop
  | .kill => conn.task ≠ .executed request
  -- The task of a broken connection goes on with a request that it has received.
  | .reset => conn.task ≠ .received request ∧ conn.task ≠ .executed request ∧
      request ∉ conn.replies
  | _ => True

/-- A request on its way weighs something. -/
theorem weight_pos_of_sent {conn : Conn} {request : Nat} (sent : request ∈ conn.sent) :
    0 < conn.weight request := by
  have counted := List.count_pos_iff.mpr sent
  rw [weight]
  omega

/-- A request being worked on weighs something. -/
theorem weight_pos_of_received {conn : Conn} {request : Nat}
    (received : conn.task = .received request) : 0 < conn.weight request := by
  rw [weight, if_pos received]
  omega

/-- Whether an event spares a request can be decided. -/
instance (conn : Conn) (request : Nat) (what : Event) : Decidable (conn.Spares request what) :=
  match what with
  | .kill => inferInstanceAs (Decidable (conn.task ≠ .executed request))
  | .reset => inferInstanceAs (Decidable (conn.task ≠ .received request ∧
      conn.task ≠ .executed request ∧ request ∉ conn.replies))
  | .receive => isTrue trivial
  | .execute => isTrue trivial
  | .reply => isTrue trivial

/-- A spared request stays with its connection, or is given up by it before its execution. -/
theorem holds_step {conn next : Conn} {what : Event} {executed : List Nat} {request : Nat}
    (moved : Step conn what next executed) (holds : conn.Holds request)
    (spares : conn.Spares request what) :
    next.Holds request ∨
      next.weight request + executed.count request < conn.weight request := by
  cases moved with
  | receive other sent reading first =>
    left
    rcases holds with there | ⟨kept, sent | received | executed⟩
    · exact .inl there
    · -- The task takes the oldest request, and the others stay where they are.
      rw [first] at sent
      rcases List.mem_cons.mp sent with rfl | behind
      · exact .inr ⟨kept, .inr (.inl rfl)⟩
      · exact .inr ⟨kept, .inl behind⟩
    · rw [reading] at received
      cases received
    · rw [reading] at executed
      cases executed
  -- Executing keeps the request in the hands of the task.
  | execute other busy =>
    left
    rcases holds with there | ⟨kept, sent | received | executed⟩
    · exact .inl there
    · exact .inr ⟨kept, .inl sent⟩
    · rw [busy, ConnTask.received.injEq] at received
      exact .inr ⟨kept, .inr (.inr (by rw [received]))⟩
    · rw [busy] at executed
      cases executed
  -- The connection is lost, so only a reply that has arrived can be held.
  | replyLost other busy lost =>
    left
    rcases holds with there | ⟨kept, _⟩
    · exact .inl there
    · rw [lost] at kept
      cases kept
  | reply other busy _ =>
    left
    rcases holds with there | ⟨kept, sent | received | executed⟩
    · exact .inl (List.mem_append_left _ there)
    · exact .inr ⟨kept, .inl sent⟩
    · rw [busy] at received
      cases received
    · rw [busy, ConnTask.executed.injEq] at executed
      exact .inl (List.mem_append_right _ (by rw [executed]; exact List.mem_singleton_self _))
  | kill =>
    -- What was not executed yet is lost with its weight.
    rcases holds with there | ⟨_, sent | received | executed⟩
    · exact .inl (.inl there)
    · exact .inr (by simpa [weight] using weight_pos_of_sent sent)
    · exact .inr (by simpa [weight] using weight_pos_of_received received)
    · exact absurd executed spares
  | reset =>
    -- A reset that spares the request takes it only while no task has received it.
    obtain ⟨notReceived, notExecuted, unread⟩ := spares
    rcases holds with there | ⟨_, sent | received | executed⟩
    · exact absurd there unread
    · exact .inr (by simpa [weight, notReceived] using weight_pos_of_sent sent)
    · exact absurd received notReceived
    · exact absurd executed notExecuted

end Conn

namespace Delivery

/-- Everything a step can be. -/
inductive Step (s : Delivery) : Action → Delivery → Prop where
  | call (idle : s.caller = .idle) :
      Step s .call { s with
        caller := .starting s.nextRequest false, nextRequest := s.nextRequest + 1 }
  | unsent (action : Action) (request : Nat) (retry : Bool) (e : CallError)
      (starting : s.caller = .starting request retry) :
      Step s action (s.failed request retry e)
  | connect (request : Nat) (retry : Bool) (starting : s.caller = .starting request retry) :
      Step s .connect { s with
        conns := s.conns ++ [Conn.opened], stream := some s.conns.length }
  | write (request : Nat) (retry : Bool) (id : Nat) (conn : Conn)
      (starting : s.caller = .starting request retry) (stream : s.stream = some id)
      (here : s.conns[id]? = some conn) (kept : conn.lost = false) :
      Step s .write { s with
        conns := s.conns.set id { conn with sent := conn.sent ++ [request] }
        caller := .awaiting request retry }
  | read (id : Nat) (conn : Conn) (replies : List Nat) (here : s.conns[id]? = some conn) :
      Step s .read { s with conns := s.conns.set id { conn with replies }, caller := .idle }
  | readError (kind : ErrorKind) (request : Nat) (retry : Bool) (id : Nat) (conn : Conn)
      (awaiting : s.caller = .awaiting request retry) (stream : s.stream = some id)
      (here : s.conns[id]? = some conn) (lost : conn.lost = true) (empty : conn.replies = []) :
      Step s (.readError kind) (s.failed request retry (.io kind))
  | conn (id : Nat) (what : Conn.Event) (conn next : Conn) (executed : List Nat)
      (here : s.conns[id]? = some conn) (moved : Conn.Step conn what next executed) :
      Step s (.conn id what) { s with
        conns := s.conns.set id next, executed := s.executed ++ executed }

/-- The retained stream is one of the connections. -/
theorem retained_eq_some {s : Delivery} {id : Nat} {conn : Conn} :
    s.retained = some (id, conn) ↔ s.stream = some id ∧ s.conns[id]? = some conn := by
  -- The stream is the number of a connection that was made.
  rw [retained]
  cases s.stream with
  | none => simp
  | some id =>
    simp only [Option.bind_some, Option.map_eq_some_iff, Prod.mk.injEq, Option.some.injEq]
    constructor
    · rintro ⟨found, here, rfl, rfl⟩
      exact ⟨rfl, here⟩
    · rintro ⟨rfl, here⟩
      exact ⟨conn, here, rfl, rfl⟩

/-- A step is one of these. -/
theorem step_spec {s next : Delivery} {action : Action} (taken : s.step action = some next) :
    Step s action next := by
  -- Each action of the client is possible in one phase of its call.
  cases action with
  | call =>
    simp only [step] at taken
    split at taken
    · cases taken
      exact .call ‹_›
    · cases taken
  | tooLarge =>
    simp only [step] at taken
    split at taken
    · cases taken
      exact .unsent _ _ _ _ ‹_›
    · cases taken
  | connect =>
    simp only [step] at taken
    split at taken
    · cases taken
      exact .connect _ _ ‹_›
    · cases taken
  | refuse e =>
    simp only [step] at taken
    split at taken
    · cases taken
      exact .unsent _ _ _ _ ‹_›
    · cases taken
  | write =>
    simp only [step] at taken
    split at taken
    · rename_i request retry id conn starting found
      obtain ⟨stream, here⟩ := retained_eq_some.mp found
      split at taken
      · cases taken
      · rename_i kept
        cases taken
        exact .write request retry id conn starting stream here (Bool.eq_false_iff.mpr kept)
    · cases taken
  | writeError kind =>
    simp only [step] at taken
    split at taken
    · split at taken
      · cases taken
        exact .unsent _ _ _ _ ‹_›
      · cases taken
    · cases taken
  | read =>
    simp only [step] at taken
    split at taken
    · rename_i found
      obtain ⟨_, here⟩ := retained_eq_some.mp found
      split at taken
      · cases taken
      · cases taken
        exact .read _ _ _ here
    · cases taken
  | readError kind =>
    simp only [step] at taken
    split at taken
    · rename_i request retry id conn awaiting found
      obtain ⟨stream, here⟩ := retained_eq_some.mp found
      split at taken
      · rename_i broken
        cases taken
        exact .readError kind request retry id conn awaiting stream here broken.1 broken.2
      · cases taken
    · cases taken
  | conn id what =>
    simp only [step, Option.bind_eq_some_iff, Option.map_eq_some_iff] at taken
    obtain ⟨conn, here, ⟨after, executed⟩, moved, rfl⟩ := taken
    exact .conn id what conn after executed here (Conn.step_spec moved)

/-- How often a request has been executed, or may still be by what is on its way. -/
def load (s : Delivery) (request : Nat) : Nat :=
  s.executed.count request + (s.conns.map (Conn.weight request)).sum

/-- Where the request of the current call is. -/
def Traced (s : Delivery) : Prop :=
  match s.caller with
  | .idle => True
  | .starting request _ => request < s.nextRequest ∧ s.load request = 0
  -- Only the first attempt is repeated, so only it has to know where its request is.
  | .awaiting request retry => request < s.nextRequest ∧ (retry = false →
      ∃ id conn, s.stream = some id ∧ s.conns[id]? = some conn ∧
        (conn.Holds request ∨ s.load request = 0))

/-- Every request is somewhere at most once, and new ones are nowhere yet. -/
structure Inv (s : Delivery) : Prop where
  once : ∀ request, s.load request ≤ 1
  unborn : ∀ request, s.nextRequest ≤ request → s.load request = 0
  traced : s.Traced

/-- The request of a first attempt that waits for its response on this connection. -/
def firstAttempt (s : Delivery) (id : Nat) : Option Nat :=
  match s.caller with
  | .awaiting request false => if s.stream = some id then some request else none
  | _ => none

/--
No connection is lost while the request of a first attempt has been executed on it and not
answered; by a mere break, not even while the daemon has received that request.
-/
def Sheltered (s : Delivery) : Action → Prop
  | .conn id what => ∀ request ∈ s.firstAttempt id, ∀ conn ∈ s.conns[id]?,
      conn.Spares request what
  | _ => True

/-- Whether a step is sheltered can be decided. -/
instance (s : Delivery) (action : Action) : Decidable (s.Sheltered action) :=
  match action with
  | .conn id what => inferInstanceAs (Decidable (∀ request ∈ s.firstAttempt id,
      ∀ conn ∈ s.conns[id]?, conn.Spares request what))
  | .call | .tooLarge | .connect | .refuse _ | .write | .writeError _ | .read | .readError _ =>
    isTrue trivial

/-- A failed attempt leaves every request where it is. -/
theorem Inv.failed {s : Delivery} (inv : s.Inv) {request : Nat} (known : request < s.nextRequest)
    (retry : Bool) (e : CallError)
    (nowhere : retry = false → s.load request = 0) : (s.failed request retry e).Inv := by
  -- The request is sent again only where it has not arrived.
  rw [Delivery.failed]
  split
  · rename_i again
    simp only [Bool.and_eq_true, Bool.not_eq_true'] at again
    exact ⟨inv.once, inv.unborn, known, nowhere again.1⟩
  · exact ⟨inv.once, inv.unborn, trivial⟩

/-- An event at the daemon's end changes the load by what it changes at that connection. -/
theorem load_conn {s : Delivery} {id : Nat} {conn : Conn} (here : s.conns[id]? = some conn)
    (next : Conn) (executed : List Nat) (request : Nat) :
    load { s with conns := s.conns.set id next, executed := s.executed ++ executed } request +
        conn.weight request =
      s.load request + (next.weight request + executed.count request) := by
  -- The other connections carry what they did.
  have balance := sum_moved (Conn.weight request) here next
  simp only [load, List.count_append]
  omega

/-- An event at the daemon's end keeps the invariant, unless it loses an executed request. -/
theorem Inv.conn {s : Delivery} (inv : s.Inv) {id : Nat} {what : Conn.Event} {conn next : Conn}
    {executed : List Nat} (here : s.conns[id]? = some conn)
    (moved : Conn.Step conn what next executed) (sheltered : s.Sheltered (.conn id what)) :
    Inv { s with conns := s.conns.set id next, executed := s.executed ++ executed } := by
  -- No event makes a request be in more places than before.
  have shrinks : ∀ request,
      load { s with conns := s.conns.set id next, executed := s.executed ++ executed } request ≤
        s.load request := by
    intro request
    have balance := load_conn here next executed request
    have less := Conn.weight_step moved request
    omega
  have stillNowhere : ∀ request, s.load request = 0 →
      load { s with conns := s.conns.set id next, executed := s.executed ++ executed } request =
        0 := by
    intro request nowhere
    have after := shrinks request
    omega
  refine ⟨fun request => Nat.le_trans (shrinks request) (inv.once request),
    fun request new => stillNowhere request (inv.unborn request new), ?_⟩
  have traced := inv.traced
  simp only [Traced] at traced ⊢
  cases caller : s.caller with
  | idle => trivial
  | starting request retry =>
    simp only [caller] at traced
    exact ⟨traced.1, stillNowhere request traced.2⟩
  | awaiting request retry =>
    simp only [caller] at traced
    refine ⟨traced.1, ?_⟩
    intro first
    obtain ⟨current, held, stream, found, known⟩ := traced.2 first
    subst first
    by_cases same : current = id
    · subst same
      rw [found, Option.some.injEq] at here
      subst here
      refine ⟨current, next, stream, moved_self found, ?_⟩
      rcases known with holds | nowhere
      · have first : s.firstAttempt current = some request := by
          simp only [firstAttempt, caller, stream, if_true]
        have spares := sheltered request first held found
        rcases Conn.holds_step moved holds spares with still | dropped
        · exact .inl still
        · -- The connection gave the request up, and it was nowhere else.
          have gone : load { s with
              conns := s.conns.set current next, executed := s.executed ++ executed }
              request = 0 := by
            have balance := load_conn found next executed request
            have most := inv.once request
            omega
          exact .inr gone
      · exact .inr (stillNowhere request nowhere)
    · refine ⟨current, held, stream, moved_other found same, ?_⟩
      rcases known with holds | nowhere
      · exact .inl holds
      · exact .inr (stillNowhere request nowhere)

/-- A request that is written was nowhere, and is now on its way over one connection alone. -/
theorem Inv.write {s : Delivery} (inv : s.Inv) {request id : Nat} {conn : Conn}
    (known : request < s.nextRequest) (nowhere : s.load request = 0) (retry : Bool)
    (stream : s.stream = some id) (here : s.conns[id]? = some conn) (kept : conn.lost = false) :
    Inv { s with
      conns := s.conns.set id { conn with sent := conn.sent ++ [request] }
      caller := .awaiting request retry } := by
  -- No other request is moved.
  have moves : ∀ other, load { s with
      conns := s.conns.set id { conn with sent := conn.sent ++ [request] }
      caller := .awaiting request retry } other =
      s.load other + if other = request then 1 else 0 := by
    intro other
    have balance := sum_moved (Conn.weight other) here
      { conn with sent := conn.sent ++ [request] }
    have weight : Conn.weight other { conn with sent := conn.sent ++ [request] } =
        conn.weight other + if other = request then 1 else 0 := by
      simp only [Conn.weight, List.count_append, List.count_singleton, beq_iff_eq,
        @eq_comm _ request]
      omega
    simp only [load]
    omega
  refine ⟨?_, ?_, known, ?_⟩
  · intro other
    rw [moves]
    split
    · rename_i same
      subst same
      omega
    · exact inv.once other
  · intro other new
    have apart : other ≠ request := by
      rintro rfl
      exact absurd known (Nat.not_lt.mpr new)
    rw [moves, if_neg apart]
    exact inv.unborn other new
  · intro _
    exact ⟨id, _, stream, moved_self here, .inl (.inr ⟨kept, .inl (by simp)⟩)⟩

/-- Every sheltered step keeps the invariant. -/
theorem Inv.step {s next : Delivery} {action : Action} (inv : s.Inv)
    (sheltered : s.Sheltered action) (taken : s.step action = some next) : next.Inv := by
  have traced := inv.traced
  rw [Traced] at traced
  cases step_spec taken with
  | call idle =>
    refine ⟨inv.once, fun request new => inv.unborn request (Nat.le_of_succ_le new), ?_⟩
    exact ⟨Nat.lt_succ_self _, inv.unborn _ (Nat.le_refl _)⟩
  | unsent action request retry e starting =>
    simp only [starting] at traced
    exact inv.failed traced.1 retry e fun _ => traced.2
  | connect request retry starting =>
    simp only [starting] at traced
    -- A connection that was just opened holds nothing.
    have same : ∀ request, load { s with
        conns := s.conns ++ [Conn.opened], stream := some s.conns.length } request =
        s.load request := by
      intro request
      simp [load, Conn.opened, Conn.weight]
    refine ⟨fun request => Nat.le_trans (Nat.le_of_eq (same request)) (inv.once request),
      fun request new => (same request).trans (inv.unborn request new), ?_⟩
    rw [Traced]
    simp only [starting]
    exact ⟨traced.1, (same request).trans traced.2⟩
  | write request retry id conn starting stream here kept =>
    simp only [starting] at traced
    exact inv.write traced.1 traced.2 retry stream here kept
  | read id conn replies here =>
    have same : ∀ request, load { s with
        conns := s.conns.set id { conn with replies }, caller := .idle } request =
        s.load request := by
      intro request
      have balance := sum_moved (Conn.weight request) here { conn with replies }
      have weight : Conn.weight request { conn with replies } = conn.weight request := rfl
      simp only [load]
      omega
    exact ⟨fun request => Nat.le_trans (Nat.le_of_eq (same request)) (inv.once request),
      fun request new => (same request).trans (inv.unborn request new), trivial⟩
  | readError kind request retry id conn awaiting stream here lost empty =>
    simp only [awaiting] at traced
    refine inv.failed traced.1 retry (.io kind) ?_
    intro first
    -- The lost connection holds nothing any more, so the request is nowhere.
    obtain ⟨current, held, streaming, found, known⟩ := traced.2 first
    rw [stream, Option.some.injEq] at streaming
    subst streaming
    rw [here, Option.some.injEq] at found
    subst found
    rcases known with (answered | ⟨kept, _⟩) | nowhere
    · rw [empty] at answered
      cases answered
    · rw [lost] at kept
      cases kept
    · exact nowhere
  | conn id what conn next executed here moved => exact inv.conn here moved sheltered

/-- An executed request is executed again when its connection dies before it replies. -/
theorem killed_reply_executes_again {s : Delivery} {request id : Nat} {conn : Conn}
    (awaiting : s.caller = .awaiting request false) (stream : s.stream = some id)
    (here : s.conns[id]? = some conn) (executed : conn.task = .executed request)
    (unread : conn.replies = []) :
    (Transition.run Delivery.step s
      [.conn id .kill, .readError .unexpectedEof, .connect, .write,
        .conn s.conns.length .receive, .conn s.conns.length .execute]).map Delivery.executed =
      some (s.executed ++ [request]) := by
  obtain ⟨bound, rfl⟩ := List.getElem?_eq_some_iff.mp here
  have alive : s.conns[id].task ≠ .gone := by
    rw [executed]
    exact ConnTask.noConfusion
  -- The failure of the first attempt looks like a disconnect, and the new connection works.
  simp [Transition.run, step, Conn.step, alive, retained, stream, awaiting, unread, failed,
    CallError.looksLikeDisconnect, ErrorKind.looksLikeDisconnect, Conn.opened, bound]

end Delivery

end McpCli
