import Mathlib.Data.List.Forall2
import Mathlib.Data.List.Infix
import McpCli.Daemon.Connection
import McpCli.Proofs.Daemon.Framing
import McpCli.Transition.Population
import McpCli.Transition.Run

/-! What a connection answers, whatever the other connections leave in the shared buffers. -/

namespace McpCli

open Transition

/-- Frames can be written behind others. -/
theorem writeFrames_concat {payloads : List (List UInt8)} {stream payload frame : List UInt8}
    (written : writeFrames payloads = some stream) (last : writeFrame payload = some frame) :
    writeFrames (payloads ++ [payload]) = some (stream ++ frame) := by
  -- The induction goes through the frames that are written before the last one.
  induction payloads generalizing stream with
  | nil =>
    cases written
    simp [writeFrames, last]
  | cons first rest ih =>
    obtain ⟨others, fits, after, rfl⟩ := writeFrames_cons.mp written
    exact writeFrames_cons.mpr ⟨_, fits, ih after, List.append_assoc ..⟩

namespace BufferPool

/-- No buffer of the pool holds anything. -/
def Clean (pool : BufferPool) : Prop := ∀ buf ∈ pool.inner, buf.bytes = []

/-- A buffer from a clean pool is empty, and leaves it clean. -/
theorem Clean.acquire {pool : BufferPool} (clean : pool.Clean) :
    pool.acquire.1.bytes = [] ∧ pool.acquire.2.Clean := by
  -- The buffer is a new one, or the first of the pool.
  unfold BufferPool.acquire
  split
  · exact ⟨rfl, clean⟩
  · rename_i buf rest waiting
    rw [Clean, waiting] at clean
    exact ⟨clean buf List.mem_cons_self, fun other member =>
      clean other (List.mem_cons_of_mem _ member)⟩

/-- So is one for which more room has been allocated. -/
theorem Clean.acquireWithCapacity {pool : BufferPool} (clean : pool.Clean) (minCapacity room : Nat) :
    (pool.acquireWithCapacity minCapacity room).1.bytes = [] ∧
      (pool.acquireWithCapacity minCapacity room).2.Clean := by
  obtain ⟨empty, left⟩ := clean.acquire
  simp only [BufferPool.acquireWithCapacity]
  -- Allocating leaves the bytes alone.
  by_cases small : pool.acquire.1.capacity < minCapacity
  · rw [if_pos small]
    refine ⟨?_, left⟩
    unfold Buffer.reserveExact
    split <;> exact empty
  · rw [if_neg small]
    exact ⟨empty, left⟩

/-- Whatever a buffer holds when it is dropped, the pool stays clean. -/
theorem Clean.drop {pool : BufferPool} (clean : pool.Clean) (buf : Buffer) :
    (pool.drop buf).Clean := by
  -- A dropped buffer is cleared before it is kept, if it is kept at all.
  unfold BufferPool.drop
  split
  · exact clean
  · split
    · exact List.forall_mem_cons.mpr ⟨rfl, clean⟩
    · exact clean

end BufferPool

section
variable {Value : Type} (serde : DaemonSerde Value)

/-- The responses to some frames, by what the methods return for those that are requests. -/
def responsesTo : List (List UInt8) → List (Except RpcError Value) → Option (List (Response Value))
  | [], [] => some []
  -- No method returns anything without a request.
  | [], _ :: _ => none
  | payload :: payloads, outcomes =>
    match serde.fromSlice payload with
    | .error e => (responsesTo payloads outcomes).map (.refusal e :: ·)
    | .ok req =>
      match outcomes with
      | [] => none
      | outcome :: outcomes =>
        (responsesTo payloads outcomes).map (.dispatched req.id outcome :: ·)

/-- A response to a frame: it has the number of the request, or says that there is none. -/
def Answers (payload : List UInt8) (resp : Response Value) : Prop :=
  match serde.fromSlice payload with
  | .error e => resp = { id := 0, result := none, error := some { code := -32700, message := e } }
  | .ok req => resp.id = req.id ∧ resp.result.isSome ≠ resp.error.isSome

variable {serde}

/-- There is one response for each frame, in their order. -/
theorem responsesTo_answers {payloads : List (List UInt8)} {outcomes : List (Except RpcError Value)}
    {responses : List (Response Value)}
    (found : responsesTo serde payloads outcomes = some responses) :
    List.Forall₂ (Answers serde) payloads responses := by
  -- A frame that is no request has its response at once, any other the one of the next outcome.
  induction payloads generalizing outcomes responses with
  | nil =>
    cases outcomes with
    | nil =>
      cases found
      exact .nil
    | cons outcome outcomes => cases found
  | cons payload payloads ih =>
    rw [responsesTo.eq_def] at found
    cases parsed : serde.fromSlice payload with
    | error e =>
      simp only [parsed, Option.map_eq_some_iff] at found
      obtain ⟨others, after, rfl⟩ := found
      exact .cons (by rw [Answers, parsed]; rfl) (ih after)
    | ok req =>
      cases outcomes with
      | nil => simp [parsed] at found
      | cons outcome outcomes =>
        simp only [parsed, Option.map_eq_some_iff] at found
        obtain ⟨others, after, rfl⟩ := found
        refine .cons ?_ (ih after)
        rw [Answers, parsed]
        cases outcome <;> simp [Response.dispatched]

/-- The responses to more frames are put behind those that were found. -/
theorem responsesTo_append {payloads : List (List UInt8)} {outcomes : List (Except RpcError Value)}
    {responses : List (Response Value)} (found : responsesTo serde payloads outcomes = some responses)
    (more : List (List UInt8)) (later : List (Except RpcError Value)) :
    responsesTo serde (payloads ++ more) (outcomes ++ later) =
      (responsesTo serde more later).map (responses ++ ·) := by
  -- The first frame uses up an outcome only if it is a request.
  induction payloads generalizing outcomes responses with
  | nil =>
    cases outcomes with
    | nil =>
      cases found
      simp
    | cons outcome outcomes => cases found
  | cons first payloads ih =>
    rw [responsesTo.eq_def] at found
    rw [List.cons_append, responsesTo.eq_def]
    cases own : serde.fromSlice first with
    | error e =>
      simp only [own, Option.map_eq_some_iff] at found
      obtain ⟨others, after, rfl⟩ := found
      simp [own, ih after, Function.comp_def]
    | ok req =>
      cases outcomes with
      | nil => simp [own] at found
      | cons first outcomes =>
        simp only [own, Option.map_eq_some_iff] at found
        obtain ⟨others, after, rfl⟩ := found
        simp [own, ih after, Function.comp_def]

/-- How far the loop is from its next frame. -/
def ConnectionPhase.rank : ConnectionPhase Value → Nat
  | .dispatching _ => 5
  | .answering _ => 4
  | .writing _ _ => 3
  | .listening => 2
  | .reading _ => 1
  | .returned _ | .lost => 0

/-- How many steps are still ahead of a connection at most; a frame has four bytes at least. -/
def Connection.ahead (conn : Connection Value) : Nat := 2 * conn.input.length + conn.phase.rank

/-- What the loop of a connection does, by what it finds. -/
inductive Connection.Step (serde : DaemonSerde Value) (pool : BufferPool) (conn : Connection Value) :
    ConnectionAction Value → BufferPool → Connection Value → Prop where
  | acquire (here : conn.phase = .listening) :
      Step serde pool conn .acquire pool.acquire.2
        { conn with phase := .reading pool.acquire.1 }
  | read {frame} (room) (here : conn.phase = .reading frame) :
      Step serde pool conn (.read room)
        (pool.drop (frame.fill (readFrameInto frame.bytes conn.input).buf room))
        { conn with
          input := (readFrameInto frame.bytes conn.input).rest
          phase := Connection.received serde (readFrameInto frame.bytes conn.input) }
  | dispatch {req} (outcome) (here : conn.phase = .dispatching req) :
      Step serde pool conn (.dispatch outcome) pool
        { conn with
          outcomes := conn.outcomes ++ [outcome]
          phase := .answering (.dispatched req.id outcome) }
  | reserve {resp} (room) (here : conn.phase = .answering resp) :
      Step serde pool conn (.reserve room) (pool.acquireWithCapacity 1024 room).2
        { conn with phase := .writing resp (pool.acquireWithCapacity 1024 room).1 }
  | write {resp buf bytes} (room) (here : conn.phase = .writing resp buf)
      (written : writeFrame (buf.bytes ++ serde.toWriter resp) = some bytes) :
      Step serde pool conn (.write room)
        (pool.drop (buf.fill (buf.bytes ++ serde.toWriter resp) room))
        { conn with output := conn.output ++ bytes, phase := .listening }
  /-- The response is too long for a frame. -/
  | overflow {resp buf} (room) (here : conn.phase = .writing resp buf)
      (refused : writeFrame (buf.bytes ++ serde.toWriter resp) = none) :
      Step serde pool conn (.write room)
        (pool.drop (buf.fill (buf.bytes ++ serde.toWriter resp) room))
        { conn with phase := .returned (.error "frame too large to encode") }
  | hangUp {output written room} (buf) (alive : 0 < conn.phase.rank) :
      Step serde pool conn (.hangUp written room) (pool.drop buf)
        { conn with output, phase := .lost }

/-- Nothing else happens on a connection. -/
theorem Connection.step_spec {pool after : BufferPool} {conn next : Connection Value}
    {action : ConnectionAction Value} (taken : conn.step serde pool action = some (after, next)) :
    Connection.Step serde pool conn action after next := by
  -- Each action belongs to one phase, and fails in all others.
  cases action with
  | acquire =>
    simp only [Connection.step] at taken
    split at taken
    · rename_i here
      cases taken
      exact .acquire here
    · cases taken
  | read room =>
    simp only [Connection.step] at taken
    split at taken
    · rename_i here
      cases taken
      exact .read room here
    · cases taken
  | dispatch outcome =>
    simp only [Connection.step] at taken
    split at taken
    · rename_i here
      cases taken
      exact .dispatch outcome here
    · cases taken
  | reserve room =>
    simp only [Connection.step] at taken
    split at taken
    · rename_i here
      cases taken
      exact .reserve room here
    · cases taken
  | write room =>
    simp only [Connection.step] at taken
    split at taken
    · rename_i resp buf here
      simp only [Buffer.fill] at taken
      cases written : writeFrame (buf.bytes ++ serde.toWriter resp) with
      | some bytes =>
        simp only [written] at taken
        cases taken
        exact .write room here written
      | none =>
        simp only [written] at taken
        cases taken
        exact .overflow room here written
    · cases taken
  | hangUp written room =>
    simp only [Connection.step] at taken
    split at taken
    · rename_i frame here
      cases taken
      exact .hangUp _ (by rw [here]; exact Nat.one_pos)
    · rename_i resp buf here
      split at taken
      · cases taken
        exact .hangUp _ (by rw [here]; exact Nat.succ_pos 2)
      · cases taken
    · cases taken

/-! What a connection has done so far. -/

variable (serde)

/-- The output is that of these responses. -/
def Wrote (output : List UInt8) (responses : List (Response Value)) : Prop :=
  writeFrames (responses.map serde.toWriter) = some output

/-- The first frames have led to these responses, and the others are still to be read. -/
def Handled (payloads : List (List UInt8)) (input : List UInt8)
    (outcomes : List (Except RpcError Value)) (responses : List (Response Value)) : Prop :=
  ∃ done rest, payloads = done ++ rest ∧ writeFrames rest = some input ∧
    responsesTo serde done outcomes = some responses

/-- A connection on which these frames are sent, by its phase. -/
def Following (payloads : List (List UInt8)) (conn : Connection Value) : Prop :=
  match conn.phase with
  | .listening | .reading _ => ∃ responses,
    Handled serde payloads conn.input conn.outcomes responses ∧ Wrote serde conn.output responses
  | .dispatching req =>
    -- The frame of the request has been read, and has no response yet.
    ∃ done payload rest responses, payloads = done ++ payload :: rest ∧
      writeFrames rest = some conn.input ∧ serde.fromSlice payload = .ok req ∧
      responsesTo serde done conn.outcomes = some responses ∧ Wrote serde conn.output responses
  | .answering resp | .writing resp _ => ∃ responses,
    Handled serde payloads conn.input conn.outcomes (responses ++ [resp]) ∧
      Wrote serde conn.output responses
  | .returned (.ok ()) => ∃ responses,
    responsesTo serde payloads conn.outcomes = some responses ∧ Wrote serde conn.output responses
  | .returned (.error _) => ∃ responses resp,
    Handled serde payloads conn.input conn.outcomes (responses ++ [resp]) ∧
      Wrote serde conn.output responses ∧ 2 ^ 32 ≤ (serde.toWriter resp).length
  | .lost => True

/-- A buffer into which a response is going to be written is empty. -/
def Connection.Clean (conn : Connection Value) : Prop :=
  ∀ resp buf, conn.phase = .writing resp buf → buf.bytes = []

variable {serde}

/-- A connection that has just been accepted follows what is sent on it. -/
theorem following_start {payloads : List (List UInt8)} {sent : List UInt8}
    (written : writeFrames payloads = some sent) :
    Following serde payloads (.accepted sent) :=
  ⟨[], ⟨[], payloads, rfl, written, rfl⟩, rfl⟩

/-- A connection that follows its frames goes on to do so. -/
theorem Following.step {payloads : List (List UInt8)}
    (small : ∀ payload ∈ payloads, payload.length ≤ maxFrame) {pool after : BufferPool}
    {conn next : Connection Value} {action : ConnectionAction Value}
    (following : Following serde payloads conn) (clean : conn.Clean)
    (taken : conn.step serde pool action = some (after, next)) : Following serde payloads next := by
  cases Connection.step_spec taken with
  | acquire here =>
    simp only [Following, here] at following
    exact following
  | @read frame room here =>
    simp only [Following, here] at following
    obtain ⟨responses, ⟨done, rest, rfl, unread, found⟩, wrote⟩ := following
    cases rest with
    | nil =>
      -- The stream ends where the frames do.
      have ended : conn.input = [] := by simpa [writeFrames] using unread.symm
      rw [ended, readFrameInto_nil]
      refine ⟨responses, ?_, wrote⟩
      simpa using found
    | cons payload rest =>
      obtain ⟨others, fits, after, stream⟩ := writeFrames_cons.mp unread
      have bound := small payload (by simp)
      rw [stream, readFrameInto_frame bound, Connection.received]
      -- The body is the payload, whatever the buffer held before.
      cases parsed : serde.fromSlice payload with
      | error e =>
        refine ⟨responses, ⟨done ++ [payload], rest, by simp, after, ?_⟩, wrote⟩
        have more := responsesTo_append found [payload] []
        simpa [responsesTo, parsed] using more
      | ok req => exact ⟨done, payload, rest, responses, rfl, after, parsed, found, wrote⟩
  | @dispatch req outcome here =>
    simp only [Following, here] at following
    obtain ⟨done, payload, rest, responses, rfl, unread, parsed, found, wrote⟩ := following
    refine ⟨responses, ⟨done ++ [payload], rest, by simp, unread, ?_⟩, wrote⟩
    rw [responsesTo_append found]
    simp [responsesTo, parsed]
  | reserve room here =>
    simp only [Following, here] at following
    exact following
  | @write resp buf bytes room here written =>
    simp only [Following, here] at following
    obtain ⟨responses, handled, wrote⟩ := following
    rw [clean resp buf here, List.nil_append] at written
    refine ⟨responses ++ [resp], handled, ?_⟩
    rw [Wrote, List.map_append]
    exact writeFrames_concat wrote written
  | @overflow resp buf room here refused =>
    simp only [Following, here] at following
    obtain ⟨responses, handled, wrote⟩ := following
    rw [clean resp buf here, List.nil_append] at refused
    refine ⟨responses, resp, handled, wrote, ?_⟩
    simpa [writeFrame] using refused
  | hangUp buf alive => trivial

/-- A step leaves clean what was clean. -/
theorem Connection.step_clean {pool after : BufferPool} {conn next : Connection Value}
    {action : ConnectionAction Value} (taken : conn.step serde pool action = some (after, next))
    (pooled : pool.Clean) : after.Clean ∧ next.Clean := by
  cases Connection.step_spec taken with
  | acquire here => exact ⟨pooled.acquire.2, fun resp buf phase => by cases phase⟩
  | @read frame room here =>
    refine ⟨pooled.drop _, ?_⟩
    -- What follows a read is never the writing of a response.
    intro resp buf phase
    simp only [Connection.received] at phase
    split at phase
    · cases phase
    · cases phase
    · split at phase <;> cases phase
  | dispatch outcome here => exact ⟨pooled, fun resp buf phase => by cases phase⟩
  | reserve room here =>
    obtain ⟨empty, left⟩ := pooled.acquireWithCapacity 1024 room
    refine ⟨left, ?_⟩
    intro resp buf phase
    cases phase
    exact empty
  | write room here written => exact ⟨pooled.drop _, fun resp buf phase => by cases phase⟩
  | overflow room here refused => exact ⟨pooled.drop _, fun resp buf phase => by cases phase⟩
  | hangUp buf alive => exact ⟨pooled.drop _, fun resp buf phase => by cases phase⟩

/-- What the peer sends is not changed by a step. -/
theorem Connection.step_sent {pool after : BufferPool} {conn next : Connection Value}
    {action : ConnectionAction Value} (taken : conn.step serde pool action = some (after, next)) :
    next.sent = conn.sent := by
  cases Connection.step_spec taken <;> rfl

/-- A read takes four bytes off the stream at least, or ends the loop. -/
theorem readFrameInto_shrinks (buf stream : List UInt8) :
    (readFrameInto buf stream).rest.length ≤ stream.length ∧
      ((readFrameInto buf stream).result = .ok (some ()) →
        (readFrameInto buf stream).rest.length + 4 ≤ stream.length) := by
  -- The length of the frame is taken off before its payload is.
  simp only [readFrameInto]
  split
  · exact ⟨Nat.zero_le _, fun same => by cases same⟩
  · split
    · exact ⟨by simp, fun same => by cases same⟩
    · split
      · exact ⟨Nat.zero_le _, fun same => by cases same⟩
      · simp only [List.length_drop]
        omega

/-- Every step of a connection brings it nearer to its end. -/
theorem Connection.step_ahead {pool after : BufferPool} {conn next : Connection Value}
    {action : ConnectionAction Value} (taken : conn.step serde pool action = some (after, next)) :
    next.ahead < conn.ahead := by
  -- A step that reads no bytes brings the connection into a phase of a lower rank.
  cases Connection.step_spec taken with
  | acquire here => simp [Connection.ahead, here, ConnectionPhase.rank]
  | @read frame room here =>
    obtain ⟨shorter, shrunk⟩ := readFrameInto_shrinks frame.bytes conn.input
    simp only [Connection.ahead, here, Connection.received]
    split
    · simp only [ConnectionPhase.rank]
      omega
    · simp only [ConnectionPhase.rank]
      omega
    · rename_i got
      have shrunk := shrunk got
      split <;> simp only [ConnectionPhase.rank] <;> omega
  | dispatch outcome here => simp [Connection.ahead, here, ConnectionPhase.rank]
  | reserve room here => simp [Connection.ahead, here, ConnectionPhase.rank]
  | write room here written => simp [Connection.ahead, here, ConnectionPhase.rank]
  | overflow room here refused => simp [Connection.ahead, here, ConnectionPhase.rank]
  | hangUp buf alive =>
    show 2 * conn.input.length + 0 < 2 * conn.input.length + conn.phase.rank
    omega

/-- A connection whose loop has not ended can do its next step. -/
theorem Connection.step_enabled (pool : BufferPool) {conn : Connection Value}
    (alive : 0 < conn.phase.rank) :
    ∃ action outcome, conn.step serde pool action = some outcome := by
  -- Every phase but the last ones has a step of its own that cannot fail.
  cases here : conn.phase with
  | listening => exact ⟨.acquire, _, by simp only [Connection.step, here]; rfl⟩
  | reading frame => exact ⟨.read 0, _, by simp only [Connection.step, here]; rfl⟩
  | dispatching req =>
    exact ⟨.dispatch (.error { code := 0, message := "" }), _,
      by simp only [Connection.step, here]; rfl⟩
  | answering resp => exact ⟨.reserve 0, _, by simp only [Connection.step, here]; rfl⟩
  | writing resp buf =>
    refine ⟨.write 0, ?_⟩
    simp only [Connection.step, here]
    split <;> exact ⟨_, rfl⟩
  | returned result => simp [here, ConnectionPhase.rank] at alive
  | lost => simp [here, ConnectionPhase.rank] at alive

namespace Connections

/-- One step of the daemon: a connection is accepted, or one of them goes on. -/
theorem step_spec {s next : Connections Value} {action : ConnectionsAction Value}
    (taken : s.step serde action = some next) :
    (∃ sent, action = .accept sent ∧ next = { s with conns := s.conns ++ [.accepted sent] }) ∨
      ∃ i own conn pool after, action = .conn i own ∧ s.conns[i]? = some conn ∧
        conn.step serde s.pool own = some (pool, after) ∧
        next = { pool, conns := s.conns.set i after } := by
  -- A connection goes on by its own step.
  cases action with
  | accept sent =>
    cases taken
    exact .inl ⟨sent, rfl, rfl⟩
  | conn i own =>
    simp only [step] at taken
    cases here : s.conns[i]? with
    | none => simp [here] at taken
    | some conn =>
      simp only [here, Option.map_eq_some_iff] at taken
      obtain ⟨⟨pool, after⟩, moved, rfl⟩ := taken
      exact .inr ⟨i, own, conn, pool, after, rfl, here, moved, rfl⟩

variable (serde)

/-- The pool holds nothing, and every connection follows what is sent on it. -/
structure Inv (s : Connections Value) : Prop where
  pooled : s.pool.Clean
  clean : ∀ {i : Nat} {conn}, s.conns[i]? = some conn → conn.Clean
  following : ∀ {i : Nat} {conn} {payloads : List (List UInt8)}, s.conns[i]? = some conn →
    writeFrames payloads = some conn.sent →
    (∀ payload ∈ payloads, payload.length ≤ maxFrame) → Following serde payloads conn

variable {serde}

/-- Every step of the daemon keeps the invariant. -/
theorem Inv.step {s next : Connections Value} (inv : s.Inv serde)
    {action : ConnectionsAction Value} (taken : s.step serde action = some next) :
    next.Inv serde := by
  -- Only the connection that goes on has to be looked at, and what it does to the pool.
  rcases step_spec taken with ⟨sent, rfl, rfl⟩ | ⟨i, own, conn, pool, after, rfl, here, moved, rfl⟩
  · refine ⟨inv.pooled, ?_, ?_⟩
    · intro i conn found
      rcases Population.joined found with ⟨_, rfl⟩ | ⟨_, there⟩
      · exact fun resp buf phase => by cases phase
      · exact inv.clean there
    · intro i conn payloads found written small
      rcases Population.joined found with ⟨_, rfl⟩ | ⟨_, there⟩
      · exact following_start written
      · exact inv.following there written small
  · obtain ⟨pooled, clean⟩ := Connection.step_clean moved inv.pooled
    refine ⟨pooled, ?_, ?_⟩
    · intro j other found
      rcases Population.moved found with ⟨_, rfl⟩ | ⟨_, there⟩
      · exact clean
      · exact inv.clean there
    · intro j other payloads found written small
      rcases Population.moved found with ⟨_, rfl⟩ | ⟨_, there⟩
      · rw [Connection.step_sent moved] at written
        exact (inv.following here written small).step small (inv.clean here) moved
      · exact inv.following there written small

/-- Every state of a daemon that started with an empty pool meets the invariant. -/
theorem inv_of_run {pool : BufferPool} (empty : pool.inner = [])
    {actions : List (ConnectionsAction Value)} {s : Connections Value}
    (ran : run (step serde) (start pool) actions = some s) : s.Inv serde := by
  -- There is no connection at first, and no buffer.
  refine run_invariant _ (fun _ _ _ inv taken => inv.step taken) ?_ ran
  have none : ∀ {i : Nat} {conn : Connection Value},
      (start pool : Connections Value).conns[i]? ≠ some conn := by
    intro i conn found
    cases found
  refine ⟨?_, fun found => absurd found none, fun found => absurd found none⟩
  intro buf member
  rw [show (start pool : Connections Value).pool.inner = [] from empty] at member
  cases member

/-- The step is one of this connection. -/
def isOf (i : Nat) : ConnectionsAction Value → Bool
  | .conn j _ => j == i
  | .accept _ => false

/-- A connection stays the same one, and each of its own steps brings it nearer to its end. -/
theorem run_ahead {s last : Connections Value} {actions : List (ConnectionsAction Value)}
    (ran : run (step serde) s actions = some last) {i : Nat} {conn : Connection Value}
    (here : s.conns[i]? = some conn) :
    ∃ later, last.conns[i]? = some later ∧ later.sent = conn.sent ∧
      actions.countP (isOf i) + later.ahead ≤ conn.ahead := by
  -- The induction counts the steps of this connection, whatever the others do in between.
  induction actions generalizing s conn with
  | nil =>
    cases ran
    exact ⟨conn, here, rfl, by simp⟩
  | cons action rest ih =>
    obtain ⟨next, taken, ran⟩ := run_cons_eq_some.mp ran
    rw [List.countP_cons]
    rcases step_spec taken with
      ⟨sent, rfl, rfl⟩ | ⟨j, own, moving, pool, after, rfl, there, moved, rfl⟩
    · obtain ⟨later, found, same, fewer⟩ := ih ran (Population.joined_old here)
      exact ⟨later, found, same, by simpa [isOf] using fewer⟩
    · by_cases mine : j = i
      · subst mine
        rw [here] at there
        cases there
        obtain ⟨later, found, same, fewer⟩ := ih ran (Population.moved_self here)
        have nearer := Connection.step_ahead moved
        refine ⟨later, found, same.trans (Connection.step_sent moved), ?_⟩
        simp only [isOf, beq_self_eq_true, if_true]
        omega
      · obtain ⟨later, found, same, fewer⟩ :=
          ih ran (Population.moved_other here (Ne.symm mine))
        exact ⟨later, found, same, by simpa [isOf, mine] using fewer⟩

/-- A connection takes no more steps than the bytes that its peer sends allow for. -/
theorem steps_bounded {s last : Connections Value} {actions : List (ConnectionsAction Value)}
    (ran : run (step serde) s actions = some last) {i : Nat} {conn : Connection Value}
    (absent : s.conns[i]? = none) (here : last.conns[i]? = some conn) :
    actions.countP (isOf i) ≤ 2 * conn.sent.length + 2 := by
  -- Until it is accepted it does nothing, and from then on its end comes nearer.
  induction actions generalizing s with
  | nil =>
    cases ran
    rw [absent] at here
    cases here
  | cons action rest ih =>
    obtain ⟨next, taken, ran⟩ := run_cons_eq_some.mp ran
    rw [List.countP_cons]
    rcases step_spec taken with
      ⟨sent, rfl, rfl⟩ | ⟨j, own, moving, pool, after, rfl, there, moved, rfl⟩
    · by_cases mine : i = s.conns.length
      · subst mine
        obtain ⟨later, found, same, fewer⟩ := run_ahead ran (List.getElem?_concat_length ..)
        rw [here] at found
        cases found
        have first : conn.sent = sent := same
        have begins : (Connection.accepted sent : Connection Value).ahead =
            2 * sent.length + 2 := rfl
        rw [begins] at fewer
        simp only [isOf, first, Bool.false_eq_true, if_false]
        omega
      · refine Nat.le_trans (Nat.le_of_eq ?_) (ih ran ?_)
        · simp [isOf]
        · rw [List.getElem?_eq_none_iff] at absent ⊢
          simp only [List.length_append, List.length_singleton]
          omega
    · have other : j ≠ i := by
        intro same
        subst same
        rw [there] at absent
        cases absent
      refine Nat.le_trans (Nat.le_of_eq ?_) (ih ran ?_)
      · simp [isOf, other]
      · rw [List.getElem?_eq_none_iff] at absent ⊢
        simpa using absent

end Connections

variable (serde)

/-- The connection has written the responses to the first of these frames, and nothing else. -/
def Replies (payloads : List (List UInt8)) (conn : Connection Value) : Prop :=
  ∃ done responses, done <+: payloads ∧ List.Forall₂ (Answers serde) done responses ∧
    Wrote serde conn.output responses

/-- Its loop has ended, and it has written the responses to all of them. -/
def RepliesToAll (payloads : List (List UInt8)) (conn : Connection Value) : Prop :=
  conn.phase = .returned (.ok ()) ∧ ∃ responses,
    responsesTo serde payloads conn.outcomes = some responses ∧
      List.Forall₂ (Answers serde) payloads responses ∧ Wrote serde conn.output responses

/-- Every response to the first of these frames fits in a frame. -/
def Encodable (payloads : List (List UInt8)) (outcomes : List (Except RpcError Value)) : Prop :=
  ∀ done responses, done <+: payloads → responsesTo serde done outcomes = some responses →
    ∀ resp ∈ responses, (serde.toWriter resp).length < 2 ^ 32

variable {serde}

/-- While a response is looked for or written, those to the frames before it are written. -/
theorem Handled.replies {payloads : List (List UInt8)} {conn : Connection Value}
    {responses more : List (Response Value)}
    (handled : Handled serde payloads conn.input conn.outcomes (responses ++ more))
    (wrote : Wrote serde conn.output responses) : Replies serde payloads conn := by
  -- Of the responses that were found so far, those that are written belong to the first frames.
  obtain ⟨done, rest, rfl, _, found⟩ := handled
  refine ⟨done.take responses.length, responses, ?_, ?_, wrote⟩
  · exact (List.take_prefix _ _).trans (List.prefix_append _ _)
  · simpa using List.forall₂_take responses.length (responsesTo_answers found)

/-- What a connection has written are responses to the first frames, as long as the stream works. -/
theorem Following.replies {payloads : List (List UInt8)} {conn : Connection Value}
    (following : Following serde payloads conn) (kept : conn.phase ≠ .lost) :
    Replies serde payloads conn := by
  -- What is written in each phase is part of what has been handled.
  have settled : ∀ responses, Handled serde payloads conn.input conn.outcomes responses →
      Wrote serde conn.output responses → Replies serde payloads conn := by
    intro responses handled wrote
    rw [← List.append_nil responses] at handled
    exact handled.replies wrote
  cases here : conn.phase with
  | listening =>
    simp only [Following, here] at following
    obtain ⟨responses, handled, wrote⟩ := following
    exact settled responses handled wrote
  | reading frame =>
    simp only [Following, here] at following
    obtain ⟨responses, handled, wrote⟩ := following
    exact settled responses handled wrote
  | dispatching req =>
    simp only [Following, here] at following
    obtain ⟨done, payload, rest, responses, rfl, _, _, found, wrote⟩ := following
    exact ⟨done, responses, List.prefix_append _ _, responsesTo_answers found, wrote⟩
  | answering resp =>
    simp only [Following, here] at following
    obtain ⟨responses, handled, wrote⟩ := following
    exact handled.replies wrote
  | writing resp buf =>
    simp only [Following, here] at following
    obtain ⟨responses, handled, wrote⟩ := following
    exact handled.replies wrote
  | returned result =>
    rcases result with e | ⟨⟩
    · simp only [Following, here] at following
      obtain ⟨responses, resp, handled, wrote, _⟩ := following
      exact handled.replies wrote
    · simp only [Following, here] at following
      obtain ⟨responses, found, wrote⟩ := following
      exact ⟨payloads, responses, List.prefix_rfl, responsesTo_answers found, wrote⟩
  | lost => exact absurd here kept

/-- A loop that has ended has replied to all frames, unless a response did not fit in a frame. -/
theorem Following.repliesToAll {payloads : List (List UInt8)} {conn : Connection Value}
    (following : Following serde payloads conn)
    (encodable : Encodable serde payloads conn.outcomes) (kept : conn.phase ≠ .lost)
    (ended : conn.phase.rank = 0) : RepliesToAll serde payloads conn := by
  -- The loop ends at the end of the stream, or with a response that is too large.
  cases here : conn.phase with
  | returned result =>
    rcases result with e | ⟨⟩
    · simp only [Following, here] at following
      obtain ⟨responses, resp, ⟨done, rest, rfl, _, found⟩, _, large⟩ := following
      have fits := encodable done _ (List.prefix_append _ _) found resp (by simp)
      omega
    · simp only [Following, here] at following
      obtain ⟨responses, found, wrote⟩ := following
      exact ⟨here, responses, found, responsesTo_answers found, wrote⟩
  | lost => exact absurd here kept
  | _ => simp [here, ConnectionPhase.rank] at ended

/--
In every run of any connections on a shared pool: a connection on which frames of at most the
largest size are sent, and whose stream works, replies to them in order, one response to each; it
can go on until it has replied to all of them, which is after a bounded number of its own steps.
What it writes is the same in any other run in which the same is sent and its methods return the
same, whatever the other connections and the buffers have been through.
-/
theorem connection_replies {pool : BufferPool} (empty : pool.inner = [])
    {actions : List (ConnectionsAction Value)} {s : Connections Value}
    (ran : run (Connections.step serde) (.start pool) actions = some s) {i : Nat}
    {conn : Connection Value} (here : s.conns[i]? = some conn) {payloads : List (List UInt8)}
    (sent : writeFrames payloads = some conn.sent)
    (small : ∀ payload ∈ payloads, payload.length ≤ maxFrame)
    (encodable : Encodable serde payloads conn.outcomes) (kept : conn.phase ≠ .lost) :
    Replies serde payloads conn ∧
      ((∃ action next, s.step serde (.conn i action) = some next) ∨
        RepliesToAll serde payloads conn) ∧
      actions.countP (Connections.isOf i) ≤ 2 * conn.sent.length + 2 ∧
      ∀ (other : BufferPool) (others : List (ConnectionsAction Value)) (t : Connections Value)
        (j : Nat) (twin : Connection Value), other.inner = [] →
        run (Connections.step serde) (.start other) others = some t → t.conns[j]? = some twin →
        twin.sent = conn.sent → twin.outcomes = conn.outcomes →
        conn.phase = .returned (.ok ()) → twin.phase = .returned (.ok ()) →
        twin.output = conn.output := by
  -- Everything is read off the invariant, but for the steps that are counted along the run.
  have following := (Connections.inv_of_run empty ran).following here sent small
  refine ⟨following.replies kept, ?_, Connections.steps_bounded ran rfl here, ?_⟩
  · rcases Nat.eq_zero_or_pos conn.phase.rank with ended | alive
    · exact .inr (following.repliesToAll encodable kept ended)
    · obtain ⟨action, outcome, taken⟩ := @Connection.step_enabled _ serde s.pool _ alive
      exact .inl ⟨action, _, by simp only [Connections.step, here, taken]; rfl⟩
  · -- The responses are a function of what was sent and of what the methods returned.
    intro other others t j twin clean ranToo there same alike ended endedToo
    rw [← same] at sent
    have twinFollows := (Connections.inv_of_run clean ranToo).following there sent small
    simp only [Following, ended] at following
    simp only [Following, endedToo, alike] at twinFollows
    obtain ⟨responses, found, wrote⟩ := following
    obtain ⟨again, foundToo, wroteToo⟩ := twinFollows
    rw [found] at foundToo
    cases foundToo
    rw [Wrote, wrote] at wroteToo
    exact (Option.some.inj wroteToo).symm

end

/-! Two frames on one connection, and a response that no frame can hold. -/

/-- The bytes of a text of ASCII characters. -/
def ascii (text : String) : List UInt8 := text.toList.map fun c => UInt8.ofNat c.toNat

/-- A request without parameters. -/
def pingBody : List UInt8 := ascii "\x7b\"id\":7,\"method\":\"ping\"\x7d"

/-- A JSON library whose values are their texts, for the two bodies that are sent here. -/
def textSerde : DaemonSerde (List UInt8) where
  fromSlice body :=
    if body = pingBody then .ok { id := 7, method := "ping", params := ascii "null" }
    else .error "expected value at line 1 column 1"
  toWriter resp :=
    ascii "\x7b\"id\":" ++ ascii (toString resp.id) ++
      (resp.result.elim [] fun value => ascii ",\"result\":" ++ value) ++
      (resp.error.elim [] fun e => ascii ",\"error\":\x7b\"code\":" ++ ascii (toString e.code) ++
        ascii ",\"message\":\"" ++ ascii e.message ++ ascii "\"\x7d") ++
      ascii "\x7d"

/-- The pool with which the daemon starts. -/
def framePool : BufferPool :=
  { inner := [], poolCapacity := 32, maxBufferCapacity := 256 * 1024 }

/-- A body that is no request, and a request behind it. -/
def garbledThenPing : List (List UInt8) := [ascii "x", pingBody]

/-- Both frames are read and answered, and then the stream ends. -/
def garbledRun (sent : List UInt8) : List (ConnectionsAction (List UInt8)) :=
  .accept sent :: [.acquire, .read 0, .reserve 0, .write 0, .acquire, .read 0,
    .dispatch (.ok (ascii "null")), .reserve 0, .write 0, .acquire, .read 0].map (.conn 0)

/-- The connection replies to both of them, and its loop ends. -/
theorem garbled_replies :
    ∃ sent s conn, writeFrames garbledThenPing = some sent ∧
      run (Connections.step textSerde) (.start framePool) (garbledRun sent) = some s ∧
      s.conns[0]? = some conn ∧ conn.phase = .returned (.ok ()) ∧
      Replies textSerde garbledThenPing conn := by
  obtain ⟨sent, written⟩ : ∃ sent, writeFrames garbledThenPing = some sent := ⟨_, rfl⟩
  obtain ⟨s, ran⟩ : ∃ s, run (Connections.step textSerde) (.start framePool) (garbledRun sent) =
      some s := by
    cases written
    exact ⟨_, rfl⟩
  have seen : ∃ conn, ((run (Connections.step textSerde) (.start framePool)
      (garbledRun sent)).bind fun s => s.conns[0]?) = some conn ∧ conn.sent = sent ∧
        conn.outcomes = [.ok (ascii "null")] ∧ conn.phase = .returned (.ok ()) := by
    cases written
    exact ⟨_, rfl, rfl, rfl, rfl⟩
  rw [ran] at seen
  obtain ⟨conn, here, same, outcomes, phase⟩ := seen
  refine ⟨sent, s, conn, written, ran, here, phase, ?_⟩
  refine (connection_replies rfl ran here (same ▸ written) (by decide) ?_ ?_).1
  · -- Only both frames together lead to responses, since one method has returned.
    rw [outcomes]
    intro done responses front found
    have all : responses = [.refusal "expected value at line 1 column 1",
        .dispatched 7 (.ok (ascii "null"))] := by
      have front : done ∈ [[], [ascii "x"], garbledThenPing] := (List.mem_inits done _).mpr front
      simp only [List.mem_cons, List.not_mem_nil, or_false] at front
      rcases front with rfl | rfl | rfl
      · cases found
      · have none : responsesTo textSerde [ascii "x"] [.ok (ascii "null")] = none := rfl
        rw [none] at found
        cases found
      · exact (Option.some.inj found).symm
    rw [all]
    decide
  · rw [phase]
    exact fun lost => by cases lost

/-- The request has been read, and its method has returned. -/
def returnedRun (sent text : List UInt8) : List (ConnectionsAction (List UInt8)) :=
  .accept sent :: [.acquire, .read 0, .dispatch (.ok text), .reserve 0].map (.conn 0)

/-- The connection that is about to write the result. -/
def replying (sent text : List UInt8) (buf : Buffer) : Connection (List UInt8) where
  sent
  input := []
  output := []
  outcomes := [.ok text]
  phase := .writing (.dispatched 7 (.ok text)) buf

/-- A result of as many bytes as a frame cannot hold ends the connection without a response. -/
theorem overflow_unanswered {text : List UInt8} (large : 2 ^ 32 ≤ text.length) :
    ∃ sent s conn, writeFrames [pingBody] = some sent ∧
      run (Connections.step textSerde) (.start framePool)
        (returnedRun sent text ++ [.conn 0 (.write 0)]) = some s ∧
      s.conns[0]? = some conn ∧ conn.outcomes = [.ok text] ∧ conn.output = [] ∧
      conn.phase = .returned (.error "frame too large to encode") := by
  -- Up to the response the run does not depend on what is in the text.
  obtain ⟨sent, pool, buf, written, empty, ran⟩ : ∃ sent pool buf,
      writeFrames [pingBody] = some sent ∧ Buffer.bytes buf = [] ∧
        run (Connections.step textSerde) (.start framePool) (returnedRun sent text) =
          some { pool, conns := [replying sent text buf] } :=
    ⟨_, _, _, rfl, rfl, rfl⟩
  -- The text alone is more than the four bytes of the length can say.
  have refused : writeFrame (textSerde.toWriter (.dispatched 7 (.ok text))) = none := by
    rw [writeFrame, if_neg]
    simp only [textSerde, Response.dispatched, Option.elim, List.length_append]
    omega
  have last : Connections.step textSerde { pool, conns := [replying sent text buf] }
      (.conn 0 (.write 0)) = some
        { pool := pool.drop (buf.fill (textSerde.toWriter (.dispatched 7 (.ok text))) 0)
          conns := [{ replying sent text buf with
            phase := .returned (.error "frame too large to encode") }] } := by
    simp only [Connections.step, Connection.step, replying, List.getElem?_cons_zero, Buffer.fill,
      empty, List.nil_append, refused]
    rfl
  exact ⟨sent, _, _, written, run_append_eq_some.mpr ⟨_, ran, run_cons_eq_some.mpr ⟨_, last, rfl⟩⟩,
    List.getElem?_cons_zero, rfl, rfl, rfl⟩

/-- So does a result of four gigabytes. -/
theorem large_result_unanswered :
    ∃ text sent s conn, writeFrames [pingBody] = some sent ∧ pingBody.length ≤ maxFrame ∧
      run (Connections.step textSerde) (.start framePool)
        (returnedRun sent text ++ [.conn 0 (.write 0)]) = some s ∧
      s.conns[0]? = some conn ∧ conn.outcomes = [.ok text] ∧ conn.output = [] ∧
      conn.phase = .returned (.error "frame too large to encode") := by
  have length : (List.replicate (2 ^ 32) (97 : UInt8)).length = 2 ^ 32 := List.length_replicate
  obtain ⟨sent, s, conn, written, rest⟩ := overflow_unanswered (Nat.le_of_eq length.symm)
  exact ⟨_, sent, s, conn, written, by decide, rest⟩

end McpCli
