import McpCli.Daemon.BufferPool

/-! A pool of buffers whose users take buffers, write to them and give them back. -/

namespace McpCli

/-- A pool with its users. -/
structure PoolRun where
  pool : BufferPool
  /-- The buffers that were handed out, those that were dropped not any more. -/
  handles : List (Option Buffer)
  /-- Each buffer as it was handed out, with the capacity that was asked for. -/
  handed : List (Nat × Buffer)

namespace PoolRun

/-- One thing that a user does. -/
inductive Action where
  | acquire
  /-- More may be reserved than is asked for: this much room is found. -/
  | acquireWithCapacity (minCapacity room : Nat)
  /-- Do anything to a buffer, which afterwards is this one. -/
  | use (id : Nat) (buf : Buffer)
  | drop (id : Nat)

/-- A pool that holds nothing yet. -/
def start (poolCapacity maxBufferCapacity : Nat) : PoolRun where
  pool := { inner := [], poolCapacity, maxBufferCapacity }
  handles := []
  handed := []

/-- A buffer is handed out. -/
def hand (s : PoolRun) (minCapacity : Nat) (taken : Buffer × BufferPool) : PoolRun :=
  let (buf, pool) := taken
  { pool, handles := s.handles ++ [some buf], handed := s.handed ++ [(minCapacity, buf)] }

/-- Take one step, if it is possible. -/
def step (s : PoolRun) : Action → Option PoolRun
  | .acquire => some (s.hand 0 s.pool.acquire)
  | .acquireWithCapacity minCapacity room =>
    some (s.hand minCapacity (s.pool.acquireWithCapacity minCapacity room))
  | .use id buf =>
    match s.handles[id]? with
    | some (some _) => some { s with handles := s.handles.set id (some buf) }
    | _ => none
  | .drop id =>
    match s.handles[id]? with
    -- The one who had the buffer has it no more.
    | some (some buf) => some { s with pool := s.pool.drop buf, handles := s.handles.set id none }
    | _ => none

end PoolRun

end McpCli
