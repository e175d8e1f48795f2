import Mathlib.Data.List.Basic

/-! Byte buffers that are used again and again. -/

namespace McpCli

/-- A growable buffer, with the room that is allocated for it. -/
structure Buffer where
  bytes : List UInt8
  capacity : Nat
  fits : bytes.length ≤ capacity

namespace Buffer

/-- A buffer for which nothing is allocated yet. -/
def new : Buffer := { bytes := [], capacity := 0, fits := Nat.le_refl 0 }

/-- The buffer without its bytes, whose room stays allocated. -/
def clear (buf : Buffer) : Buffer :=
  { bytes := [], capacity := buf.capacity, fits := Nat.zero_le _ }

/-- The buffer with other bytes; more room than they need may be allocated. -/
def fill (bytes : List UInt8) (room : Nat) (buf : Buffer) : Buffer :=
  { bytes, capacity := max (max buf.capacity room) bytes.length, fits := Nat.le_max_right _ _ }

/-- Make room for that many bytes behind those that are there; again there may be more of it. -/
def reserveExact (additional room : Nat) (buf : Buffer) : Buffer :=
  if buf.bytes.length + additional ≤ buf.capacity then buf
  else
    { bytes := buf.bytes
      capacity := max (buf.bytes.length + additional) room
      fits := Nat.le_trans (Nat.le_add_right _ _) (Nat.le_max_left _ _) }

end Buffer

/-- The buffers that are waiting to be used again. -/
structure BufferPool where
  /-- The one that was returned last comes first. -/
  inner : List Buffer
  poolCapacity : Nat
  maxBufferCapacity : Nat

namespace BufferPool

/-- Take a buffer, or a new one when none is waiting. -/
def acquire (pool : BufferPool) : Buffer × BufferPool :=
  match pool.inner with
  | [] => (.new, pool)
  | buf :: rest => (buf, { pool with inner := rest })

/-- Take a buffer, and allocate more room for it when it has less than is asked for. -/
def acquireWithCapacity (minCapacity room : Nat) (pool : BufferPool) : Buffer × BufferPool :=
  let (buf, pool) := pool.acquire
  if buf.capacity < minCapacity then
    (buf.reserveExact (minCapacity - buf.capacity) room, pool)
  else (buf, pool)

/-- A buffer is dropped: it is cleared and kept, unless it is too large or there are enough. -/
def drop (buf : Buffer) (pool : BufferPool) : BufferPool :=
  if pool.maxBufferCapacity < buf.capacity then pool
  else if pool.inner.length < pool.poolCapacity then
    { pool with inner := buf.clear :: pool.inner }
  else pool

end BufferPool

end McpCli
