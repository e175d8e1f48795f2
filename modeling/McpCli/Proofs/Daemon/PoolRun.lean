import McpCli.Daemon.PoolRun
import McpCli.Transition.Run

/-! What buffers a pool hands out, and what it keeps, over any use of it. -/

namespace McpCli

open Transition

/-- A pool keeps no more than it may, and empty buffers only, of a bounded capacity. -/
structure BufferPool.Bounded (pool : BufferPool) : Prop where
  few : pool.inner.length ≤ pool.poolCapacity
  small : ∀ buf ∈ pool.inner, buf.bytes = [] ∧ buf.capacity ≤ pool.maxBufferCapacity

/-- The pool is bounded, and every buffer was empty when it was handed out and had enough room. -/
structure PoolRun.Sound (s : PoolRun) : Prop where
  bounded : s.pool.Bounded
  handed : ∀ entry ∈ s.handed, entry.2.bytes = [] ∧ entry.1 ≤ entry.2.capacity

namespace BufferPool

/-- A bounded pool hands out an empty buffer and stays bounded. -/
theorem Bounded.acquire {pool : BufferPool} (bounded : pool.Bounded) :
    pool.acquire.1.bytes = [] ∧ pool.acquire.2.Bounded := by
  unfold BufferPool.acquire
  -- A buffer that waits is taken from the pool, and without one a new buffer is made.
  cases waiting : pool.inner with
  | nil => exact ⟨rfl, bounded⟩
  | cons buf rest =>
    have few := bounded.few
    have small := bounded.small
    rw [waiting] at few small
    refine ⟨(small buf List.mem_cons_self).1, Nat.le_of_succ_le few, ?_⟩
    exact fun other mem => small other (List.mem_cons_of_mem buf mem)

/-- What is reserved does not fill the buffer. -/
theorem bytes_reserveExact (additional room : Nat) (buf : Buffer) :
    (buf.reserveExact additional room).bytes = buf.bytes := by
  unfold Buffer.reserveExact
  split <;> rfl

/-- So does a pool that is asked for a capacity. -/
theorem Bounded.acquireWithCapacity {pool : BufferPool} (bounded : pool.Bounded)
    (minCapacity room : Nat) :
    (pool.acquireWithCapacity minCapacity room).1.bytes = [] ∧
      (pool.acquireWithCapacity minCapacity room).2.Bounded := by
  obtain ⟨empty, rest⟩ := bounded.acquire
  unfold BufferPool.acquireWithCapacity
  simp only
  split
  · exact ⟨(bytes_reserveExact _ _ _).trans empty, rest⟩
  · exact ⟨empty, rest⟩

/-- A pool stays bounded when a buffer is dropped, whatever was done to it. -/
theorem Bounded.drop {pool : BufferPool} (bounded : pool.Bounded) (buf : Buffer) :
    (pool.drop buf).Bounded := by
  unfold BufferPool.drop
  split
  · exact bounded
  · rename_i small
    split
    · rename_i room
      -- The buffer is cleared before the pool keeps it.
      refine ⟨room, ?_⟩
      intro other mem
      rcases List.mem_cons.mp mem with rfl | mem
      · exact ⟨rfl, Nat.le_of_not_lt small⟩
      · exact bounded.small other mem
    · exact bounded

/--
A buffer that waits to be used again has the capacity that is asked for, or none at all, or more
is reserved for it than is asked for on top of it.
-/
def Roomy (pool : BufferPool) (minCapacity room : Nat) : Prop :=
  ∀ buf ∈ pool.inner.head?, buf.capacity = 0 ∨ minCapacity ≤ buf.capacity ∨
    2 * buf.capacity < minCapacity ∧ minCapacity ≤ room

/-- For which empty buffers the capacity that is missing is enough to ask for. -/
theorem le_capacity_reserveExact_iff {buf : Buffer} (empty : buf.bytes = [])
    (minCapacity room : Nat) (less : buf.capacity < minCapacity) :
    minCapacity ≤ (buf.reserveExact (minCapacity - buf.capacity) room).capacity ↔
      buf.capacity = 0 ∨ 2 * buf.capacity < minCapacity ∧ minCapacity ≤ room := by
  have unused : buf.bytes.length = 0 := by rw [empty, List.length_nil]
  unfold Buffer.reserveExact
  split
  · -- What is asked for is there already, so nothing is reserved.
    show minCapacity ≤ buf.capacity ↔ _
    omega
  · -- The missing capacity is reserved on top of what is used, which is nothing.
    show minCapacity ≤ max (buf.bytes.length + (minCapacity - buf.capacity)) room ↔ _
    omega

/-- A buffer with the capacity that is asked for is handed out under exactly this condition. -/
theorem Bounded.le_capacity_iff {pool : BufferPool} (bounded : pool.Bounded)
    (minCapacity room : Nat) :
    minCapacity ≤ (pool.acquireWithCapacity minCapacity room).1.capacity ↔
      pool.Roomy minCapacity room := by
  have empty := bounded.acquire.1
  -- The buffer is the one that waits first, or a new one without any capacity.
  have taken : pool.Roomy minCapacity room ↔ pool.acquire.1.capacity = 0 ∨
      minCapacity ≤ pool.acquire.1.capacity ∨
      2 * pool.acquire.1.capacity < minCapacity ∧ minCapacity ≤ room := by
    unfold Roomy BufferPool.acquire
    cases pool.inner with
    | nil => simp [Buffer.new]
    | cons buf rest => simp
  rw [taken]
  unfold BufferPool.acquireWithCapacity
  simp only
  split
  · rename_i less
    rw [le_capacity_reserveExact_iff empty minCapacity room less,
      or_iff_right (Nat.not_le_of_lt less)]
  · rename_i enough
    have enough := Nat.le_of_not_lt enough
    exact iff_of_true enough (.inr (.inl enough))

end BufferPool

namespace PoolRun

/-- A user asks for a capacity only when the pool has a buffer for it. -/
def AsksRoomy (s : PoolRun) : Action → Prop
  | .acquireWithCapacity minCapacity room => s.pool.Roomy minCapacity room
  | _ => True

/-- What is handed out is sound exactly if it is empty and has room, and so is the pool left. -/
theorem Sound.hand_iff {s : PoolRun} (sound : s.Sound) {minCapacity : Nat}
    {taken : Buffer × BufferPool} (fine : taken.1.bytes = [] ∧ taken.2.Bounded) :
    (s.hand minCapacity taken).Sound ↔ minCapacity ≤ taken.1.capacity := by
  -- What was handed out before was sound, so only the new buffer is in question.
  constructor
  · intro after
    exact (after.handed (minCapacity, taken.1) (List.mem_append_right _ List.mem_cons_self)).2
  · intro room
    refine ⟨fine.2, fun entry mem => ?_⟩
    rcases List.mem_append.mp mem with before | now
    · exact sound.handed entry before
    · rw [List.mem_singleton.mp now]
      exact ⟨fine.1, room⟩

/-- A step keeps everything sound exactly if it asks for no capacity that the pool fails to give. -/
theorem sound_step_iff {s next : PoolRun} {action : Action} (taken : s.step action = some next)
    (sound : s.Sound) : next.Sound ↔ s.AsksRoomy action := by
  -- Only asking for a capacity may fail; the other actions keep everything sound.
  cases action with
  | acquire =>
    cases taken
    rw [sound.hand_iff sound.bounded.acquire]
    exact iff_of_true (Nat.zero_le _) trivial
  | acquireWithCapacity minCapacity room =>
    cases taken
    rw [sound.hand_iff (sound.bounded.acquireWithCapacity minCapacity room)]
    exact sound.bounded.le_capacity_iff minCapacity room
  | use id buf =>
    simp only [step] at taken
    split at taken
    · cases taken
      exact iff_of_true ⟨sound.bounded, sound.handed⟩ trivial
    · cases taken
  | drop id =>
    simp only [step] at taken
    split at taken
    · cases taken
      exact iff_of_true ⟨sound.bounded.drop _, sound.handed⟩ trivial
    · cases taken

/--
Whatever is done with a pool and its buffers, it keeps no more of them than it may, and only empty
ones that are not too large, and every buffer that it hands out is empty and has the capacity that
was asked for, exactly if whenever a capacity is asked for, the buffer that waits has none or
enough, or more is reserved on top of it than is asked for.
-/
theorem visits_sound_iff (poolCapacity maxBufferCapacity : Nat) (actions : List Action) :
    Visits step Sound (start poolCapacity maxBufferCapacity) actions ↔
      Along step AsksRoomy (start poolCapacity maxBufferCapacity) actions := by
  have first : (start poolCapacity maxBufferCapacity).Sound :=
    ⟨⟨Nat.zero_le _, by simp [start]⟩, by simp [start]⟩
  exact visits_iff_along (fun _ _ _ taken sound => sound_step_iff taken sound) first

/-- A buffer that has more than half of the capacity that is asked for is handed out as it is. -/
theorem half_capacity_handed_out :
    ∃ s, run step (start 4 1024) [.acquire, .use 0 ⟨[], 600, Nat.zero_le _⟩, .drop 0,
        .acquireWithCapacity 1000 0] = some s ∧
      (s.handed.map fun entry => (entry.1, entry.2.capacity)) = [(0, 0), (1000, 600)] ∧
      ¬ s.Sound := by
  refine ⟨_, rfl, rfl, fun sound => ?_⟩
  -- The last buffer was asked for with a capacity of 1000 and has one of 600.
  have room := (sound.handed _ (List.mem_append_right _ List.mem_cons_self)).2
  revert room
  decide

end PoolRun

end McpCli
