import McpCli.Daemon.Read

/-! What a reader asks for, and what it has when it returns. -/

namespace McpCli

/-- The bytes of a whole file that a request asks for. -/
def FsReadParams.slice (params : FsReadParams) (bytes : List UInt8) (totalSize : Nat) :
    List UInt8 :=
  let (start, stop) := params.range totalSize
  (bytes.drop start).take (stop - start)

/-- A range starts before it stops, and stops within the size that it was chosen for. -/
theorem FsReadParams.range_bounds (params : FsReadParams) (totalSize : Nat) :
    (params.range totalSize).1 ≤ (params.range totalSize).2 ∧
      (params.range totalSize).2 ≤ totalSize := by
  simp only [range]
  omega

/-- The bytes copied so far are the first ones of the range, as they are in a file. -/
def Copied (params : FsReadParams) (totalSize : Nat) (bytes copied : List UInt8) : Prop :=
  (params.range totalSize).2 ≤ bytes.length ∧
    copied = (bytes.drop (params.range totalSize).1).take copied.length ∧
    (params.range totalSize).1 + copied.length ≤ (params.range totalSize).2

/-- Before the first byte nothing is copied, if the file is long enough for the range. -/
theorem Copied.start {params : FsReadParams} {totalSize : Nat} {bytes : List UInt8}
    (fits : (params.range totalSize).2 ≤ bytes.length) : Copied params totalSize bytes [] := by
  refine ⟨fits, by simp, ?_⟩
  exact (params.range_bounds totalSize).1

/-- Copying the next byte of the file goes on with the range. -/
theorem Copied.next {params : FsReadParams} {totalSize : Nat} {inode : Inode}
    {copied : List UInt8} (so : Copied params totalSize inode.bytes copied)
    (ahead : (params.range totalSize).1 + copied.length < (params.range totalSize).2) :
    ∃ byte, inode.peek ((params.range totalSize).1 + copied.length) = some byte ∧
      Copied params totalSize inode.bytes (copied ++ [byte]) := by
  -- The range ends inside the file, so there is a byte to copy.
  obtain ⟨fits, same, _⟩ := so
  have inside : (params.range totalSize).1 + copied.length < inode.bytes.length := by omega
  refine ⟨inode.bytes[(params.range totalSize).1 + copied.length], ?_, fits, ?_, ?_⟩
  · simp only [Inode.peek, List.getElem?_eq_getElem inside]
  · -- One byte more of the file is the bytes so far with that byte behind them.
    have within : copied.length < (inode.bytes.drop (params.range totalSize).1).length := by
      rw [List.length_drop]
      omega
    rw [List.length_append, List.length_singleton, List.take_succ_eq_append_getElem within,
      List.getElem_drop, ← same]
  · rw [List.length_append, List.length_singleton]
    omega

/-- When the range is through, exactly the bytes that were asked for are copied. -/
theorem Copied.finish {params : FsReadParams} {totalSize : Nat} {bytes copied : List UInt8}
    (so : Copied params totalSize bytes copied)
    (through : ¬ (params.range totalSize).1 + copied.length < (params.range totalSize).2) :
    copied = params.slice bytes totalSize := by
  -- As many bytes are copied as the range has.
  obtain ⟨_, same, atMost⟩ := so
  have exactly : (params.range totalSize).2 - (params.range totalSize).1 = copied.length := by
    omega
  simp only [FsReadParams.slice]
  rw [exactly]
  exact same

/-- An empty file has nothing to ask for. -/
theorem FsReadParams.slice_empty (params : FsReadParams) (bytes : List UInt8) :
    params.slice bytes 0 = [] := by
  simp [slice, range]

end McpCli
