import McpCli.Daemon.TornRead
import McpCli.Proofs.Daemon.Read

/-! When a reader gets the bytes of the file as they were before or after a write. -/

namespace McpCli

open Transition

variable {params : FsReadParams}

namespace ReadPhase

/-- The reader relies on the length that it has found. -/
def measured : ReadPhase → Bool
  | .statted .. | .observed _ | .mapped .. | .copying .. => true
  | _ => false

end ReadPhase

namespace TornRead

/-- Nobody empties the file between the stat of a reader and its last byte, and the stat itself is
not taken of a file that is only partly written. -/
def Apart (s : TornRead) : Action → Prop
  | .read => ∀ file, s.reader = .opened file → s.writing = none
  | .truncate _ => s.reader.measured = false
  | .put _ => True

/-- What a reader relies on: the file is whole, as it was at the stat. -/
def Whole (params : FsReadParams) (s : TornRead) : ReadPhase → Prop
  | .opened file => file = 0
  | .statted file totalSize _ => file = 0 ∧ s.writing = none ∧ s.bytes.length = totalSize
  | .observed head => head.file = 0 ∧ s.writing = none ∧ s.bytes.length = head.totalSize
  | .mapped head length =>
    head.file = 0 ∧ s.writing = none ∧ s.bytes.length = head.totalSize ∧
      length = head.totalSize
  | .copying head copied =>
    head.file = 0 ∧ s.writing = none ∧ s.bytes.length = head.totalSize ∧
      Copied params head.totalSize s.bytes copied
  | .returned result =>
    ∃ whole ∈ s.complete, result.totalSize = whole.length ∧
      result.content = params.slice whole whole.length
  | .panicked | .killed => False
  | _ => True

/-- A file that is not being written is whole, and a reader has what it relies on. -/
structure Inv (params : FsReadParams) (s : TornRead) : Prop where
  whole : s.writing = none → s.bytes ∈ s.complete
  relies : s.Whole params s.reader

/-- A step of the reader leaves it with what it relies on. -/
theorem Inv.read {s : TornRead} {reader : ReadPhase} (inv : s.Inv params)
    (apart : s.Apart .read) (taken : s.reader.next params s.view = some reader) :
    s.Whole params reader := by
  have relies := inv.relies
  cases phase : s.reader with
  | arrived =>
    simp only [phase, ReadPhase.next, view, Option.some.injEq] at taken
    subst taken
    rfl
  | opened file =>
    rw [phase] at relies
    have here : file = 0 := relies
    subst here
    simp only [phase, ReadPhase.next, view, List.getElem?_cons_zero, Option.map_some,
      Option.some.injEq] at taken
    subst taken
    -- The length is taken of a file that nobody is writing.
    exact ⟨rfl, apart 0 phase, rfl⟩
  | statted file totalSize mtimeNs =>
    rw [phase] at relies
    simp only [phase, ReadPhase.next, Option.some.injEq] at taken
    subst taken
    exact relies
  | observed head =>
    rw [phase] at relies
    obtain ⟨here, idle, size⟩ := relies
    simp only [phase, ReadPhase.next, view, here, List.getElem?_cons_zero, Option.map_some] at taken
    split at taken
    · -- An empty file is read at once.
      rename_i empty
      cases taken
      refine ⟨s.bytes, inv.whole idle, size.symm, ?_⟩
      show [] = params.slice s.bytes s.bytes.length
      rw [size, empty]
      exact (params.slice_empty s.bytes).symm
    · cases taken
      -- The mapping is as long as the file was at the stat.
      exact ⟨here, idle, size, size⟩
  | mapped head length =>
    rw [phase] at relies
    obtain ⟨here, idle, size, same⟩ := relies
    simp only [phase, ReadPhase.next] at taken
    -- The range was chosen for the size that was mapped.
    have fits : (params.range head.totalSize).2 ≤ length := by
      rw [same]
      exact (params.range_bounds head.totalSize).2
    rw [if_pos fits] at taken
    cases taken
    exact ⟨here, idle, size, Copied.start (by omega)⟩
  | copying head copied =>
    rw [phase] at relies
    obtain ⟨here, idle, size, so⟩ := relies
    simp only [phase, ReadPhase.next, view, here, List.getElem?_cons_zero, Option.map_some] at taken
    split at taken
    · rename_i ahead
      -- The byte comes from the file as it was at the stat.
      have so : Copied params head.totalSize
          ({ bytes := s.bytes, mtimeNs := 0 } : Inode).bytes copied := so
      obtain ⟨byte, seen, further⟩ := so.next ahead
      simp only [seen, Option.some.injEq] at taken
      subst taken
      exact ⟨here, idle, size, further⟩
    · rename_i through
      cases taken
      refine ⟨s.bytes, inv.whole idle, size.symm, ?_⟩
      rw [size]
      exact so.finish through
  | returned result => simp [phase, ReadPhase.next] at taken
  | failed error => simp [phase, ReadPhase.next] at taken
  | panicked => simp [phase, ReadPhase.next] at taken
  | killed => simp [phase, ReadPhase.next] at taken

/-- Giving the file bytes of new contents keeps a file that is not being written whole. -/
theorem fill_whole (s : TornRead) (new : List UInt8) (count : Nat) :
    ((s.fill new count).writing = none → (s.fill new count).bytes ∈ (s.fill new count).complete) ∧
      s.complete <:+ (s.fill new count).complete ∧ (s.fill new count).reader = s.reader := by
  -- Either the write is complete, or it is still under way.
  unfold fill
  split
  · exact ⟨fun _ => List.mem_cons_self, List.suffix_cons _ _, rfl⟩
  · refine ⟨?_, List.suffix_refl _, rfl⟩
    intro idle
    cases idle

/-- A reader that relies on no length loses nothing when the file is written. -/
theorem Whole.unmeasured {s next : TornRead} {phase : ReadPhase} (relies : s.Whole params phase)
    (free : phase.measured = false) (kept : s.complete <:+ next.complete) :
    next.Whole params phase := by
  -- What was returned was complete then and stays so; the other phases rest on no measure.
  cases phase with
  | returned result =>
    obtain ⟨whole, member, size, content⟩ := relies
    exact ⟨whole, kept.subset member, size, content⟩
  | opened file => exact relies
  | arrived => trivial
  | failed error => trivial
  | panicked => exact relies
  | killed => exact relies
  | statted file totalSize mtimeNs => cases free
  | observed head => cases free
  | mapped head length => cases free
  | copying head copied => cases free

/-- While the file is written, no reader relies on its length. -/
theorem Whole.unmeasured_of_writing {s : TornRead} {phase : ReadPhase}
    (relies : s.Whole params phase) {new : List UInt8} (busy : s.writing = some new) :
    phase.measured = false := by
  -- Each phase that relies on the length says that the file is not being written.
  have idle : s.writing = none → phase.measured = false := by
    intro idle
    rw [idle] at busy
    cases busy
  cases phase with
  | statted file totalSize mtimeNs => exact idle relies.2.1
  | observed head => exact idle relies.2.1
  | mapped head length => exact idle relies.2.1
  | copying head copied => exact idle relies.2.1
  | _ => rfl

/-- Every step that keeps reader and writer apart keeps the invariant. -/
theorem Inv.step {s next : TornRead} {action : Action} (inv : s.Inv params)
    (apart : s.Apart action) (taken : s.step params action = some next) : next.Inv params := by
  cases action with
  | read =>
    simp only [TornRead.step, Option.map_eq_some_iff] at taken
    obtain ⟨reader, moved, same⟩ := taken
    have relies := inv.read apart moved
    subst same
    refine ⟨inv.whole, ?_⟩
    show Whole params { s with reader } reader
    cases reader <;> exact relies
  | truncate new =>
    simp only [TornRead.step] at taken
    split at taken
    · cases taken
    · cases taken
      obtain ⟨whole, kept, reader⟩ := s.fill_whole new 0
      refine ⟨whole, ?_⟩
      rw [reader]
      -- No reader relies on the length of a file that is being emptied.
      exact inv.relies.unmeasured apart kept
  | put count =>
    simp only [TornRead.step] at taken
    split at taken
    · cases taken
    · rename_i new busy
      cases taken
      obtain ⟨whole, kept, reader⟩ := s.fill_whole new (s.bytes.length + count)
      refine ⟨whole, ?_⟩
      rw [reader]
      exact inv.relies.unmeasured (inv.relies.unmeasured_of_writing busy) kept

/--
The reader has not sliced past the end of its mapping and not touched a page that is gone, and
what it returned is the range it was asked for, of contents that the file has had as a whole.
-/
def ReadsWhole (params : FsReadParams) (s : TornRead) : Prop :=
  s.reader ≠ .panicked ∧ s.reader ≠ .killed ∧
    ∀ result, s.reader = .returned result → ∃ whole ∈ s.complete,
      result.totalSize = whole.length ∧ result.content = params.slice whole whole.length

/-- The invariant says of a reader what is to be shown. -/
theorem Inv.readsWhole {s : TornRead} (inv : s.Inv params) : s.ReadsWhole params := by
  have relies := inv.relies
  -- What a reader relies on in a phase is that phase's part of the statement.
  refine ⟨?_, ?_, ?_⟩
  · intro panicked
    rw [panicked] at relies
    exact relies
  · intro killed
    rw [killed] at relies
    exact relies
  · intro result returned
    rw [returned] at relies
    exact relies

/-- A whole file that nobody writes, and a reader that is about to start. -/
structure Ready (s : TornRead) : Prop where
  idle : s.writing = none
  complete : s.complete = [s.bytes]
  arrived : s.reader = .arrived

/--
In every state of a run on which no write empties the file between a reader's stat and its last
byte, and the stat is not taken during a write, the reader has not gone past the end of the file
and returns the bytes of old or new contents as a whole.
-/
theorem reads_whole {start : TornRead} (ready : start.Ready) {actions : List Action}
    (apart : Along (TornRead.step params) Apart start actions) :
    Visits (TornRead.step params) (ReadsWhole params) start actions := by
  -- At the start nobody writes and the reader has looked at nothing.
  have first : start.Inv params := by
    refine ⟨?_, ?_⟩
    · intro _
      rw [ready.complete]
      exact List.mem_singleton.mpr rfl
    · rw [ready.arrived]
      trivial
  exact (visits_of_invariant (Inv params) (fun _ _ _ inv met taken => inv.step met taken) first
    apart).mono fun _ inv => inv.readsWhole

/-- A file of two bytes that nobody writes. -/
def twoBytes : TornRead where
  bytes := [1, 1]
  writing := none
  complete := [[1, 1]]
  log := ChangeLog.withCapacity 64
  reader := .arrived

/-- A request for the whole file. -/
def allOf : FsReadParams := { path := ["a"], offset := 0, length := none, binary := false }

/-- A read that starts behind the opening of the file for a write, and is over before another. -/
def betweenWrites : List Action :=
  [.read, .truncate [2, 2], .put 1, .put 1, .read, .read, .read, .read, .read, .read, .read,
    .truncate [3]]

/-- Between two writes, all of the new bytes are read. -/
theorem reads_whole_between_writes :
    ∃ s, run (TornRead.step allOf) twoBytes betweenWrites = some s ∧ s.ReadsWhole allOf := by
  obtain ⟨s, ran⟩ : ∃ s, run (TornRead.step allOf) twoBytes betweenWrites = some s := ⟨_, rfl⟩
  refine ⟨s, ran, Visits.last (reads_whole ⟨rfl, rfl, rfl⟩ ?_) ran⟩
  -- A read must not be the stat of a file that is being written; the second one is the stat.
  refine ⟨?_, rfl, trivial, trivial, ?_, ?_, ?_, ?_, ?_, ?_, ?_, rfl, trivial⟩
  · intro file opened
    cases opened
  · intro file _
    rfl
  all_goals
    intro file opened
    cases opened

/--
With the file emptied between the stat and the mapping, the reader slices past the end of what it
has mapped. With the bytes replaced while they are copied, it returns what the file never held.
-/
theorem overlapping_read_torn :
    (∃ s, run (TornRead.step allOf) twoBytes [.read, .read, .truncate [2, 2], .read, .read, .read] =
        some s ∧
      s.reader = .panicked) ∧
    ∃ s result, run (TornRead.step allOf) twoBytes
        [.read, .read, .read, .read, .read, .read, .truncate [2, 2], .put 2, .read, .read] =
        some s ∧
      s.reader = .returned result ∧ result.content = [1, 2] ∧ s.complete = [[2, 2], [1, 1]] :=
  ⟨⟨_, rfl, rfl⟩, _, _, rfl, rfl, rfl, rfl⟩

end TornRead

end McpCli
