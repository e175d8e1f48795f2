import McpCli.Daemon.ReadRace
import McpCli.Proofs.Daemon.ChangeLog
import McpCli.Proofs.Daemon.Read

/-! When the tokens that a read returns are never newer than the bytes that it returns. -/

namespace McpCli.ReadRace

open Transition

variable {params : FsReadParams}

/-- The file that the path names has the property. -/
def Shows (s : ReadRace) (holds : Nat → Inode → Prop) : Prop :=
  ∀ inode, s.inodes[s.named]? = some inode → holds s.named inode

/-- As long as the file has this modification time, it has the property. -/
def Dated (s : ReadRace) (mtimeNs : Nat) (holds : Nat → Inode → Prop) : Prop :=
  mtimeNs ∈ s.used ∧ s.Shows fun named inode => inode.mtimeNs = mtimeNs → holds named inode

/-- As long as the log has this version and lacks no change, the file has the property. -/
def Versioned (s : ReadRace) (version : Nat) (holds : Nat → Inode → Prop) : Prop :=
  version ≤ s.log.version ∧ (s.log.version = version → s.unrecorded = 0 → s.Shows holds)

/-- What a reader knows of the file named by the path, while one of its tokens is current. -/
def Knows (params : FsReadParams) (s : ReadRace) : ReadPhase → Prop
  | .statted file _ mtimeNs => s.Dated mtimeNs fun named _ => named = file
  | .observed head =>
    s.Dated head.mtimeNs (fun named _ => named = head.file) ∧
      s.Versioned head.version fun named _ => named = head.file
  | .mapped head length =>
    let holds named (inode : Inode) := named = head.file ∧ inode.bytes.length = length
    s.Dated head.mtimeNs holds ∧ s.Versioned head.version holds
  | .copying head copied =>
    let holds named (inode : Inode) :=
      named = head.file ∧ Copied params head.totalSize inode.bytes copied
    s.Dated head.mtimeNs holds ∧ s.Versioned head.version holds
  | .returned result =>
    let holds (_ : Nat) (inode : Inode) :=
      params.slice inode.bytes result.totalSize = result.content
    s.Dated result.mtimeNs holds ∧ s.Versioned result.version holds
  | _ => True

/-- The path names a file, and no two files have ever had the same modification time. -/
structure Timed (s : ReadRace) : Prop where
  named : s.named < s.inodes.length
  used : ∀ (i : Nat) (inode : Inode), s.inodes[i]? = some inode → inode.mtimeNs ∈ s.used
  distinct : ∀ (i j : Nat) (one other : Inode), s.inodes[i]? = some one →
    s.inodes[j]? = some other → one.mtimeNs = other.mtimeNs → i = j

/-- One file with a new modification time keeps the times apart. -/
theorem Timed.renewed {s next : ReadRace} (timed : s.Timed) {now : Nat} (unused : now ∉ s.used)
    (named : next.named < next.inodes.length) (used : next.used = now :: s.used) (changed : Nat)
    (others : ∀ (i : Nat) (inode : Inode), next.inodes[i]? = some inode →
      i = changed ∧ inode.mtimeNs = now ∨ s.inodes[i]? = some inode) : next.Timed := by
  -- Every other file has an old time of its own.
  have fresh : ∀ (i : Nat) (inode : Inode), s.inodes[i]? = some inode → inode.mtimeNs ≠ now :=
    fun i inode there same => unused (same ▸ timed.used i inode there)
  refine ⟨named, ?_, ?_⟩
  · intro i inode found
    rw [used]
    rcases others i inode found with ⟨_, same⟩ | old
    · rw [same]
      exact List.mem_cons_self
    · exact List.mem_cons_of_mem _ (timed.used i inode old)
  · intro i j one other isOne isOther same
    rcases others i one isOne with ⟨first, timeOne⟩ | oldOne
    · rcases others j other isOther with ⟨second, _⟩ | oldOther
      · rw [first, second]
      · exact absurd (same.symm.trans timeOne) (fresh j other oldOther)
    · rcases others j other isOther with ⟨_, timeOther⟩ | oldOther
      · exact absurd (same.trans timeOther) (fresh i one oldOne)
      · exact timed.distinct i j one other oldOne oldOther same

/-- What a token says of the file at one moment, it says later as well. -/
structure Keeps (s next : ReadRace) : Prop where
  dated : ∀ mtimeNs holds, s.Dated mtimeNs holds → next.Dated mtimeNs holds
  versioned : ∀ version holds, s.Versioned version holds → next.Versioned version holds

/-- A change that gives the file a new time makes both kinds of tokens out of date. -/
theorem Keeps.changed {s next : ReadRace} {now : Nat} (unused : now ∉ s.used)
    (used : next.used = now :: s.used) (log : next.log = s.log)
    (unrecorded : next.unrecorded = s.unrecorded + 1)
    (time : ∀ inode, next.inodes[next.named]? = some inode → inode.mtimeNs = now) :
    s.Keeps next := by
  refine ⟨?_, ?_⟩
  · intro mtimeNs holds dated
    refine ⟨by rw [used]; exact List.mem_cons_of_mem _ dated.1, ?_⟩
    intro inode found same
    rw [time inode found] at same
    exact absurd (same ▸ dated.1) unused
  · intro version holds versioned
    refine ⟨by rw [log]; exact versioned.1, ?_⟩
    -- The change is still to be recorded.
    intro _ recorded
    omega

/-- A record makes the versions so far out of date, and leaves the file alone. -/
theorem Keeps.recorded {s next : ReadRace} (named : next.named = s.named)
    (inodes : next.inodes = s.inodes) (used : next.used = s.used)
    (log : next.log.version = s.log.version + 1) : s.Keeps next := by
  refine ⟨?_, ?_⟩
  · -- Recording touches no inode and no stamp.
    intro mtimeNs holds dated
    refine ⟨by rw [used]; exact dated.1, ?_⟩
    unfold Shows
    rw [named, inodes]
    exact dated.2
  · -- A version that is known is behind the new one, so it is no longer the current one.
    intro version holds versioned
    have behind := versioned.1
    refine ⟨by omega, ?_⟩
    intro same
    omega

/-- What a reader knows, it still knows while the others move on. -/
theorem Keeps.knows {s next : ReadRace} (keeps : s.Keeps next) {phase : ReadPhase}
    (knows : s.Knows params phase) : next.Knows params phase := by
  -- A phase knows something of its time, and a later one of its version too.
  cases phase with
  | statted file totalSize mtimeNs => exact keeps.dated _ _ knows
  | observed head => exact ⟨keeps.dated _ _ knows.1, keeps.versioned _ _ knows.2⟩
  | mapped head length => exact ⟨keeps.dated _ _ knows.1, keeps.versioned _ _ knows.2⟩
  | copying head copied => exact ⟨keeps.dated _ _ knows.1, keeps.versioned _ _ knows.2⟩
  | returned result => exact ⟨keeps.dated _ _ knows.1, keeps.versioned _ _ knows.2⟩
  | _ => trivial

/-- A fact that follows from what was known while a token is current is known as well. -/
theorem Dated.mono {s : ReadRace} {mtimeNs : Nat} {strong weak : Nat → Inode → Prop}
    (dated : s.Dated mtimeNs strong)
    (weaken : ∀ inode, s.inodes[s.named]? = some inode → strong s.named inode →
      weak s.named inode) : s.Dated mtimeNs weak :=
  ⟨dated.1, fun inode found current => weaken inode found (dated.2 inode found current)⟩

/-- The same for the other token. -/
theorem Versioned.mono {s : ReadRace} {version : Nat} {strong weak : Nat → Inode → Prop}
    (versioned : s.Versioned version strong)
    (weaken : ∀ inode, s.inodes[s.named]? = some inode → strong s.named inode →
      weak s.named inode) : s.Versioned version weak :=
  ⟨versioned.1, fun current recorded inode found =>
    weaken inode found (versioned.2 current recorded inode found)⟩

/-- What was known while either token is current goes over together. -/
theorem tokens_mono {s : ReadRace} {mtimeNs version : Nat} {strong weak : Nat → Inode → Prop}
    (known : s.Dated mtimeNs strong ∧ s.Versioned version strong)
    (weaken : ∀ inode, s.inodes[s.named]? = some inode → strong s.named inode →
      weak s.named inode) : s.Dated mtimeNs weak ∧ s.Versioned version weak :=
  ⟨known.1.mono weaken, known.2.mono weaken⟩

/-- When it takes its snapshot, the reader has the file open that the path names, or a change is
still to be recorded. -/
def StillNamed (s : ReadRace) : Action → Prop
  | .read => ∀ file totalSize mtimeNs, s.reader = .statted file totalSize mtimeNs →
      s.named = file ∨ 0 < s.unrecorded
  | _ => True

/-- The stamp of the open file is that of no other file. -/
theorem Timed.stat {s : ReadRace} {reader : ReadPhase} {file : Nat} (timed : s.Timed)
    (taken : ReadPhase.next params s.view (.opened file) = some reader) :
    s.Knows params reader := by
  -- Two files with the same time are the same file.
  simp only [ReadPhase.next, view, Option.map_eq_some_iff] at taken
  obtain ⟨inode, opened, same⟩ := taken
  subst same
  refine ⟨timed.used file inode opened, ?_⟩
  intro current found time
  exact timed.distinct _ _ _ _ found opened time

/-- The snapshot is taken of a file that is still named, or that a record is still to tell of. -/
theorem Knows.snapshot {s : ReadRace} {reader : ReadPhase} {file totalSize mtimeNs : Nat}
    (knows : s.Knows params (.statted file totalSize mtimeNs))
    (still : s.named = file ∨ 0 < s.unrecorded)
    (taken : ReadPhase.next params s.view (.statted file totalSize mtimeNs) = some reader) :
    s.Knows params reader := by
  simp only [ReadPhase.next, Option.some.injEq] at taken
  subst taken
  refine ⟨knows, Nat.le_refl _, ?_⟩
  -- A change that is still to be recorded will make the version out of date.
  intro _ recorded inode _
  rcases still with named | waiting
  · exact named
  · exact absurd recorded (by omega)

/-- A file is mapped with the length that it has, and nothing is known of an empty request. -/
theorem Knows.mmap {s : ReadRace} {reader : ReadPhase} {head : ReadHead}
    (knows : s.Knows params (.observed head))
    (taken : ReadPhase.next params s.view (.observed head) = some reader) :
    s.Knows params reader := by
  simp only [ReadPhase.next] at taken
  split at taken
  · -- Nothing is mapped, and no bytes are the slice of any file.
    rename_i empty
    cases taken
    have nothing : ∀ inode, params.slice (Inode.bytes inode) head.totalSize = [] := by
      intro inode
      rw [empty]
      exact params.slice_empty inode.bytes
    exact tokens_mono knows fun inode _ _ => nothing inode
  · simp only [Option.map_eq_some_iff] at taken
    obtain ⟨inode, opened, same⟩ := taken
    subst same
    -- While a token is current, the length is that of the file that the path names.
    have long : ∀ current, s.inodes[s.named]? = some current → s.named = head.file →
        s.named = head.file ∧ current.bytes.length = inode.bytes.length := by
      intro current found named
      rw [named] at found
      have same := found.symm.trans opened
      simp only [Option.some.injEq] at same
      exact ⟨named, by rw [same]⟩
    exact tokens_mono knows long

/-- A slice that is within the mapping has nothing copied at first. -/
theorem Knows.slice {s : ReadRace} {reader : ReadPhase} {head : ReadHead} {length : Nat}
    (knows : s.Knows params (.mapped head length))
    (taken : ReadPhase.next params s.view (.mapped head length) = some reader) :
    s.Knows params reader := by
  simp only [ReadPhase.next] at taken
  split at taken
  · -- The end is within the length, so that the copy can start.
    rename_i fits
    cases taken
    have start : ∀ inode, s.inodes[s.named]? = some inode →
        s.named = head.file ∧ inode.bytes.length = length →
        s.named = head.file ∧ Copied params head.totalSize inode.bytes [] := by
      intro inode _ known
      exact ⟨known.1, Copied.start (by omega)⟩
    exact tokens_mono knows start
  · cases taken
    trivial

/-- One more byte of the open file is copied, or the copy is whole. -/
theorem Knows.copy {s : ReadRace} {reader : ReadPhase} {head : ReadHead} {copied : List UInt8}
    (knows : s.Knows params (.copying head copied))
    (taken : ReadPhase.next params s.view (.copying head copied) = some reader) :
    s.Knows params reader := by
  simp only [ReadPhase.next] at taken
  split at taken
  · rename_i ahead
    simp only [Option.map_eq_some_iff] at taken
    obtain ⟨inode, opened, same⟩ := taken
    -- While a token is current, the open file is the one that the path names.
    have next : ∀ current, s.inodes[s.named]? = some current →
        s.named = head.file ∧ Copied params head.totalSize current.bytes copied →
        ∃ byte, inode.peek ((params.range head.totalSize).1 + copied.length) = some byte ∧
          Copied params head.totalSize current.bytes (copied ++ [byte]) := by
      intro current found known
      rw [known.1] at found
      have equal := opened.symm.trans found
      simp only [Option.some.injEq] at equal
      subst equal
      exact known.2.next ahead
    cases seen : inode.peek ((params.range head.totalSize).1 + copied.length) with
    | none =>
      simp only [seen] at same
      subst same
      trivial
    | some byte =>
      simp only [seen] at same
      subst same
      have onward : ∀ current, s.inodes[s.named]? = some current →
          s.named = head.file ∧ Copied params head.totalSize current.bytes copied →
          s.named = head.file ∧
            Copied params head.totalSize current.bytes (copied ++ [byte]) := by
        intro current found known
        obtain ⟨other, shown, further⟩ := next current found known
        rw [seen, Option.some.injEq] at shown
        subst shown
        exact ⟨known.1, further⟩
      exact tokens_mono knows onward
  · rename_i through
    cases taken
    have all : ∀ inode, s.inodes[s.named]? = some inode →
        s.named = head.file ∧ Copied params head.totalSize inode.bytes copied →
        params.slice inode.bytes head.totalSize = copied :=
      fun inode _ known => (known.2.finish through).symm
    exact tokens_mono knows all

/-- A reader that takes its next step knows what it needs to know. -/
theorem Knows.next {s : ReadRace} {reader : ReadPhase} (timed : s.Timed)
    (knows : s.Knows params s.reader) (still : s.StillNamed .read)
    (taken : s.reader.next params s.view = some reader) : s.Knows params reader := by
  -- Each phase is followed by its own lemma, and the ends by nothing.
  cases phase : s.reader with
  | arrived =>
    simp only [phase, ReadPhase.next, view, Option.some.injEq] at taken
    subst taken
    trivial
  | opened file =>
    rw [phase] at taken
    exact timed.stat taken
  | statted file totalSize mtimeNs =>
    have named := still file totalSize mtimeNs phase
    rw [phase] at knows taken
    exact knows.snapshot named taken
  | observed head =>
    rw [phase] at knows taken
    exact knows.mmap taken
  | mapped head length =>
    rw [phase] at knows taken
    exact knows.slice taken
  | copying head copied =>
    rw [phase] at knows taken
    exact knows.copy taken
  | returned result => simp [phase, ReadPhase.next] at taken
  | failed error => simp [phase, ReadPhase.next] at taken
  | panicked => simp [phase, ReadPhase.next] at taken
  | killed => simp [phase, ReadPhase.next] at taken

/-- The times are apart, and the reader knows what it needs to know. -/
structure Inv (params : FsReadParams) (s : ReadRace) : Prop where
  timed : s.Timed
  knows : s.Knows params s.reader

/-- Every step keeps the invariant, if the snapshot is taken of a file that is still named. -/
theorem Inv.step {s next : ReadRace} {action : Action} (inv : s.Inv params)
    (still : s.StillNamed action) (taken : s.step params action = some next) :
    next.Inv params := by
  cases action with
  | read =>
    simp only [ReadRace.step, Option.map_eq_some_iff] at taken
    obtain ⟨reader, moved, same⟩ := taken
    have knows := inv.knows.next inv.timed still moved
    subst same
    refine ⟨⟨inv.timed.named, inv.timed.used, inv.timed.distinct⟩, ?_⟩
    -- What is known does not depend on how far the reader is.
    have keeps : s.Keeps { s with reader } := ⟨fun _ _ => id, fun _ _ => id⟩
    exact keeps.knows knows
  | modify bytes now =>
    simp only [ReadRace.step, Option.ite_none_left_eq_some, Option.some.injEq] at taken
    obtain ⟨unused, same⟩ := taken
    subst same
    refine ⟨inv.timed.renewed unused (by simpa using inv.timed.named) rfl s.named ?_, ?_⟩
    · intro i inode found
      by_cases here : i = s.named
      · subst here
        rw [List.getElem?_set_self inv.timed.named] at found
        cases found
        exact Or.inl ⟨rfl, rfl⟩
      · rw [List.getElem?_set_ne (Ne.symm here)] at found
        exact Or.inr found
    · have keeps : s.Keeps { s with
          inodes := s.inodes.set s.named { bytes, mtimeNs := now }
          used := now :: s.used
          unrecorded := s.unrecorded + 1 } := by
        refine Keeps.changed unused rfl rfl rfl ?_
        intro inode found
        rw [List.getElem?_set_self inv.timed.named] at found
        cases found
        rfl
      exact keeps.knows inv.knows
  | replace bytes now =>
    simp only [ReadRace.step, Option.ite_none_left_eq_some, Option.some.injEq] at taken
    obtain ⟨unused, same⟩ := taken
    subst same
    refine ⟨inv.timed.renewed unused (by simp) rfl s.inodes.length ?_, ?_⟩
    · intro i inode found
      by_cases old : i < s.inodes.length
      · rw [List.getElem?_append_left old] at found
        exact Or.inr found
      · rw [List.getElem?_append_right (by omega), List.getElem?_singleton] at found
        split at found
        · cases found
          exact Or.inl ⟨by omega, rfl⟩
        · cases found
    · have keeps : s.Keeps { s with
          named := s.inodes.length
          inodes := s.inodes ++ [{ bytes, mtimeNs := now }]
          used := now :: s.used
          unrecorded := s.unrecorded + 1 } := by
        refine Keeps.changed unused rfl rfl rfl ?_
        intro inode found
        rw [List.getElem?_append_right (Nat.le_refl _), Nat.sub_self,
          List.getElem?_singleton] at found
        cases found
        rfl
      exact keeps.knows inv.knows
  | record path kind =>
    simp only [ReadRace.step, Option.ite_none_left_eq_some, Option.some.injEq] at taken
    obtain ⟨waiting, same⟩ := taken
    subst same
    have keeps : s.Keeps { s with
        log := s.log.record path kind
        unrecorded := s.unrecorded - 1 } :=
      Keeps.recorded rfl rfl rfl (ChangeLog.record_version s.log path kind)
    exact ⟨⟨inv.timed.named, inv.timed.used, inv.timed.distinct⟩, keeps.knows inv.knows⟩
  | observe path kind =>
    simp only [ReadRace.step, Option.some.injEq] at taken
    subst taken
    have keeps : s.Keeps { s with log := s.log.record path kind } :=
      Keeps.recorded rfl rfl rfl (ChangeLog.record_version s.log path kind)
    exact ⟨⟨inv.timed.named, inv.timed.used, inv.timed.distinct⟩, keeps.knows inv.knows⟩

/--
While a returned token is current, be it the version of a log that lacks no change or the
modification time of the file, the file still has the bytes that were returned with it.
-/
def TokensSound (params : FsReadParams) (s : ReadRace) : Prop :=
  ∀ (result : FsReadResult) (inode : Inode), s.reader = .returned result →
    s.inodes[s.named]? = some inode →
    s.log.version = result.version ∧ s.unrecorded = 0 ∨ inode.mtimeNs = result.mtimeNs →
    params.slice inode.bytes result.totalSize = result.content

/-- The invariant says of a returned result what is to be shown. -/
theorem Inv.tokensSound {s : ReadRace} (inv : s.Inv params) : s.TokensSound params := by
  -- Whichever token is current, it was known of the bytes while they were copied.
  intro result inode returned found current
  have knows := inv.knows
  rw [returned] at knows
  obtain ⟨dated, versioned⟩ := knows
  rcases current with ⟨version, recorded⟩ | time
  · exact versioned.2 version recorded inode found
  · exact dated.2 inode found time

/-- A reader is about to start, on files whose times are apart. -/
structure Ready (s : ReadRace) : Prop where
  timed : s.Timed
  arrived : s.reader = .arrived

/--
In every state of a run on which the reader takes its snapshot while the path still names the
file that it has opened, or while a change is still to be recorded, its tokens are not newer than
its bytes.
-/
theorem tokens_not_newer {start : ReadRace} (ready : start.Ready) {actions : List Action}
    (still : Along (ReadRace.step params) StillNamed start actions) :
    Visits (ReadRace.step params) (TokensSound params) start actions := by
  -- A reader that has not started knows nothing.
  have first : start.Inv params := by
    refine ⟨ready.timed, ?_⟩
    rw [ready.arrived]
    trivial
  exact (visits_of_invariant (Inv params) (fun _ _ _ inv met taken => inv.step met taken) first
    still).mono fun _ inv => inv.tokensSound

/-- A file of one byte, and a log that has every change. -/
def oneByte : ReadRace where
  named := 0
  inodes := [{ bytes := [1], mtimeNs := 10 }]
  log := ChangeLog.withCapacity 64
  unrecorded := 0
  used := [10]
  reader := .arrived

/-- The whole file is asked for. -/
def wholeFile : FsReadParams := { path := ["a"], offset := 0, length := none, binary := false }

/-- The reader of the one byte is about to start. -/
theorem oneByte_ready : oneByte.Ready := by
  -- There is one inode, and it is the one that the path names.
  refine ⟨⟨by decide, ?_, ?_⟩, rfl⟩
  · intro i inode found
    cases i with
    | zero =>
      cases found
      exact List.mem_singleton.mpr rfl
    | succ i => cases found
  · intro i j one other isOne isOther _
    cases i with
    | zero =>
      cases j with
      | zero => rfl
      | succ j => cases isOther
    | succ i => cases isOne

/-- The file is modified while it is open, and the change recorded behind the read. -/
def modifiedBetween : List Action :=
  [.read, .modify [2] 20, .read, .read, .read, .read, .read, .read, .record ["a"] .modified]

/-- A modification between open and stat makes the version out of date, and not the bytes. -/
theorem tokens_not_newer_modified :
    ∃ s, run (ReadRace.step wholeFile) oneByte modifiedBetween = some s ∧
      s.TokensSound wholeFile := by
  -- The run is evaluated, and its one stat finds the file that was opened.
  obtain ⟨s, ran⟩ : ∃ s, run (ReadRace.step wholeFile) oneByte modifiedBetween = some s :=
    ⟨_, rfl⟩
  refine ⟨s, ran, Visits.last (tokens_not_newer oneByte_ready ?_) ran⟩
  refine ⟨?_, trivial, ?_, ?_, ?_, ?_, ?_, ?_, trivial, trivial⟩
  all_goals
    intro file totalSize mtimeNs statted
    cases statted
  exact Or.inl rfl

/--
The reader opens the file, another one is moved to its place, and that is recorded. The snapshot
has the version of the new file, and the bytes are those of the old one.
-/
theorem replaced_file_read_under_new_version :
    ∃ s result, run (ReadRace.step wholeFile) oneByte
        [.read, .replace [2] 20, .record ["a"] .created, .read, .read, .read, .read, .read,
          .read] = some s ∧
      s.reader = .returned result ∧ s.log.version = result.version ∧ s.unrecorded = 0 ∧
      s.inodes[s.named]?.map Inode.bytes = some [2] ∧ result.content = [1] :=
  ⟨_, _, rfl, rfl, rfl, rfl, rfl, rfl⟩

end McpCli.ReadRace
