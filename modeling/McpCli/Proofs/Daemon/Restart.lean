import McpCli.Daemon.Restart
import McpCli.Proofs.Daemon.ChangeLog

/-! When a version of an earlier daemon is refused by a later one, and when it is not. -/

namespace McpCli

/-- A conditional write passes its check when the version and the time are what it expects. -/
theorem Project.checkWritePreconditions_eq_ok_iff (project : Project) (expected : Nat)
    (expectedMtimeNs : Option Nat) :
    project.checkWritePreconditions (some expected) expectedMtimeNs = .ok () ↔
      expected = project.log.version ∧
        ∀ mtimeNs, expectedMtimeNs = some mtimeNs → project.metadata = .ok mtimeNs := by
  unfold Project.checkWritePreconditions
  -- The version is looked at first, and the time only if it is the expected one.
  by_cases same : expected = project.log.version
  · have passed : (some expected).filter
        (fun expected => decide (project.log.snapshot.1 ≠ expected)) = none := by
      simp [ChangeLog.snapshot, same]
    simp only [passed]
    cases expectedMtimeNs with
    | none => simp [same]
    | some mtimeNs =>
      cases held : project.metadata with
      | error error => simp [same]
      | ok current => simp [same]
  · have refused : (some expected).filter
        (fun expected => decide (project.log.snapshot.1 ≠ expected)) = some expected := by
      simp [ChangeLog.snapshot, Ne.symm same]
    simp only [refused]
    simp [same]

/-- A conditional write is refused when its version or its time is not the expected one. -/
theorem Project.checkWritePreconditions_error_iff (project : Project) (expected : Nat)
    (expectedMtimeNs : Option Nat) :
    (∃ error, project.checkWritePreconditions (some expected) expectedMtimeNs = .error error) ↔
      expected ≠ project.log.version ∨
        ∃ mtimeNs, expectedMtimeNs = some mtimeNs ∧ project.metadata ≠ .ok mtimeNs := by
  -- To be refused is not to pass.
  have refused : ∀ checked : Except RpcError Unit,
      (∃ error, checked = .error error) ↔ ¬ checked = .ok () := by
    intro checked
    cases checked with
    | error error => simp
    | ok _ => simp
  rw [refused, checkWritePreconditions_eq_ok_iff, not_and_or, not_forall]
  simp only [Classical.not_imp]

namespace Restart

/-- Everything a step can be. -/
inductive Step (s : Restart) : Action → Restart → Prop where
  | change (path : RelPath) (kind : ChangeKind) (fate : Fate)
      (unrecorded : ∀ daemon version, fate ≠ .recorded daemon version)
      (late : ∀ daemon, fate = .lost daemon → daemon = s.daemon ∧ s.running = false) :
      Step s (.change path kind) { s with changes := s.changes ++ [{ path, kind, fate }] }
  | deliver (index : Nat) (change : Change) (here : s.changes[index]? = some change)
      (flying : change.fate = .inFlight) :
      Step s (.deliver index) { s with
        log := s.log.record change.path change.kind
        changes := s.changes.set index
          { change with fate := .recorded s.daemon (s.log.version + 1) } }
  | write (path : RelPath) :
      Step s (.write path) { s with
        log := s.log.record path .modified
        changes := s.changes ++
          [{ path, kind := .modified, fate := .recorded s.daemon (s.log.version + 1) }] }
  | issue (token : Token) : Step s .issue { s with tokens := s.tokens ++ [token] }
  | exit :
      Step s .exit { s with running := false, changes := s.changes.map (dropped s.daemon) }
  | spawn (capacity : Nat) (positive : 0 < capacity) :
      Step s (.spawn capacity) { s with
        daemon := s.daemon + 1, running := true, log := .withCapacity capacity }

/-- A step is one of these. -/
theorem step_spec {s next : Restart} {action : Action} (taken : s.step action = some next) :
    Step s action next := by
  cases action with
  | change path kind =>
    cases taken
    -- Without a daemon nobody hears of the change.
    refine .change path kind (if s.running then .inFlight else .lost s.daemon) ?_ ?_
    · intro daemon version
      cases s.running <;> simp
    · intro daemon
      cases s.running <;> simp [eq_comm]
  | deliver index =>
    simp only [step] at taken
    split at taken
    · split at taken
      · cases taken
        exact .deliver index _ ‹_› ‹_›
      · cases taken
    · cases taken
  | write path =>
    simp only [step] at taken
    split at taken
    · cases taken
      exact .write path
    · cases taken
  | issue =>
    simp only [step] at taken
    split at taken
    · cases taken
      exact .issue _
    · cases taken
  | exit =>
    simp only [step] at taken
    split at taken
    · cases taken
      exact .exit
    · cases taken
  | spawn capacity =>
    simp only [step] at taken
    split at taken
    · cases taken
    · rename_i possible
      cases taken
      exact .spawn capacity (by omega)

/--
The log of the daemon is in order, what was recorded or lost belongs to this daemon or an earlier
one, and whatever this daemon has recorded began with the change that became its first version.
-/
structure Inv (s : Restart) : Prop where
  formed : s.log.WellFormed
  bounded : s.log.Bounded
  roomy : 0 < s.log.capacity
  known : ∀ change ∈ s.changes, ∀ daemon version, change.fate = .recorded daemon version →
    daemon ≤ s.daemon ∧ (daemon = s.daemon → 0 < version ∧ version ≤ s.log.version)
  gone : ∀ change ∈ s.changes, ∀ daemon, change.fate = .lost daemon →
    daemon ≤ s.daemon ∧ (s.running = true → daemon < s.daemon)
  first : 0 < s.log.version → ∃ change ∈ s.changes, change.fate = .recorded s.daemon 1

/-- Nothing has been recorded before the first daemon. -/
theorem untouched_inv : untouched.Inv := by
  refine ⟨ChangeLog.withCapacity_wellFormed _, ChangeLog.withCapacity_bounded _, by decide, ?_, ?_,
    fun recorded => absurd recorded (Nat.lt_irrefl 0)⟩
  · intro change member
    cases member
  · intro change member
    cases member

/-- Losing what is in flight changes nothing that is recorded. -/
theorem dropped_recorded {daemon d version : Nat} {change : Change} :
    (dropped daemon change).fate = .recorded d version ↔ change.fate = .recorded d version := by
  rw [dropped]
  split
  · rename_i flying
    simp [flying]
  · exact Iff.rfl

/-- What is lost was lost before, or was in flight when the daemon exited. -/
theorem dropped_lost {daemon d : Nat} {change : Change}
    (lost : (dropped daemon change).fate = .lost d) : d = daemon ∨ change.fate = .lost d := by
  rw [dropped] at lost
  split at lost
  · exact .inl (Fate.lost.inj lost).symm
  · exact .inr lost

/-- Recording one more change gives it the next version and leaves the recorded ones alone. -/
theorem Inv.record {s : Restart} (inv : s.Inv) (path : RelPath) (kind : ChangeKind)
    {changes : List Change}
    (only : ∀ change ∈ changes, change ∈ s.changes ∨
      change.fate = .recorded s.daemon (s.log.version + 1))
    (kept : ∀ change ∈ s.changes, ∀ daemon version, change.fate = .recorded daemon version →
      change ∈ changes)
    (new : ∃ change ∈ changes, change.fate = .recorded s.daemon (s.log.version + 1)) :
    Inv { s with log := s.log.record path kind, changes } := by
  have version := ChangeLog.record_version s.log path kind
  refine ⟨inv.formed.record path kind, inv.bounded.record inv.roomy path kind, ?_, ?_, ?_, ?_⟩
  · rw [ChangeLog.record_capacity]
    exact inv.roomy
  · -- The new change has the new version, and older ones stay below it.
    intro change member daemon v recorded
    rcases only change member with old | next
    · obtain ⟨earlier, mine⟩ := inv.known change old daemon v recorded
      refine ⟨earlier, fun same => ?_⟩
      have bounds := mine same
      simp only [version]
      omega
    · rw [next, Fate.recorded.injEq] at recorded
      simp only [version]
      exact ⟨Nat.le_of_eq recorded.1.symm, fun _ => by omega⟩
  · -- A change that is recorded is not lost.
    intro change member daemon lost
    rcases only change member with old | next
    · exact inv.gone change old daemon lost
    · rw [next] at lost
      cases lost
  · intro _
    by_cases empty : s.log.version = 0
    · -- This is the first change that the daemon records.
      rw [empty] at new
      exact new
    · obtain ⟨change, member, recorded⟩ := inv.first (Nat.pos_of_ne_zero empty)
      exact ⟨change, kept change member _ _ recorded, recorded⟩

/-- Every step keeps the log and the fates of the changes together. -/
theorem Inv.step {s next : Restart} {action : Action} (inv : s.Inv)
    (taken : s.step action = some next) : next.Inv := by
  cases step_spec taken with
  | change path kind fate unrecorded late =>
    refine ⟨inv.formed, inv.bounded, inv.roomy, ?_, ?_, ?_⟩
    · intro change member daemon version recorded
      rcases List.mem_append.mp member with old | new
      · exact inv.known change old daemon version recorded
      · rw [List.mem_singleton.mp new] at recorded
        exact absurd recorded (unrecorded daemon version)
    · intro change member daemon lost
      rcases List.mem_append.mp member with old | new
      · exact inv.gone change old daemon lost
      · rw [List.mem_singleton.mp new] at lost
        obtain ⟨current, stopped⟩ := late daemon lost
        exact ⟨Nat.le_of_eq current, fun running => by simp [stopped] at running⟩
    · intro recorded
      obtain ⟨change, member, isFirst⟩ := inv.first recorded
      exact ⟨change, List.mem_append_left _ member, isFirst⟩
  | deliver index change here flying =>
    obtain ⟨bound, found⟩ := List.getElem?_eq_some_iff.mp here
    refine inv.record change.path change.kind ?_ ?_ ?_
    · intro other member
      rcases List.mem_or_eq_of_mem_set member with old | rfl
      · exact .inl old
      · exact .inr rfl
    · -- Only the delivered change is replaced, and it was not recorded before.
      intro other member daemon version recorded
      obtain ⟨i, there⟩ := List.mem_iff_getElem?.mp member
      by_cases same : i = index
      · subst same
        rw [here, Option.some.injEq] at there
        rw [← there, flying] at recorded
        cases recorded
      · exact List.mem_iff_getElem?.mpr ⟨i, by rw [List.getElem?_set_ne (Ne.symm same), there]⟩
    · exact ⟨_, List.mem_set bound _, rfl⟩
  | write path =>
    refine inv.record path .modified ?_ ?_ ?_
    · intro other member
      rcases List.mem_append.mp member with old | new
      · exact .inl old
      · exact .inr (by rw [List.mem_singleton.mp new])
    · exact fun other member _ _ _ => List.mem_append_left _ member
    · exact ⟨_, List.mem_append_right _ (List.mem_singleton_self _), rfl⟩
  | issue token => exact ⟨inv.formed, inv.bounded, inv.roomy, inv.known, inv.gone, inv.first⟩
  | exit =>
    refine ⟨inv.formed, inv.bounded, inv.roomy, ?_, ?_, ?_⟩
    · intro change member daemon version recorded
      obtain ⟨before, old, rfl⟩ := List.mem_map.mp member
      exact inv.known before old daemon version (dropped_recorded.mp recorded)
    · intro change member daemon lost
      obtain ⟨before, old, rfl⟩ := List.mem_map.mp member
      refine ⟨?_, fun running => absurd running Bool.false_ne_true⟩
      rcases dropped_lost lost with current | earlier
      · exact Nat.le_of_eq current
      · exact (inv.gone before old daemon earlier).1
    · intro recorded
      obtain ⟨change, member, isFirst⟩ := inv.first recorded
      exact ⟨_, List.mem_map_of_mem member, dropped_recorded.mpr isFirst⟩
  | spawn capacity positive =>
    refine ⟨ChangeLog.withCapacity_wellFormed _, ChangeLog.withCapacity_bounded _, positive, ?_, ?_,
      fun recorded => absurd recorded (Nat.lt_irrefl 0)⟩
    · intro change member daemon version recorded
      -- The new daemon has not recorded anything yet.
      have older := (inv.known change member daemon version recorded).1
      refine ⟨Nat.le_succ_of_le older, ?_⟩
      intro same
      rw [same] at older
      exact absurd older (Nat.not_succ_le_self _)
    · intro change member daemon lost
      have older := (inv.gone change member daemon lost).1
      exact ⟨Nat.le_succ_of_le older, fun _ => Nat.lt_succ_of_le older⟩

/-- By the time the token was issued, the change was recorded or lost. -/
def Covers (token : Token) (change : Change) : Prop :=
  match change.fate with
  | .inFlight => False
  | .recorded daemon version =>
    daemon < token.daemon ∨ daemon = token.daemon ∧ version ≤ token.version
  | .lost daemon => daemon < token.daemon

/-- A token covers what its daemon has recorded or earlier ones have left when it is issued. -/
theorem Inv.covers_issued {s : Restart} (inv : s.Inv) (running : s.running = true)
    {change : Change} (member : change ∈ s.changes) :
    Covers { daemon := s.daemon, version := s.log.snapshot.1, issued := s.changes.length } change ↔
      change.fate ≠ .inFlight := by
  rw [Covers]
  -- Whatever is recorded or lost by now belongs to this daemon or an earlier one.
  cases fate : change.fate with
  | inFlight => simp
  | recorded daemon version =>
    obtain ⟨earlier, mine⟩ := inv.known change member daemon version fate
    simp only [ChangeLog.snapshot, ne_eq, reduceCtorEq, not_false_eq_true, iff_true]
    by_cases same : daemon = s.daemon
    · exact .inr ⟨same, (mine same).2⟩
    · exact .inl (by omega)
  | lost daemon =>
    have before := (inv.gone change member daemon fate).2 running
    simp [before]

/-- The running daemon holds the change for a client at this version. -/
def Told (s : Restart) (since : Nat) (change : Change) : Prop :=
  ∃ e ∈ s.log.window since, change.fate = .recorded s.daemon e.version

/-- Some change since the token was issued will not reach the client that comes back with it. -/
def Missed (s : Restart) (token : Token) : Prop :=
  ∃ change ∈ s.changes, change.fate ≠ .inFlight ∧ ¬ Covers token change ∧
    ¬ s.Told token.version change

/-- A change since the token was issued that was over before the running daemon started. -/
def Interim (s : Restart) (token : Token) (change : Change) : Prop :=
  ¬ Covers token change ∧
    match change.fate with
    | .inFlight => False
    | .recorded daemon _ => daemon < s.daemon
    | .lost _ => True

/-- The file has changed since the token was issued. -/
def Changed (s : Restart) (token : Token) (path : RelPath) : Prop :=
  ∃ change ∈ s.changes.drop token.issued, change.path = path

/-- Nothing that was over before the running daemon started is told by it. -/
theorem Interim.missed {s : Restart} {token : Token} {change : Change}
    (member : change ∈ s.changes) (interim : s.Interim token change) : s.Missed token := by
  -- What an earlier daemon recorded is not in the log of this one.
  obtain ⟨uncovered, before⟩ := interim
  refine ⟨change, member, ?_, uncovered, ?_⟩
  · intro flying
    simp [flying] at before
  · intro told
    obtain ⟨e, _, recorded⟩ := told
    simp [recorded] at before

/-- A client that has not overflowed is told of every later version of the running daemon. -/
theorem Inv.told {s : Restart} (inv : s.Inv) {since version : Nat} {change : Change}
    (recorded : change.fate = .recorded s.daemon version) (later : since < version)
    (known : version ≤ s.log.version) (kept : ¬ (s.log.fsChanges since).overflowed = true) :
    s.Told since change := by
  -- Without an overflow, every version beyond the known one still has its entry.
  have flag : (s.log.fsChanges since).overflowed = decide (since < s.log.overflowHighWater) := rfl
  rw [flag, decide_eq_true_eq] at kept
  obtain ⟨e, member, same⟩ := inv.formed.exists_entry (by omega) known
  refine ⟨e, ?_, by rw [recorded, same]⟩
  rw [ChangeLog.window, List.mem_filter]
  exact ⟨member, by rw [same]; exact decide_eq_true later⟩

/--
Without an overflow, a token of an earlier daemon misses something exactly when something came
in between, or when the running daemon has counted up from zero past a version that is not zero.
-/
theorem Inv.missed_iff {s : Restart} (inv : s.Inv) {token : Token} (old : token.daemon < s.daemon)
    (kept : ¬ (s.log.fsChanges token.version).overflowed = true) :
    s.Missed token ↔ (∃ change ∈ s.changes, s.Interim token change) ∨
      0 < token.version ∧ 0 < s.log.version := by
  constructor
  · intro missed
    obtain ⟨change, member, landed, uncovered, untold⟩ := missed
    cases fate : change.fate with
    | inFlight => exact absurd fate landed
    | lost daemon => exact .inl ⟨change, member, uncovered, by simp [fate]⟩
    | recorded daemon version =>
      obtain ⟨earlier, mine⟩ := inv.known change member daemon version fate
      by_cases same : daemon = s.daemon
      · -- The running daemon recorded it, under a version that the client seems to know.
        subst same
        have bounds := mine rfl
        have passed : ¬ token.version < version := fun later =>
          untold (inv.told fate later bounds.2 kept)
        exact .inr (by omega)
      · exact .inl ⟨change, member, uncovered, by simp only [fate]; omega⟩
  · rintro (⟨change, member, interim⟩ | ⟨issued, recorded⟩)
    · exact interim.missed member
    · -- The first version of the running daemon is not beyond the version of the token.
      obtain ⟨change, member, isFirst⟩ := inv.first recorded
      refine ⟨change, member, by rw [isFirst]; exact Fate.noConfusion, ?_, ?_⟩
      · simp only [Covers, isFirst]
        omega
      · intro told
        obtain ⟨e, shown, recordedAs⟩ := told
        rw [isFirst, Fate.recorded.injEq] at recordedAs
        rw [ChangeLog.window, List.mem_filter, decide_eq_true_eq] at shown
        omega

/--
In every state that any sequence of daemons can reach, and for every token of an earlier daemon:
`fs.changes` reports an overflow whenever the client has missed a change, if and only if it
reports one anyway or nothing came in between and one of the two daemons had counted nothing; and
a conditional write is refused whenever the file has changed, if and only if it has not changed,
the two counts differ or the modification time is not the expected one.
-/
theorem old_token_refused_iff {s : Restart} {actions : List Action}
    (ran : Transition.run Restart.step untouched actions = some s) {token : Token}
    (old : token.daemon < s.daemon) :
    ((s.Missed token → (s.log.fsChanges token.version).overflowed = true) ↔
      token.version + s.log.capacity < s.log.version ∨
        (∀ change ∈ s.changes, ¬ s.Interim token change) ∧
          (token.version = 0 ∨ s.log.version = 0)) ∧
    ∀ (project : Project) (path : RelPath) (expectedMtimeNs : Option Nat),
      project.log = s.log →
      ((s.Changed token path → ∃ error,
          project.checkWritePreconditions (some token.version) expectedMtimeNs = .error error) ↔
        ¬ s.Changed token path ∨ token.version ≠ s.log.version ∨
          ∃ mtimeNs, expectedMtimeNs = some mtimeNs ∧ project.metadata ≠ .ok mtimeNs) := by
  have inv : s.Inv := Transition.run_invariant Inv (fun _ _ _ inv taken => inv.step taken)
    untouched_inv ran
  refine ⟨?_, ?_⟩
  · have counted := inv.formed.overflowed_iff inv.bounded token.version
    by_cases kept : (s.log.fsChanges token.version).overflowed = true
    · exact ⟨fun _ => .inl (counted.mp kept), fun _ _ => kept⟩
    · have fits : ¬ token.version + s.log.capacity < s.log.version :=
        fun beyond => kept (counted.mpr beyond)
      -- Nothing tells the client, so it must not have missed anything.
      have missed := inv.missed_iff old kept
      simp only [kept, missed, fits, false_or, Bool.false_eq_true, imp_false]
      constructor
      · intro none_
        refine ⟨fun change member interim => none_ (.inl ⟨change, member, interim⟩), ?_⟩
        have counts : ¬ (0 < token.version ∧ 0 < s.log.version) := fun both => none_ (.inr both)
        omega
      · rintro ⟨quiet, zero⟩ (⟨change, member, interim⟩ | both)
        · exact quiet change member interim
        · omega
  · intro project path expectedMtimeNs same
    have refused : (∃ error, project.checkWritePreconditions (some token.version)
        expectedMtimeNs = .error error) ↔ token.version ≠ s.log.version ∨
          ∃ mtimeNs, expectedMtimeNs = some mtimeNs ∧ project.metadata ≠ .ok mtimeNs := by
      rw [← same, Project.checkWritePreconditions_error_iff]
    rw [refused]
    exact imp_iff_not_or

/-- A token of a daemon that had recorded nothing, and no change before the next daemon runs. -/
def quietRestart : List Action :=
  [.spawn 4096, .issue, .exit, .spawn 4096, .change ["b"] .modified, .deliver 0]

/-- After a quiet restart the token misses nothing, and a write with it is refused. -/
theorem old_token_refused_quiet_restart :
    ∃ s token, Transition.run Restart.step untouched quietRestart = some s ∧ token ∈ s.tokens ∧
      token.daemon < s.daemon ∧
      (s.Missed token → (s.log.fsChanges token.version).overflowed = true) ∧
      (s.Changed token ["b"] → ∃ error, Project.checkWritePreconditions
        { file := some { content := [], mtimeNs := 0 }, writable := true, log := s.log }
        (some token.version) none = .error error) := by
  have ran : Transition.run Restart.step untouched quietRestart = some
      { daemon := 2
        running := true
        log := (ChangeLog.withCapacity 4096).record ["b"] .modified
        changes := [{ path := ["b"], kind := .modified, fate := .recorded 2 1 }]
        tokens := [{ daemon := 1, version := 0, issued := 0 }] } := rfl
  refine ⟨_, { daemon := 1, version := 0, issued := 0 }, ran, by decide, by decide, ?_, ?_⟩
  · refine (old_token_refused_iff ran (by decide)).1.mpr (.inr ⟨?_, .inl rfl⟩)
    -- The only change was recorded by the second daemon.
    intro change member interim
    rw [List.mem_singleton.mp member] at interim
    exact absurd interim.2 (Nat.lt_irrefl 2)
  · exact ((old_token_refused_iff ran (by decide)).2 _ ["b"] none rfl).mpr
      (.inr (.inl (by decide)))

/-- A file changes after the daemon has gone, and the next daemon counts up to the same version. -/
def changeInGap : List Action :=
  [.spawn 4096, .change ["a"] .modified, .deliver 0, .issue, .exit, .change ["a"] .modified,
    .spawn 4096, .change ["b"] .modified, .deliver 2]

/--
The client holds version one of the first daemon, and the second daemon is at its own version
one. `fs.changes` returns nothing without an overflow, although two files have changed, and a
conditional write to the changed file passes its check.
-/
theorem old_token_silently_accepted :
    ∃ s token, Transition.run Restart.step untouched changeInGap = some s ∧ token ∈ s.tokens ∧
      token.daemon < s.daemon ∧ s.Missed token ∧
      s.log.fsChanges token.version = { version := 1, changes := [], overflowed := false } ∧
      s.Changed token ["a"] ∧
      Project.checkWritePreconditions
        { file := some { content := [], mtimeNs := 0 }, writable := true, log := s.log }
        (some token.version) none = .ok () := by
  refine ⟨_, { daemon := 1, version := 1, issued := 1 }, rfl, by decide, by decide, ?_, rfl, ?_,
    rfl⟩
  · -- The change in the gap was recorded by nobody.
    refine ⟨{ path := ["a"], kind := .modified, fate := .lost 1 }, by decide, by decide, ?_, ?_⟩
    · exact Nat.lt_irrefl 1
    · intro told
      obtain ⟨_, _, recorded⟩ := told
      cases recorded
  · exact ⟨{ path := ["a"], kind := .modified, fate := .lost 1 }, by decide, rfl⟩

end Restart

end McpCli
