import McpCli.Daemon.WatchRun
import McpCli.Proofs.Daemon.Watcher

/-! When the cached rules answer as those on disk, once all events have been delivered. -/

namespace McpCli

variable {Content Parsed : Type} {gitignore : Gitignore Content} {disk : Disk Content}

namespace Filter

variable {filter : Filter Content} {excused : AbsPath → Prop}

/-- Each cached verdict matches what is on disk now, except where a path is excused. -/
def CoherentBut (filter : Filter Content) (disk : Disk Content) (excused : AbsPath → Prop) : Prop :=
  ∀ dir value, filter.cache dir = some value →
    value = disk (gitignorePath dir) ∨ excused (gitignorePath dir)

/-- The path of the rules tells the directory. -/
theorem gitignorePath_inj {dir other : AbsPath} (same : gitignorePath dir = gitignorePath other) :
    dir = other :=
  List.append_cancel_right same

/-- A directory that has been forgotten needs no excuse. -/
theorem CoherentBut.invalidate (coherent : filter.CoherentBut disk excused) (dir : AbsPath) :
    (filter.invalidate dir).CoherentBut disk fun path =>
      excused path ∧ path ≠ gitignorePath dir := by
  intro other value cached
  simp only [Filter.invalidate] at cached
  -- Of the directory itself nothing is cached any more.
  by_cases same : other = dir
  · subst same
    simp at cached
  · rw [Function.update_of_ne same] at cached
    refine (coherent other value cached).imp_right fun old => ⟨old, ?_⟩
    exact fun path => same (gitignorePath_inj path)

/-- A lookup leaves what was cached, and what is on disk. -/
theorem CoherentBut.gitignoreFor (coherent : filter.CoherentBut disk excused) (dir : AbsPath) :
    (filter.gitignoreFor disk dir).2.CoherentBut disk excused := by
  unfold Filter.gitignoreFor
  cases cached : filter.cache dir with
  | some hit => exact coherent
  | none =>
    intro other value found
    -- What has just been read is what is on disk.
    by_cases same : other = dir
    · subst same
      simp only [Function.update_self, Option.some.injEq] at found
      exact .inl found.symm
    · simp only [Function.update_of_ne same] at found
      exact coherent other value found

/-- A walk through the directories leaves what was cached, and what is on disk. -/
theorem CoherentBut.keepFrom (gitignore : Gitignore Content)
    (coherent : filter.CoherentBut disk excused) (rel : RelPath) (dirs : List AbsPath) :
    (keepFrom gitignore disk rel dirs filter).2.CoherentBut disk excused := by
  -- Each lookup leaves a filter for the directories still to ask.
  induction dirs generalizing filter with
  | nil => exact coherent
  | cons dir rest ih =>
    have after := coherent.gitignoreFor dir
    simp only [Filter.keepFrom]
    split
    · split
      · exact after
      · exact after
      · exact ih after
    · exact ih after

/-- A question leaves what was cached, and what is on disk. -/
theorem CoherentBut.keep (gitignore : Gitignore Content)
    (coherent : filter.CoherentBut disk excused) (path : AbsPath) :
    (filter.keep gitignore disk path).2.CoherentBut disk excused := by
  unfold Filter.keep
  split
  · exact coherent
  · split
    · exact coherent
    · -- Only here are directories asked for their rules.
      exact coherent.keepFrom gitignore _ _

end Filter

namespace Watcher

variable {watcher : Watcher Content Parsed} {excused : AbsPath → Prop}

/-- A path that has been handled needs no excuse any more. -/
theorem handlePath_coherentBut (gitignore : Gitignore Content)
    (coherent : watcher.filter.CoherentBut disk excused) (path : AbsPath) (kind : ChangeKind) :
    (watcher.handlePath gitignore disk path kind).filter.CoherentBut disk fun other =>
      excused other ∧ other ≠ path := by
  -- The rules are forgotten first, and only then is the filter asked about the path.
  let start := if path.getLast? = some ".gitignore" then
    watcher.filter.invalidate path.dropLast else watcher.filter
  have less : start.CoherentBut disk fun other => excused other ∧ other ≠ path := by
    simp only [start]
    split
    · rename_i ends
      have same : Filter.gitignorePath path.dropLast = path :=
        List.dropLast_append_getLast? ".gitignore" ends
      have forgotten := coherent.invalidate path.dropLast
      rw [same] at forgotten
      exact forgotten
    · -- A path that is not that of any rules excuses none.
      rename_i other
      intro dir value cached
      refine (coherent dir value cached).imp_right fun old => ⟨old, ?_⟩
      rintro rfl
      exact other List.getLast?_concat
  have after := less.keep gitignore path
  simp only [start] at after
  simp only [handlePath]
  split
  · split
    · exact after
    · exact after
  · exact after

/-- An event whose paths have been handled excuses none of them any more. -/
theorem handleEvent_coherentBut (gitignore : Gitignore Content)
    (coherent : watcher.filter.CoherentBut disk excused) (event : Event) :
    (watcher.handleEvent gitignore disk event).filter.CoherentBut disk fun path =>
      excused path ∧ path ∉ event.handled := by
  -- The loop handles one path after another.
  unfold handleEvent Event.handled
  induction event.kinds generalizing watcher excused with
  | nil =>
    intro dir value cached
    exact (coherent dir value cached).imp_right fun old => ⟨old, List.not_mem_nil⟩
  | cons change rest ih =>
    rw [List.foldl_cons, List.filterMap_cons]
    cases named : event.paths[change.1]? with
    | none => exact ih coherent
    | some path =>
      have later := ih (handlePath_coherentBut gitignore coherent path change.2)
      intro dir value cached
      refine (later dir value cached).imp_right fun both => ⟨both.1.1, ?_⟩
      rw [List.mem_cons, not_or]
      exact ⟨both.1.2, both.2⟩

end Watcher

namespace WatchRun

variable {s next : WatchRun Content Parsed} {action : Action Content}

/-- An event that names a path has not been delivered yet. -/
def Awaits (s : WatchRun Content Parsed) (path : AbsPath) : Prop :=
  ∃ event ∈ s.pending, path ∈ event.handled

/-- Once all events have been delivered, every path is kept as if nothing were cached. -/
def AnswersFresh (gitignore : Gitignore Content) (s : WatchRun Content Parsed) : Prop :=
  s.pending = [] → ∀ path, (s.watcher.filter.keep gitignore s.disk path).1 =
    ((Filter.new s.watcher.filter.root).keep gitignore s.disk path).1

/-- Where an operation changes rules that are cached, their path is named by it, or by an event. -/
def NamesRules (s : WatchRun Content Parsed) : Action Content → Prop
  | .operate op _ =>
    ∀ dir value, s.watcher.filter.cache dir = some value →
      op.apply s.disk (Filter.gitignorePath dir) ≠ s.disk (Filter.gitignorePath dir) →
      Filter.gitignorePath dir ∈ op.paths ∨ s.Awaits (Filter.gitignorePath dir)
  | _ => True

/-- Every step leaves the cache coherent but for the rules that are named by an event. -/
theorem coherent_step (coherent : s.watcher.filter.CoherentBut s.disk s.Awaits)
    (names : s.NamesRules action) (taken : s.step gitignore action = some next) :
    next.watcher.filter.CoherentBut next.disk next.Awaits := by
  cases action with
  | operate op events =>
    simp only [step] at taken
    split at taken
    · rename_i allowed
      cases taken
      have awaits {path : AbsPath} (old : s.Awaits path) :
          ∃ event ∈ s.pending ++ events, path ∈ event.handled := by
        obtain ⟨event, member, named⟩ := old
        exact ⟨event, List.mem_append_left _ member, named⟩
      intro dir value cached
      rcases coherent dir value cached with same | old
      · by_cases changed : op.apply s.disk (Filter.gitignorePath dir) =
            s.disk (Filter.gitignorePath dir)
        · exact .inl (same.trans changed.symm)
        · refine .inr ?_
          rcases names dir value cached changed with named | old
          · obtain ⟨event, member, handled⟩ := allowed.2.1 _ named
            exact ⟨event, List.mem_append_right _ member, handled⟩
          · exact awaits old
      · exact .inr (awaits old)
    · cases taken
  | deliver =>
    simp only [step] at taken
    split at taken
    · cases taken
    · rename_i event rest pending
      cases taken
      have after := Watcher.handleEvent_coherentBut gitignore coherent event
      intro dir value cached
      refine (after dir value cached).imp_right fun both => ?_
      -- The event that named the rules is another one than this.
      obtain ⟨⟨other, member, named⟩, unnamed⟩ := both
      rw [pending] at member
      rcases List.mem_cons.mp member with rfl | later
      · exact absurd named unnamed
      · exact ⟨other, later, named⟩
  | query path =>
    cases taken
    exact coherent.keep gitignore path

/-- A cache that is coherent but for pending events answers as an empty one without any. -/
theorem answersFresh_of_coherent (coherent : s.watcher.filter.CoherentBut s.disk s.Awaits) :
    s.AnswersFresh gitignore := by
  intro delivered path
  -- With nothing pending, nothing is excused.
  have whole : s.watcher.filter.Coherent s.disk := by
    intro dir value cached
    rcases coherent dir value cached with same | ⟨event, member, _⟩
    · exact same
    · rw [delivered] at member
      cases member
  have empty := Filter.new_coherent s.watcher.filter.root s.disk
  rw [(whole.keep gitignore path).1, (empty.keep gitignore path).1]
  rfl

/-- A watcher that has been asked nothing, and of which nothing is pending. -/
structure Ready (s : WatchRun Content Parsed) : Prop where
  filter : s.watcher.filter = Filter.new s.watcher.filter.root
  pending : s.pending = []

/--
In every state of a run in which each operation names the cached rules that it changes, the filter
answers as an empty one once all events have been delivered.
-/
theorem answers_fresh {start : WatchRun Content Parsed} (ready : start.Ready)
    {actions : List (Action Content)}
    (names : Transition.Along (step gitignore) NamesRules start actions) :
    Transition.Visits (step gitignore) (AnswersFresh gitignore) start actions := by
  -- An empty cache is coherent with any disk.
  have first : start.watcher.filter.CoherentBut start.disk start.Awaits := by
    intro dir value cached
    rw [ready.filter] at cached
    cases cached
  exact (Transition.visits_of_invariant
    (fun s : WatchRun Content Parsed => s.watcher.filter.CoherentBut s.disk s.Awaits)
    (fun _ _ _ coherent met taken => coherent_step coherent met taken) first names).mono
    fun _ coherent => answersFresh_of_coherent coherent

/-- Operations that move no directory name all rules that they change. -/
theorem namesRules_of_not_rename {op : FsOp Content} {events : List Event}
    (still : ∀ source target, op ≠ .rename source target) :
    s.NamesRules (.operate op events) := by
  intro dir value _ changed
  -- Other paths than that of the operation are as they were.
  cases op with
  | write path content =>
    refine .inl ?_
    by_contra away
    refine changed (Function.update_of_ne ?_ _ _)
    exact fun same => away (List.mem_singleton.mpr same)
  | remove path =>
    refine .inl ?_
    by_contra away
    refine changed (Function.update_of_ne ?_ _ _)
    exact fun same => away (List.mem_singleton.mpr same)
  | directory path => exact absurd rfl changed
  | rename source target => exact absurd rfl (still source target)

/-- Nor is there anything else to be named if what is moved is a file. -/
theorem namesRules_of_rename_file {source target : AbsPath} {events : List Event}
    (file : ∀ rest, rest ≠ [] → s.disk (source ++ rest) = none ∧ s.disk (target ++ rest) = none) :
    s.NamesRules (.operate (.rename source target) events) := by
  intro dir value _ changed
  refine .inl ?_
  by_contra away
  simp only [FsOp.paths, List.mem_cons, List.not_mem_nil, or_false, not_or] at away
  apply changed
  simp only [FsOp.apply]
  split
  · -- Below the new path there is nothing, and there was nothing.
    rename_i rest below
    rw [stripPrefix_eq_some] at below
    have beyond : rest ≠ [] := by
      rintro rfl
      exact away.2 (below.trans (List.append_nil target))
    rw [below, (file rest beyond).1, (file rest beyond).2]
  · split
    · -- Below the old path there is nothing any more, and there was nothing.
      rename_i below
      obtain ⟨rest, same⟩ := below
      have beyond : rest ≠ [] := by
        rintro rfl
        exact away.1 (same.symm.trans (List.append_nil source))
      rw [← same, (file rest beyond).1]
    · rfl

/-- Rules that ignore everything, or nothing. -/
def allOrNothing : Gitignore Bool where
  matchedPathOrAnyParents rules _ := if rules then .ignore else .none

/-- A directory `d` that ignores everything, and a directory `e` that ignores nothing. -/
def twoDirectories : WatchRun Bool Unit where
  disk := fun path =>
    if path = ["r", "d", ".gitignore"] then some true
    else if path = ["r", "e", ".gitignore"] ∨ path = ["r", "e", "f"] then some false
    else none
  watcher :=
    { filter := Filter.new ["r"]
      log := ChangeLog.withCapacity 64
      parseCache := { capacity := 0, entries := [] } }
  pending := []

/-- The events of a rename. -/
def renameEvents (source target : AbsPath) : List Event :=
  [{ kind := .modify (.name .from_), paths := [source] },
    { kind := .modify (.name .to), paths := [target] },
    { kind := .modify (.name .both), paths := [source, target] }]

/-- The directory `d` is asked for and makes way for `e`, and all events are delivered. -/
def takesPlace : List (Action Bool) :=
  [.query ["r", "d", "f"],
    .operate (.rename ["r", "d"] ["r", "old"]) (renameEvents ["r", "d"] ["r", "old"]),
    .operate (.rename ["r", "e"] ["r", "d"]) (renameEvents ["r", "e"] ["r", "d"]),
    .deliver, .deliver, .deliver, .deliver, .deliver, .deliver]

/-- The file in the directory that has come is ignored by the rules of the one that has gone. -/
theorem not_answers_fresh_renamed :
    ¬ Transition.Visits (step allOrNothing) (AnswersFresh allOrNothing) twoDirectories takesPlace := by
  intro visits
  obtain ⟨s, ran, pending, cached, fresh⟩ :
      ∃ s, Transition.run (step allOrNothing) twoDirectories takesPlace = some s ∧
        s.pending = [] ∧ (s.watcher.filter.keep allOrNothing s.disk ["r", "d", "f"]).1 = false ∧
        ((Filter.new s.watcher.filter.root).keep allOrNothing s.disk ["r", "d", "f"]).1 = true :=
    ⟨_, rfl, rfl, rfl, rfl⟩
  -- All events have been delivered, so both answers would have to be the same.
  have same := visits.last ran pending ["r", "d", "f"]
  rw [cached, fresh] at same
  cases same

/-- The rules of `d` are edited after they have been asked for, and the event is delivered. -/
def edited : List (Action Bool) :=
  [.query ["r", "d", "f"],
    .operate (.write ["r", "d", ".gitignore"] false)
      [{ kind := .modify .data, paths := [["r", "d", ".gitignore"]] }],
    .deliver, .query ["r", "d", "f"]]

/-- The edited rules are those that answer. -/
theorem answers_fresh_edited :
    Transition.Visits (step allOrNothing) (AnswersFresh allOrNothing) twoDirectories edited ∧
      ∃ s, Transition.run (step allOrNothing) twoDirectories edited = some s ∧
        (s.watcher.filter.keep allOrNothing s.disk ["r", "d", "f"]).1 = true :=
  ⟨answers_fresh ⟨rfl, rfl⟩
    ⟨trivial, namesRules_of_not_rename nofun, trivial, trivial, trivial⟩, _, rfl, rfl⟩

end WatchRun

end McpCli
