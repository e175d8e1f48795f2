import McpCli.Daemon.SearchRace
import McpCli.Proofs.Daemon.ChangeLog
import McpCli.Proofs.Daemon.Search
import McpCli.Proofs.Daemon.SearchCache
import McpCli.Transition.Run

/-! A cached search answer is what a walk would find, for as long as its version is current. -/

namespace McpCli.SearchRace

open Transition SearchTools

variable {Content Matcher Overrides Walker : Type}
  {tools : SearchTools Content Matcher Overrides Walker}

/-- What is so of the tree if the log still has this version and lacks no change. -/
structure Current (s : SearchRace Content Matcher Walker) (version : Nat)
    (so : Disk Content → Prop) : Prop where
  past : version ≤ s.log.version
  now : s.log.version = version → s.unrecorded = 0 → so s.disk

/-- A step as far as the tree and the log go. -/
inductive Moves (tools : SearchTools Content Matcher Overrides Walker)
    (s next : SearchRace Content Matcher Walker) : Prop where
  /-- The log stands still, and the tree looks the same. -/
  | still (log : next.log = s.log) (unrecorded : next.unrecorded = s.unrecorded)
      (alike : tools.Alike s.root s.disk next.disk)
  /-- A change is waiting for its record. -/
  | changed (log : next.log = s.log) (unrecorded : next.unrecorded ≠ 0)
  | recorded (log : next.log.version = s.log.version + 1)

/-- Nothing becomes out of date under a version that is still current with no change missing. -/
theorem Moves.current {s next : SearchRace Content Matcher Walker} (moves : Moves tools s next)
    {version : Nat} {so : Disk Content → Prop}
    (transfer : tools.Alike s.root s.disk next.disk → so s.disk → so next.disk)
    (current : s.Current version so) : next.Current version so := by
  -- Either the tree looks the same, or the version is not current any more.
  cases moves with
  | still log unrecorded alike =>
    refine ⟨?_, ?_⟩
    · rw [log]
      exact current.past
    · intro same recorded
      rw [log] at same
      rw [unrecorded] at recorded
      exact transfer alike (current.now same recorded)
  | changed log unrecorded =>
    refine ⟨?_, ?_⟩
    · rw [log]
      exact current.past
    · intro _ recorded
      exact absurd recorded unrecorded
  | recorded log =>
    -- The version has gone past every earlier one, and does not come back.
    have past := current.past
    refine ⟨by omega, ?_⟩
    intro same _
    omega

/-- A result that a walk now would have if the version is current. -/
def Good (tools : SearchTools Content Matcher Overrides Walker)
    (s : SearchRace Content Matcher Walker) (version : Nat) (key : SearchKey)
    (raw : SearchGrepResult) : Prop :=
  s.Current version fun disk =>
    ∀ params : SearchGrepParams, params.key = key → tools.Produces disk s.root params raw

/-- What a search knows of the tree. -/
def Knows (tools : SearchTools Content Matcher Overrides Walker)
    (s : SearchRace Content Matcher Walker) : SearchPhase Matcher Walker → Prop
  | .resolved _ | .failed _ => True
  | .observed _ version | .missed _ version => version ≤ s.log.version
  | .walking params version walk =>
    s.Current version fun disk => tools.Reaches disk s.root params walk
  | .walked params version raw | .returned params version raw _ =>
    s.Good tools version params.key raw

/-- The entries of the cache are good, and the searches know what they know. -/
structure Inv (tools : SearchTools Content Matcher Overrides Walker)
    (s : SearchRace Content Matcher Walker) : Prop where
  cache : s.cache.AllHave (s.Good tools)
  searches : ∀ phase ∈ s.searches, s.Knows tools phase

/-- A good result stays good. -/
theorem Moves.good {s next : SearchRace Content Matcher Walker} (moves : Moves tools s next)
    (root : next.root = s.root) {version : Nat} {key : SearchKey} {raw : SearchGrepResult}
    (good : s.Good tools version key raw) : next.Good tools version key raw := by
  -- What a walk produces can be carried to a tree that looks the same.
  unfold Good
  rw [root]
  refine moves.current ?_ good
  intro alike produces params same
  exact (produces params same).alike alike

/-- What a search knows it keeps knowing. -/
theorem Moves.knows {s next : SearchRace Content Matcher Walker} (moves : Moves tools s next)
    (root : next.root = s.root) {phase : SearchPhase Matcher Walker}
    (knows : s.Knows tools phase) : next.Knows tools phase := by
  -- A version that was reached has been reached.
  have past : ∀ {version : Nat}, version ≤ s.log.version → version ≤ next.log.version := by
    intro version before
    have current : s.Current version fun _ => True := ⟨before, fun _ _ => trivial⟩
    exact (moves.current (fun _ _ => trivial) current).past
  cases phase with
  | resolved params => trivial
  | failed error => trivial
  | observed params version => exact past knows
  | missed params version => exact past knows
  | walking params version walk =>
    show next.Current version fun disk => tools.Reaches disk next.root params walk
    rw [root]
    exact moves.current (fun alike reaches => reaches.alike alike) knows
  | walked params version raw => exact moves.good root knows
  | returned params version raw cached => exact moves.good root knows

/-- A step that leaves the cache and the searches alone keeps the invariant. -/
theorem Inv.moves {s next : SearchRace Content Matcher Walker} (inv : s.Inv tools)
    (moves : Moves tools s next) (root : next.root = s.root) (cache : next.cache = s.cache)
    (searches : next.searches = s.searches) : next.Inv tools := by
  -- What is good or known stays so, as the files and the log move on.
  refine ⟨?_, ?_⟩
  · rw [cache]
    exact inv.cache.mono fun _ _ _ good => moves.good root good
  · rw [searches]
    intro phase member
    exact moves.knows root (inv.searches phase member)

/-- A step of a search leaves good entries in the cache and gives the search good knowledge. -/
theorem Inv.next {s : SearchRace Content Matcher Walker} (inv : s.Inv tools)
    {phase moved : SearchPhase Matcher Walker} {cache : SearchCache SearchKey SearchGrepResult}
    (knows : s.Knows tools phase) (taken : s.next tools phase = some (moved, cache)) :
    s.Knows tools moved ∧ cache.AllHave (s.Good tools) := by
  cases phase with
  | resolved params =>
    simp only [SearchRace.next, Option.some.injEq, Prod.mk.injEq] at taken
    obtain ⟨rfl, rfl⟩ := taken
    exact ⟨Nat.le_refl _, inv.cache⟩
  | observed params version =>
    obtain ⟨kept, found⟩ := inv.cache.get version params.key
    simp only [SearchRace.next] at taken
    split at taken
    · rename_i raw after answer
      simp only [Option.some.injEq, Prod.mk.injEq] at taken
      obtain ⟨rfl, rfl⟩ := taken
      rw [answer] at kept found
      -- What is served was entered under the version that has been asked for.
      exact ⟨found raw rfl, kept⟩
    · rename_i after answer
      simp only [Option.some.injEq, Prod.mk.injEq] at taken
      obtain ⟨rfl, rfl⟩ := taken
      rw [answer] at kept
      exact ⟨knows, kept⟩
  | missed params version =>
    simp only [SearchRace.next] at taken
    split at taken
    · cases taken
      exact ⟨trivial, inv.cache⟩
    · rename_i walk begun
      cases taken
      -- The walk starts behind the snapshot, so a change meanwhile has moved the version on.
      exact ⟨⟨knows, fun _ _ => Reaches.start begun⟩, inv.cache⟩
  | walking params version walk =>
    simp only [SearchRace.next] at taken
    split at taken
    · rename_i further went
      cases taken
      exact ⟨⟨knows.past, fun same recorded => (knows.now same recorded).more went⟩, inv.cache⟩
    · rename_i raw ended
      cases taken
      refine ⟨⟨knows.past, ?_⟩, inv.cache⟩
      intro same recorded other key
      exact ((knows.now same recorded).done ended).congr key.symm
  | walked params version raw =>
    simp only [SearchRace.next, Option.some.injEq, Prod.mk.injEq] at taken
    obtain ⟨rfl, rfl⟩ := taken
    -- What the search knows of its result is what the cache needs of its entries.
    exact ⟨knows, inv.cache.insert knows⟩
  | returned params version raw cached => cases taken
  | failed error => cases taken

/-- Changes that are not to be recorded are such as no walk can see. -/
def Counted (tools : SearchTools Content Matcher Overrides Walker)
    (s : SearchRace Content Matcher Walker) : Action Content → Prop
  | .other disk => tools.Alike s.root s.disk disk
  | _ => True

/-- A tree looks the same as it is. -/
theorem alike_refl (root : AbsPath) (disk : Disk Content) : tools.Alike root disk disk :=
  ⟨fun _ => rfl, fun _ _ _ _ => rfl⟩

/-- Every step keeps the invariant. -/
theorem Inv.step {s next : SearchRace Content Matcher Walker} {action : Action Content}
    (inv : s.Inv tools) (counted : s.Counted tools action)
    (taken : s.step tools action = some next) : next.Inv tools := by
  cases action with
  | arrive params canonicalize =>
    simp only [SearchRace.step, Option.some.injEq] at taken
    subst taken
    have moves : Moves tools s
        { s with searches := s.searches ++ [arrival params canonicalize] } :=
      Moves.still rfl rfl (alike_refl s.root s.disk)
    refine ⟨inv.cache.mono fun _ _ _ good => moves.good rfl good, ?_⟩
    intro phase member
    rcases List.mem_append.mp member with old | fresh
    · exact moves.knows rfl (inv.searches phase old)
    · -- A request that has just arrived knows nothing.
      rw [List.mem_singleton.mp fresh]
      unfold arrival
      split <;> trivial
  | advance search =>
    simp only [SearchRace.step] at taken
    cases found : s.searches[search]? with
    | none => simp [found] at taken
    | some phase =>
      simp only [found, Option.map_eq_some_iff] at taken
      obtain ⟨⟨moved, cache⟩, went, same⟩ := taken
      subst same
      obtain ⟨knows, kept⟩ := inv.next (inv.searches phase (List.mem_of_getElem? found)) went
      have moves : Moves tools s { s with searches := s.searches.set search moved, cache } :=
        Moves.still rfl rfl (alike_refl s.root s.disk)
      refine ⟨kept.mono fun _ _ _ good => moves.good rfl good, ?_⟩
      intro other member
      rcases List.mem_or_eq_of_mem_set member with old | new
      · exact moves.knows rfl (inv.searches other old)
      · rw [new]
        exact moves.knows rfl knows
  | change disk =>
    simp only [SearchRace.step, Option.some.injEq] at taken
    subst taken
    -- Until the change is recorded, no version says anything of the tree.
    exact inv.moves (Moves.changed rfl (Nat.succ_ne_zero _)) rfl rfl rfl
  | other disk =>
    simp only [SearchRace.step, Option.some.injEq] at taken
    subst taken
    -- By assumption nothing has changed that a walk could see.
    exact inv.moves (Moves.still rfl rfl counted) rfl rfl rfl
  | record path kind covered =>
    simp only [SearchRace.step, Option.ite_none_left_eq_some, Option.some.injEq] at taken
    obtain ⟨_, same⟩ := taken
    subst same
    exact inv.moves (Moves.recorded (ChangeLog.record_version s.log path kind)) rfl rfl rfl

/--
Every response that was served from the cache is what a walk for the same request would produce
now, if the log still has the version of the request and lacks no change.
-/
def ServesFresh (tools : SearchTools Content Matcher Overrides Walker)
    (s : SearchRace Content Matcher Walker) : Prop :=
  ∀ (params : SearchGrepParams) (version : Nat) (raw : SearchGrepResult),
    .returned params version raw true ∈ s.searches → s.log.version = version →
    s.unrecorded = 0 →
    tools.Produces s.disk s.root params raw ∧
      ∀ other, tools.Produces s.disk s.root params other → other = raw

/-- The invariant says of a response what is to be shown. -/
theorem Inv.servesFresh {s : SearchRace Content Matcher Walker} (inv : s.Inv tools) :
    s.ServesFresh tools := by
  intro params version raw served same recorded
  have good : s.Good tools version params.key raw := inv.searches _ served
  have produces := good.now same recorded params rfl
  -- A walk over the tree as it is now has no other result.
  exact ⟨produces, fun other too => too.unique produces⟩

/-- A daemon that has answered no search yet. -/
structure Ready (s : SearchRace Content Matcher Walker) : Prop where
  cache : s.cache.entries = []
  searches : s.searches = []

/--
In every state of a run on which every change that a walk can see is counted until it is recorded,
the responses from the cache are those of a fresh walk.
-/
theorem cached_as_fresh {start : SearchRace Content Matcher Walker} (ready : start.Ready)
    {actions : List (Action Content)}
    (counted : Along (SearchRace.step tools) (Counted tools) start actions) :
    Visits (SearchRace.step tools) (ServesFresh tools) start actions := by
  -- At the start there is nothing in the cache and no search under way.
  have first : start.Inv tools := by
    refine ⟨?_, ?_⟩
    · intro entry member
      rw [ready.cache] at member
      cases member
    · intro phase member
      rw [ready.searches] at member
      cases member
  exact (visits_of_invariant (Inv tools) (fun _ _ _ inv met taken => inv.step met taken) first
    counted).mono fun _ inv => inv.servesFresh

/-- Every walk yields the file `a`, and every line of a file matches. -/
def oneFileTools : SearchTools (List Char) Unit Unit (List DirEntry) where
  compile _ _ := .ok ()
  addGlob _ _ := .ok ()
  walk _ _ := [{ path := ["a"], isFile := true }]
  next _ walker :=
    match walker with
    | [] => none
    | entry :: rest => some (some entry, rest)
  report _ _ content := [.matched (some 1) content]

/-- A project of one file, and no search yet. -/
def oneFile : SearchRace (List Char) Unit (List DirEntry) where
  root := ["p"]
  disk := fun path => if path = ["p", "a"] then some ['x'] else none
  unrecorded := 0
  log := ChangeLog.withCapacity 64
  cache := SearchCache.new 8
  searches := []

/-- A request for everything. -/
def everything : SearchGrepParams where
  pattern := "."
  path := none
  glob := none
  maxResults := none
  caseInsensitive := false
  context := 0

/-- A search walks while the file changes, and another one walks after the record of that. -/
def thirdSearchServed : List (Action (List Char)) :=
  [.arrive everything (.ok ()), .advance 0, .advance 0, .advance 0, .advance 0,
    .change fun path => if path = ["p", "a"] then some ['y'] else none,
    .record ["a"] .modified 1, .arrive everything (.ok ()), .advance 1, .advance 1, .advance 1,
    .advance 1, .advance 1, .advance 1, .arrive everything (.ok ()), .advance 2, .advance 2]

/-- The third of the same searches is served from the cache with what the file holds now. -/
theorem cached_as_fresh_third_search :
    ∃ s hit, run (SearchRace.step oneFileTools) oneFile thirdSearchServed = some s ∧
      s.searches[2]? = some (.returned everything 1 { hits := [hit], truncated := false } true) ∧
      hit.line = ['y'] ∧ s.ServesFresh oneFileTools := by
  -- The run is evaluated, and every write in it has been counted.
  obtain ⟨s, ran⟩ : ∃ s, run (SearchRace.step oneFileTools) oneFile thirdSearchServed = some s :=
    ⟨_, rfl⟩
  have counted : Along (SearchRace.step oneFileTools) (Counted oneFileTools) oneFile
      thirdSearchServed :=
    ⟨trivial, trivial, trivial, trivial, trivial, trivial, trivial, trivial, trivial, trivial,
      trivial, trivial, trivial, trivial, trivial, trivial, trivial, trivial⟩
  have fresh := Visits.last (cached_as_fresh ⟨rfl, rfl⟩ counted) ran
  have found : (run (SearchRace.step oneFileTools) oneFile thirdSearchServed).bind
      (fun s => s.searches[2]?) = some (.returned everything 1
        { hits := [{ path := ["a"], lineNumber := 1, line := ['y'], context := [] }]
          truncated := false } true) := rfl
  rw [ran] at found
  exact ⟨s, _, ran, found, rfl, fresh⟩

end McpCli.SearchRace
