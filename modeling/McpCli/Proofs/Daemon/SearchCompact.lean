import McpCli.Daemon.SearchCompact
import McpCli.Proofs.Daemon.SearchRace
import McpCli.Transition.Population

/-! What a roll-up says of the hits, and that it is one of hits that a walk has found. -/

namespace McpCli

open Listing

/-- The rows of a roll-up are those of the files with hits, each with what there is of it. -/
structure GrepLaws (hits : List SearchHit) (compact : SearchGrepCompact) : Prop where
  sorted : compact.buckets.Pairwise fun one other => one.path < other.path
  files : ∀ path, (∃ bucket ∈ compact.buckets, bucket.path = path) ↔
    ∃ hit ∈ hits, hit.pathText = path
  rows : ∀ bucket ∈ compact.buckets,
    let lines := (hits.filter fun hit => hit.pathText = bucket.path).map SearchHit.lineNumber
    bucket.matchCount = lines.length ∧ IsLeast { line | line ∈ lines } bucket.firstLine ∧
      IsGreatest { line | line ∈ lines } bucket.lastLine
  total : compact.totalMatches = hits.length

/-- The group of a file has the lines of its hits. -/
theorem extent_of_group {hits : List SearchHit} {path : List Char} {extent : Nat × Nat × Nat}
    (there : (path, extent) ∈
      group SearchHit.pathText (fun old hit => widen old hit.lineNumber) hits) :
    Extent ((hits.filter fun hit => hit.pathText = path).map SearchHit.lineNumber) extent := by
  rw [← valueAt_eq_some (group_sorted hits), valueAt_group] at there
  -- To fold over the hits is to fold over their lines.
  have lines (own : List SearchHit) (old : Option (Nat × Nat × Nat)) :
      own.foldl (fun old hit => some (widen old hit.lineNumber)) old =
        (own.map SearchHit.lineNumber).foldl (fun old line => some (widen old line)) old := by
    rw [List.foldl_map]
  rw [lines] at there
  -- The hits are told apart by the same question, however it is decided.
  have own : (hits.filter fun hit => hit.pathText = path) =
      hits.filter fun hit => @decide _ (LinearOrder.toDecidableEq hit.pathText path) :=
    List.filter_congr fun hit _ => decide_eq_decide.mpr Iff.rfl
  rw [own]
  exact (foldl_widen there).2

/-- The roll-up of any hits is as it should be. -/
theorem searchGrepCompact_laws (hits : List SearchHit) :
    GrepLaws hits (searchGrepCompact hits) := by
  -- The groups come in the order of their paths, one for each path that has hits.
  have sorted : KeySorted (group SearchHit.pathText (fun old hit => widen old hit.lineNumber)
    hits) := group_sorted hits
  refine ⟨?_, ?_, ?_, ?_⟩
  · exact List.pairwise_map.mpr sorted
  · intro path
    have grouped : (∃ extent, (path, extent) ∈
        group SearchHit.pathText (fun old hit => widen old hit.lineNumber) hits) ↔ _ :=
      mem_group_key
    rw [← grouped]
    constructor
    · rintro ⟨bucket, member, rfl⟩
      obtain ⟨⟨path, extent⟩, there, rfl⟩ := List.mem_map.mp member
      exact ⟨extent, there⟩
    · rintro ⟨extent, there⟩
      exact ⟨_, List.mem_map_of_mem there, rfl⟩
  · intro bucket member
    obtain ⟨⟨path, extent⟩, there, rfl⟩ := List.mem_map.mp member
    have ends := extent_of_group there
    exact ⟨ends.count, ends.least, ends.greatest⟩
  · have counted : ((group SearchHit.pathText (fun old hit => widen old hit.lineNumber) hits).map
        fun entry => entry.2.1).sum = hits.length :=
      @sum_group SearchHit _ _ _ SearchHit.pathText _ Prod.fst (fun _ => rfl) (fun _ _ => rfl) hits
    rw [searchGrepCompact, List.map_map]
    exact counted

namespace SearchRace

open Transition Transition.Population

variable {Content Matcher Overrides Walker : Type}
  {tools : SearchTools Content Matcher Overrides Walker}

/-- A search with this key has found the result by a walk of its own under this version. -/
def Walked (s : SearchRace Content Matcher Walker) (version : Nat) (key : SearchKey)
    (raw : SearchGrepResult) : Prop :=
  ∃ params : SearchGrepParams, .returned params version raw false ∈ s.searches ∧ params.key = key

/-- Whatever is in the cache or was served from it has been found by a walk. -/
structure Sourced (s : SearchRace Content Matcher Walker) : Prop where
  cache : s.cache.AllHave s.Walked
  served : ∀ params version raw,
    SearchPhase.returned params version raw true ∈ s.searches → s.Walked version params.key raw

/-- What was found by a walk stays found as long as no search that has returned is forgotten. -/
theorem Walked.mono {s next : SearchRace Content Matcher Walker} {version : Nat} {key : SearchKey}
    {raw : SearchGrepResult} (walked : s.Walked version key raw)
    (kept : ∀ params version raw cached,
      SearchPhase.returned params version raw cached ∈ s.searches →
        SearchPhase.returned params version raw cached ∈ next.searches) :
    next.Walked version key raw := by
  obtain ⟨params, member, same⟩ := walked
  exact ⟨params, kept params version raw false member, same⟩

/-- Answers are still sourced if only new searches and changes of the tree are added. -/
theorem Sourced.alike {s next : SearchRace Content Matcher Walker} (sourced : s.Sourced)
    (cache : next.cache = s.cache) (returned : ∀ params version raw cached,
      SearchPhase.returned params version raw cached ∈ next.searches ↔
        SearchPhase.returned params version raw cached ∈ s.searches) : next.Sourced := by
  -- A walk that is among the searches stays among them.
  have kept {version : Nat} {key : SearchKey} {raw : SearchGrepResult}
      (walked : s.Walked version key raw) : next.Walked version key raw :=
    walked.mono fun _ _ _ _ member => (returned _ _ _ _).mpr member
  refine ⟨?_, fun params version raw member => ?_⟩
  · rw [cache]
    exact sourced.cache.mono fun _ _ _ => kept
  · exact kept (sourced.served params version raw ((returned _ _ _ _).mp member))

/-- A search that takes its next step is answered with what a walk has found. -/
theorem Sourced.next {s : SearchRace Content Matcher Walker} (sourced : s.Sourced) {search : Nat}
    {phase moved : SearchPhase Matcher Walker} {cache : SearchCache SearchKey SearchGrepResult}
    (found : s.searches[search]? = some phase) (went : s.next tools phase = some (moved, cache)) :
    ({ s with searches := s.searches.set search moved, cache } :
      SearchRace Content Matcher Walker).Sourced := by
  have kept : ∀ params version raw cached,
      SearchPhase.returned params version raw cached ∈ s.searches →
        SearchPhase.returned params version raw cached ∈ s.searches.set search moved := by
    intro params version raw cached member
    -- A search that has returned takes no step.
    refine moved_mem found member ?_ moved
    rintro rfl
    cases went
  have walked {version : Nat} {key : SearchKey} {raw : SearchGrepResult}
      (walked : s.Walked version key raw) :
      ({ s with searches := s.searches.set search moved, cache } :
        SearchRace Content Matcher Walker).Walked version key raw := walked.mono kept
  have new : (cache.AllHave fun version key raw =>
        ({ s with searches := s.searches.set search moved, cache } :
          SearchRace Content Matcher Walker).Walked version key raw) ∧
      ∀ params version raw, moved = .returned params version raw true →
        s.Walked version params.key raw := by
    have old := sourced.cache.mono fun _ _ _ => walked
    cases phase with
    | resolved params =>
      cases went
      exact ⟨old, fun _ _ _ same => by cases same⟩
    | observed params version =>
      obtain ⟨left, answer⟩ := sourced.cache.get version params.key
      simp only [SearchRace.next] at went
      split at went
      · rename_i raw after got
        cases went
        rw [got] at left answer
        -- What is served was entered by a search that had walked.
        refine ⟨left.mono fun _ _ _ => walked, fun _ _ _ same => ?_⟩
        cases same
        exact answer raw rfl
      · rename_i after got
        cases went
        rw [got] at left
        exact ⟨left.mono fun _ _ _ => walked, fun _ _ _ same => by cases same⟩
    | missed params version =>
      simp only [SearchRace.next] at went
      split at went
      · cases went
        exact ⟨old, fun _ _ _ same => by cases same⟩
      · cases went
        exact ⟨old, fun _ _ _ same => by cases same⟩
    | walking params version walk =>
      simp only [SearchRace.next] at went
      split at went
      · cases went
        exact ⟨old, fun _ _ _ same => by cases same⟩
      · cases went
        exact ⟨old, fun _ _ _ same => by cases same⟩
    | walked params version raw =>
      cases went
      refine ⟨old.insert ⟨params, ?_, rfl⟩, fun _ _ _ same => by cases same⟩
      -- The search that enters the result is the one that has walked.
      exact List.mem_of_getElem? (moved_self found)
    | returned params version raw cached => cases went
    | failed error => cases went
  refine ⟨new.1, fun params version raw member => ?_⟩
  rcases List.mem_or_eq_of_mem_set member with earlier | same
  · exact walked (sourced.served params version raw earlier)
  · exact walked (new.2 params version raw same.symm)

/-- A step leaves all answers sourced. -/
theorem Sourced.step {s next : SearchRace Content Matcher Walker} {action : Action Content}
    (sourced : s.Sourced) (taken : s.step tools action = some next) : next.Sourced := by
  cases action with
  | arrive params canonicalize =>
    cases taken
    refine sourced.alike rfl fun other version raw cached => ?_
    -- A search is not answered as it arrives.
    have unanswered : SearchPhase.returned other version raw cached ≠
        (arrival params canonicalize : SearchPhase Matcher Walker) := by
      unfold arrival
      split
      · intro same
        cases same
      · intro same
        cases same
    rw [List.mem_append, List.mem_singleton, or_iff_left unanswered]
  | advance search =>
    simp only [SearchRace.step] at taken
    split at taken
    · cases taken
    · rename_i phase found
      obtain ⟨⟨moved, cache⟩, went, rfl⟩ := Option.map_eq_some_iff.mp taken
      exact sourced.next found went
  | change disk =>
    cases taken
    exact sourced.alike rfl fun _ _ _ _ => Iff.rfl
  | other disk =>
    cases taken
    exact sourced.alike rfl fun _ _ _ _ => Iff.rfl
  | record path kind covered =>
    simp only [SearchRace.step, Option.ite_none_left_eq_some, Option.some.injEq] at taken
    obtain ⟨_, rfl⟩ := taken
    exact sourced.alike rfl fun _ _ _ _ => Iff.rfl

/--
However searches run side by side, the roll-up that one of them is answered with counts the hits
which the same search under the same version has found by a walk and would be answered with as they
are, and it says of each file how many there are and between which lines they stand.
-/
theorem roll_up_of_walked {start : SearchRace Content Matcher Walker} (ready : start.Ready)
    {actions : List (Action Content)} {last : SearchRace Content Matcher Walker}
    (ran : run (SearchRace.step tools) start actions = some last) :
    ∀ params version raw cached,
      SearchPhase.returned params version raw cached ∈ last.searches →
        (∃ other : SearchGrepParams, SearchPhase.returned other version raw false ∈ last.searches ∧
          other.key = params.key) ∧
        ∃ compact, (finalizeSearch raw true).compact = some compact ∧
          GrepLaws (finalizeSearch raw false).hits compact ∧
          (finalizeSearch raw true).truncated = (finalizeSearch raw false).truncated := by
  have sourced : last.Sourced := by
    refine run_invariant Sourced (fun s action next sourced => sourced.step) ?_ ran
    -- At first the cache is empty and no search is there.
    refine ⟨fun entry member => ?_, fun params version raw member => ?_⟩
    · rw [ready.cache] at member
      cases member
    · rw [ready.searches] at member
      cases member
  intro params version raw cached member
  refine ⟨?_, _, rfl, searchGrepCompact_laws raw.hits, rfl⟩
  -- A search that was not served from the cache has walked itself.
  cases cached with
  | false => exact ⟨params, member, rfl⟩
  | true => exact sourced.served params version raw member

/-- A file is its lines, of which those with an `x` match. Every walk comes to `b` before `a`. -/
def twoFileTools : SearchTools (List (List Char)) Unit Unit (List DirEntry) where
  compile _ _ := .ok ()
  addGlob _ _ := .ok ()
  walk _ _ := [{ path := ["b"], isFile := true }, { path := ["a"], isFile := true }]
  next _ walker :=
    match walker with
    | [] => none
    | entry :: rest => some (some entry, rest)
  report _ _ content :=
    (content.zipIdx 1).filterMap fun numbered =>
      if 'x' ∈ numbered.1 then some (.matched (some numbered.2) numbered.1) else none

/-- Those two files, with these lines in the one that a walk comes to first. -/
def twoFilesDisk (first : List (List Char)) : Disk (List (List Char)) := fun path =>
  if path = ["p", "a"] then some [['y'], ['x', 'y']]
  else if path = ["p", "b"] then some first
  else none

/-- A project of those two files before `b` has grown, and no search yet. -/
def twoFiles : SearchRace (List (List Char)) Unit (List DirEntry) where
  root := ["p"]
  disk := twoFilesDisk [['x']]
  unrecorded := 0
  log := ChangeLog.withCapacity 64
  cache := SearchCache.new 8
  searches := []

/-- One search walks while `b` grows, another one after the record of that, and a third one asks. -/
def grownSearches : List (Action (List (List Char))) :=
  [.arrive everything (.ok ()), .advance 0, .advance 0, .advance 0, .advance 0,
    .change (twoFilesDisk [['x'], ['y'], ['y', 'x'], ['x', 'x']]), .record ["b"] .modified 1,
    .arrive everything (.ok ()), .advance 1, .advance 1, .advance 1, .advance 1, .advance 1,
    .advance 0, .advance 1, .advance 1, .arrive everything (.ok ()), .advance 0, .advance 2,
    .advance 2]

/-- What the third search is served is the roll-up of the hits that the second one has found. -/
theorem roll_up_of_walked_grown :
    ∃ (s : SearchRace (List (List Char)) Unit (List DirEntry)) (raw : SearchGrepResult),
      run (SearchRace.step twoFileTools) twoFiles grownSearches = some s ∧
        s.searches[2]? = some (.returned everything 1 raw true) ∧
        (∃ other : SearchGrepParams, SearchPhase.returned other 1 raw false ∈ s.searches ∧
          other.key = everything.key) ∧
        ∃ compact, (finalizeSearch raw true).compact = some compact ∧
          GrepLaws (finalizeSearch raw false).hits compact ∧
          compact =
            { buckets :=
                [{ path := ['a'], matchCount := 1, firstLine := 2, lastLine := 2 },
                  { path := ['b'], matchCount := 3, firstLine := 1, lastLine := 4 }]
              totalMatches := 4 } := by
  -- The run is evaluated, with what the third search has in its hands.
  have served : ∃ s raw, run (SearchRace.step twoFileTools) twoFiles grownSearches = some s ∧
      s.searches[2]? = some (.returned everything 1 raw true) ∧
      (finalizeSearch raw true).compact = some
        { buckets :=
            [{ path := ['a'], matchCount := 1, firstLine := 2, lastLine := 2 },
              { path := ['b'], matchCount := 3, firstLine := 1, lastLine := 4 }]
          totalMatches := 4 } := ⟨_, _, rfl, rfl, by decide +kernel⟩
  obtain ⟨s, raw, ran, third, rolled⟩ := served
  have ready : twoFiles.Ready := ⟨rfl, rfl⟩
  obtain ⟨walked, compact, found, laws, _⟩ :=
    roll_up_of_walked ready ran everything 1 raw true (List.mem_of_getElem? third)
  rw [found] at rolled
  exact ⟨s, raw, ran, third, walked, compact, found, laws, Option.some.inj rolled⟩

end SearchRace

end McpCli
