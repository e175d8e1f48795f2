import McpCli.Daemon.Search

/-! The walk of a search over a tree that does not change. -/

namespace McpCli

variable {Content Matcher Overrides Walker : Type}
  {tools : SearchTools Content Matcher Overrides Walker} {disk : Disk Content} {root : AbsPath}
  {params : SearchGrepParams}

namespace SearchTools

/-- Requests of the same key start in the same way. -/
theorem begin_congr {other : SearchGrepParams} (same : params.key = other.key) :
    tools.begin root params = tools.begin root other := by
  simp only [SearchGrepParams.key, SearchKey.mk.injEq] at same
  obtain ⟨pattern, path, glob, _, caseInsensitive, _⟩ := same
  -- The walk starts at the path of the request, which the key has as it is.
  have start : params.searchRoot root = other.searchRoot root := by
    simp only [SearchGrepParams.searchRoot, path]
  simp only [begin, pattern, glob, caseInsensitive, start]

/-- Requests of the same key take the same steps. -/
theorem advance_congr {other : SearchGrepParams} (same : params.key = other.key)
    (walk : SearchWalk Matcher Walker) :
    tools.advance disk root params walk = tools.advance disk root other walk := by
  simp only [SearchGrepParams.key, SearchKey.mk.injEq] at same
  obtain ⟨_, _, _, maxResults, _, context⟩ := same
  have maxHits : params.maxHits = other.maxHits := by
    simp only [SearchGrepParams.maxHits, maxResults]
  -- A file is searched with the limit and the capped lines of context, both from the key.
  have search : tools.searchPath disk root params = tools.searchPath disk root other := by
    unfold searchPath
    rw [maxHits, context]
  unfold advance
  rw [maxHits, search]

/-- Requests of the same key come to the same end. -/
theorem finish_congr {other : SearchGrepParams} (same : params.key = other.key) (fuel : Nat)
    (walk : SearchWalk Matcher Walker) :
    tools.finish disk root params fuel walk = tools.finish disk root other fuel walk := by
  -- The induction follows the walk, whose steps are the same for both requests.
  induction fuel generalizing walk with
  | zero => rfl
  | succ fuel ih =>
    simp only [finish, advance_congr same]
    cases tools.advance disk root other walk with
    | inl walk => exact ih walk
    | inr result => rfl

/-- However many steps are allowed, a walk comes to one end only. -/
theorem finish_unique {fuel more : Nat} {walk : SearchWalk Matcher Walker}
    {one other : SearchGrepResult} (first : tools.finish disk root params fuel walk = some one)
    (second : tools.finish disk root params more walk = some other) : one = other := by
  -- Both walks take the same step until there is none left.
  induction fuel generalizing more walk with
  | zero => cases first
  | succ fuel ih =>
    cases more with
    | zero => cases second
    | succ more =>
      simp only [finish] at first second
      cases moved : tools.advance disk root params walk with
      | inl walk =>
        simp only [moved] at first second
        exact ih first second
      | inr result =>
        simp only [moved, Option.some.injEq] at first second
        rw [← first, ← second]

/-- Two trees look the same to every walk. -/
structure Alike (tools : SearchTools Content Matcher Overrides Walker) (root : AbsPath)
    (disk other : Disk Content) : Prop where
  next : ∀ walker, tools.next disk walker = tools.next other walker
  content : ∀ walker entry rest, tools.next disk walker = some (some entry, rest) →
    disk (root ++ entry.path) = other (root ++ entry.path)

/-- On trees that look the same, a walk takes the same step. -/
theorem Alike.advance {other : Disk Content} (alike : tools.Alike root disk other)
    (params : SearchGrepParams) (walk : SearchWalk Matcher Walker) :
    tools.advance disk root params walk = tools.advance other root params walk := by
  -- A step looks at the tree through the walker, and then at one file that it yields.
  have content := alike.content walk.walker
  simp only [SearchTools.advance, ← alike.next]
  cases found : tools.next disk walk.walker with
  | none => rfl
  | some step =>
    obtain ⟨entry, rest⟩ := step
    cases entry with
    | none => rfl
    | some entry =>
      have search : tools.searchPath disk root params walk.matcher walk.hits entry.path =
          tools.searchPath other root params walk.matcher walk.hits entry.path := by
        unfold searchPath
        rw [content entry rest found]
      simp only [search]

/-- On trees that look the same, a walk comes to the same end. -/
theorem Alike.finish {other : Disk Content} (alike : tools.Alike root disk other)
    (params : SearchGrepParams) (fuel : Nat) (walk : SearchWalk Matcher Walker) :
    tools.finish disk root params fuel walk = tools.finish other root params fuel walk := by
  -- The induction follows the walk, whose steps are the same over both trees.
  induction fuel generalizing walk with
  | zero => rfl
  | succ fuel ih =>
    simp only [SearchTools.finish, alike.advance params]
    cases tools.advance other root params walk with
    | inl walk => exact ih walk
    | inr result => rfl

/-- A walk over this tree comes to an end with this result. -/
def Produces (tools : SearchTools Content Matcher Overrides Walker) (disk : Disk Content)
    (root : AbsPath) (params : SearchGrepParams) (raw : SearchGrepResult) : Prop :=
  ∃ start fuel, tools.begin root params = .ok start ∧
    tools.finish disk root params fuel start = some raw

/-- A walk over this tree comes by this state. -/
def Reaches (tools : SearchTools Content Matcher Overrides Walker) (disk : Disk Content)
    (root : AbsPath) (params : SearchGrepParams) (walk : SearchWalk Matcher Walker) : Prop :=
  ∃ start ahead, tools.begin root params = .ok start ∧
    ∀ fuel, tools.finish disk root params (ahead + fuel) start =
      tools.finish disk root params fuel walk

/-- A walk over an unchanged tree has one result at most. -/
theorem Produces.unique {one other : SearchGrepResult} (first : tools.Produces disk root params one)
    (second : tools.Produces disk root params other) : one = other := by
  obtain ⟨start, fuel, begun, ended⟩ := first
  obtain ⟨start', more, begun', ended'⟩ := second
  -- Both walks start alike, so they are one walk.
  rw [begun] at begun'
  cases begun'
  exact finish_unique ended ended'

/-- What one request produces, every request of the same key does. -/
theorem Produces.congr {other : SearchGrepParams} {raw : SearchGrepResult}
    (produces : tools.Produces disk root params raw) (same : params.key = other.key) :
    tools.Produces disk root other raw := by
  obtain ⟨start, fuel, begun, ended⟩ := produces
  -- Neither the start of a walk nor its steps depend on more than the key.
  refine ⟨start, fuel, ?_, ?_⟩
  · rw [← begin_congr same]
    exact begun
  · rw [← finish_congr same]
    exact ended

/-- What is produced does not depend on changes that no walk can see. -/
theorem Produces.alike {other : Disk Content} {raw : SearchGrepResult}
    (produces : tools.Produces disk root params raw) (alike : tools.Alike root disk other) :
    tools.Produces other root params raw := by
  obtain ⟨start, fuel, begun, ended⟩ := produces
  exact ⟨start, fuel, begun, (alike.finish params fuel start).symm.trans ended⟩

/-- What is reached does not depend on changes that no walk can see. -/
theorem Reaches.alike {other : Disk Content} {walk : SearchWalk Matcher Walker}
    (reaches : tools.Reaches disk root params walk) (alike : tools.Alike root disk other) :
    tools.Reaches other root params walk := by
  obtain ⟨start, ahead, begun, same⟩ := reaches
  refine ⟨start, ahead, begun, ?_⟩
  -- The two walks agree after every number of steps.
  intro fuel
  rw [← alike.finish params, ← alike.finish params]
  exact same fuel

/-- A walk comes by its start. -/
theorem Reaches.start {walk : SearchWalk Matcher Walker}
    (begun : tools.begin root params = .ok walk) : tools.Reaches disk root params walk := by
  refine ⟨walk, 0, begun, ?_⟩
  intro fuel
  rw [Nat.zero_add]

/-- A walk that goes on comes by its next state. -/
theorem Reaches.more {walk further : SearchWalk Matcher Walker}
    (reaches : tools.Reaches disk root params walk)
    (moved : tools.advance disk root params walk = .inl further) :
    tools.Reaches disk root params further := by
  obtain ⟨start, ahead, begun, same⟩ := reaches
  refine ⟨start, ahead + 1, begun, ?_⟩
  intro fuel
  -- One more step has been made, and as many are left as before.
  rw [Nat.add_assoc, Nat.add_comm 1 fuel, same (fuel + 1)]
  simp only [finish, moved]

/-- A walk that is over has produced its result. -/
theorem Reaches.done {walk : SearchWalk Matcher Walker} {raw : SearchGrepResult}
    (reaches : tools.Reaches disk root params walk)
    (moved : tools.advance disk root params walk = .inr raw) :
    tools.Produces disk root params raw := by
  obtain ⟨start, ahead, begun, same⟩ := reaches
  refine ⟨start, ahead + 1, begun, ?_⟩
  -- What has been reached needs one step to its end.
  rw [same 1]
  simp only [finish, moved]

end SearchTools

end McpCli
