import McpCli.Daemon.PathRace

/-! Which paths are resolved below the root, and when what is opened is what was resolved. -/

namespace McpCli

open Text Transition

/-- A name stands for the step down to it. -/
theorem stepOf_name (name : FileName) : stepOf name.val = .down name := dif_pos name.property

/-- A path is followed up to a slash and then behind it. -/
theorem stepsOf_slash (front rest : List UInt8) :
    stepsOf (front ++ 0x2F :: rest) = stepsOf front ++ stepsOf rest := by
  unfold stepsOf
  rw [List.splitOn_append_cons_self, List.map_append]

/-- The parts between the slashes of a place are its names. -/
theorem splitOn_joined {place : List FileName} (below : place ≠ []) :
    (OsPath.joined (.ofNames place)).splitOn 0x2F = place.map Subtype.val := by
  refine List.splitOn_intercalate 0x2F (fun part member => ?_) (mt List.map_eq_nil_iff.mp below)
  obtain ⟨name, _, rfl⟩ := List.mem_map.mp member
  exact name.property.2.2.2.1

/-- The steps of a place are those down to its names. -/
theorem stepsOf_joined {place : List FileName} (below : place ≠ []) :
    stepsOf (OsPath.joined (.ofNames place)) = place.map .down := by
  rw [stepsOf, splitOn_joined below, List.map_map]
  exact List.map_congr_left fun name _ => stepOf_name name

/-- No place ends in a slash. -/
theorem getLast?_joined {place : List FileName} (below : place ≠ []) :
    (OsPath.joined (.ofNames place)).getLast? ≠ some 0x2F := by
  intro slash
  obtain ⟨front, ends⟩ := List.getLast?_eq_some_iff.mp slash
  -- There would be an empty name behind it.
  have parts := splitOn_joined below
  rw [ends, List.splitOn_append_cons_self] at parts
  have last : ([] : List UInt8) ∈ place.map Subtype.val := by simp [← parts]
  obtain ⟨name, _, empty⟩ := List.mem_map.mp last
  exact name.property.1 empty

/-- The steps of a candidate are those down to the root and then its own, unless it is absolute. -/
theorem stepsOf_joinPath (root : List FileName) (candidate : List Char) :
    stepsOf (joinPath (OsPath.bytes (.ofNames root)) candidate) =
      if candidate.head? = some '/' then stepsOf (encodeUtf8 candidate)
      else .stay :: (root.map .down ++ stepsOf (encodeUtf8 candidate)) := by
  unfold joinPath
  split
  · rfl
  · by_cases top : root = []
    · -- The bytes of the top are a slash already.
      subst top
      exact stepsOf_slash [] (encodeUtf8 candidate)
    · -- Any other root has a name, so that its bytes do not end in a slash.
      have names : OsPath.joined (.ofNames root) ≠ [] := by
        intro empty
        have parts := splitOn_joined top
        rw [empty] at parts
        obtain ⟨name, _, blank⟩ := List.mem_map.mp
          (parts ▸ List.mem_singleton_self [] : ([] : List UInt8) ∈ root.map Subtype.val)
        exact name.property.1 blank
      have apart : (OsPath.bytes (.ofNames root)).getLast?.all (· = 0x2F) = false := by
        obtain ⟨last, ends⟩ := Option.ne_none_iff_exists'.mp (mt List.getLast?_eq_none_iff.mp names)
        have other : last ≠ 0x2F := fun slash => getLast?_joined top (slash ▸ ends)
        rw [OsPath.bytes, List.getLast?_cons, ends]
        simpa using other
      rw [if_neg (by simp [apart]), stepsOf_slash, OsPath.bytes]
      have inside := stepsOf_slash [] (OsPath.joined (.ofNames root))
      rw [List.nil_append] at inside
      rw [inside, stepsOf_joined top]
      rfl

/-- No place has a zero byte in it. -/
theorem zero_notMem_bytes (place : List FileName) : 0 ∉ OsPath.bytes (.ofNames place) := by
  rw [OsPath.bytes, List.mem_cons, not_or]
  refine ⟨by decide, ?_⟩
  -- The bytes between the slashes are those of names.
  induction place with
  | nil => exact List.not_mem_nil
  | cons name rest ih =>
    cases rest with
    | nil => simpa [OsPath.joined, OsPath.ofNames] using name.property.2.2.2.2
    | cons other rest =>
      rw [OsPath.joined, OsPath.ofNames, List.map_cons] at ih ⊢
      rw [List.map_cons, List.intercalate_cons_cons, List.mem_append, List.mem_append]
      rintro ((inside | slash) | further)
      · exact name.property.2.2.2.2 inside
      · exact absurd slash (by decide)
      · exact ih further

/-- No zero byte comes from the root. -/
theorem zero_mem_joinPath (root : List FileName) (candidate : List Char) :
    0 ∈ joinPath (OsPath.bytes (.ofNames root)) candidate ↔ 0 ∈ encodeUtf8 candidate := by
  have above := zero_notMem_bytes root
  unfold joinPath
  -- A candidate that is absolute or empty is taken without a separator in front of it.
  split
  · rfl
  · split
    · simp [above]
    · simp [above]

section

variable {tree : LinkTree} {maxLinks : Nat} {root place : List FileName} {canon : OsPath}

/-- The names of a place are told by its bytes. -/
theorem OsPath.ofNames_inj {other : List FileName} :
    OsPath.ofNames place = .ofNames other ↔ place = other :=
  ⟨fun same => List.map_injective_iff.mpr Subtype.val_injective same, fun same => by rw [same]⟩

/-- A place is below another one if its names go on from there. -/
theorem OsPath.ofNames_prefix {other : List FileName} :
    OsPath.ofNames place <+: OsPath.ofNames other ↔ place <+: other :=
  List.prefix_map_iff_of_injective Subtype.val_injective

/-- To stay at the top changes nothing. -/
theorem leads_stay_top {links : Nat} {last : List FileName} {rest : List (Files.Step FileName)} :
    tree.Leads links [] (.stay :: rest) last ↔ tree.Leads links [] rest last :=
  Files.Tree.leads_cons_iff (by rw [Files.Tree.next, tree.top])

/-- The bytes of a place without links lead to it. -/
theorem leads_bytes (canonical : tree.Canonical place) :
    tree.Leads 0 [] (stepsOf (OsPath.bytes (.ofNames place))) place := by
  have slash := stepsOf_slash [] (OsPath.joined (.ofNames place))
  rw [List.nil_append] at slash
  rw [OsPath.bytes, slash]
  -- The path begins with a slash, in front of which there is an empty part.
  refine leads_stay_top.mpr ?_
  by_cases top : place = []
  · subst top
    exact leads_stay_top.mpr (.here [])
  · have down : tree.Leads 0 [] (place.map .down ++ []) place :=
      (Files.Tree.leads_downwards_iff canonical).mpr (.here place)
    rwa [stepsOf_joined top, ← List.append_nil (place.map _)]

/-- A path without a zero byte is resolved as it is walked. -/
theorem canonicalizeIn_eq_ok_iff {path : List UInt8} :
    canonicalizeIn tree maxLinks path = .ok place ↔
      0 ∉ path ∧ ∃ links ≤ maxLinks, tree.Leads links [] (stepsOf path) place := by
  rw [← Files.Tree.walk_eq_ok_iff]
  unfold canonicalizeIn
  by_cases zero : 0 ∈ path
  · simp [zero]
  · rw [if_neg zero]
    cases tree.walk maxLinks [] (stepsOf path) <;> simp [Except.mapError, zero]

/-- What is resolved is a place below the root to which the path leads. -/
theorem resolveIn_eq_ok_iff {candidate : String} :
    resolveIn tree maxLinks root candidate = .ok canon ↔
      ∃ place, canon = .ofNames place ∧ root <+: place ∧
        canonicalizeIn tree maxLinks (joinPath (OsPath.bytes (.ofNames root)) candidate.toList) =
          .ok place := by
  unfold resolveIn resolveWithin
  cases found :
      canonicalizeIn tree maxLinks (joinPath (OsPath.bytes (.ofNames root)) candidate.toList) with
  | error text => simp [Except.map]
  | ok place =>
    simp only [Except.map]
    split
    · rename_i inside
      constructor
      · intro same
        cases same
        exact ⟨place, rfl, OsPath.ofNames_prefix.mp inside, rfl⟩
      · rintro ⟨other, rfl, _, same⟩
        cases same
        rfl
    · -- Nothing outside of the root is handed out.
      rename_i outside
      simp only [reduceCtorEq, false_iff]
      rintro ⟨other, _, inside, same⟩
      cases same
      exact outside (OsPath.ofNames_prefix.mpr inside)

/-- A candidate leads from the root where its joined path leads from the top. -/
theorem leads_joinPath_iff (canonical : tree.Canonical root) (candidate : List Char) {links : Nat} :
    tree.Leads links [] (stepsOf (joinPath (OsPath.bytes (.ofNames root)) candidate)) place ↔
      tree.Leads links (if candidate.head? = some '/' then [] else root)
        (stepsOf (encodeUtf8 candidate)) place := by
  rw [stepsOf_joinPath]
  split
  · rfl
  · refine leads_stay_top.trans ?_
    exact Files.Tree.leads_downwards_iff ((List.nil_append root).symm ▸ canonical)

/-- The bytes of a place without links name that place, whatever links may be followed. -/
theorem canonicalizeIn_bytes (canonical : tree.Canonical place) (budget : Nat) :
    canonicalizeIn tree budget (OsPath.bytes (.ofNames place)) = .ok place :=
  canonicalizeIn_eq_ok_iff.mpr
    ⟨zero_notMem_bytes place, 0, Nat.zero_le _, leads_bytes canonical⟩

/-- A path below the root or from the top starts where there is no link. -/
theorem canonical_start (canonical : tree.Canonical root) (candidate : List Char) :
    tree.Canonical (if candidate.head? = some '/' then [] else root) := by
  split
  · exact Files.Tree.canonical_top
  · exact canonical

/-- There is no link on the way to what is resolved. -/
theorem canonical_of_resolveIn (canonical : tree.Canonical root) {candidate : String}
    (resolved : resolveIn tree maxLinks root candidate = .ok canon) :
    ∃ place, canon = .ofNames place ∧ tree.Canonical place := by
  obtain ⟨place, rfl, _, found⟩ := resolveIn_eq_ok_iff.mp resolved
  obtain ⟨_, links, _, leads⟩ := canonicalizeIn_eq_ok_iff.mp found
  rw [leads_joinPath_iff canonical] at leads
  exact ⟨place, rfl, leads.canonical (canonical_start canonical _)⟩

/--
What a candidate is resolved to is the place to which it leads from the root, or from the top if it
is absolute, over no more links than may be followed, provided that this place is below the root.
There is no link on the way to it, and its own path names it whatever links may be followed.
-/
theorem resolveIn_exact (canonical : tree.Canonical root) (candidate : String) :
    resolveIn tree maxLinks root candidate = .ok canon ↔
      0 ∉ encodeUtf8 candidate.toList ∧
        ∃ place, canon = .ofNames place ∧ root <+: place ∧ tree.Canonical place ∧
          (∀ budget, canonicalizeIn tree budget canon.bytes = .ok place) ∧
            ∃ links ≤ maxLinks,
              tree.Leads links (if candidate.toList.head? = some '/' then [] else root)
                (stepsOf (encodeUtf8 candidate.toList)) place := by
  -- The place is told by where the steps lead, and these lead on from the start.
  have named place :
      canonicalizeIn tree maxLinks (joinPath (OsPath.bytes (.ofNames root)) candidate.toList) =
          .ok place ↔ _ := canonicalizeIn_eq_ok_iff
  simp only [resolveIn_eq_ok_iff, named, zero_mem_joinPath, leads_joinPath_iff canonical]
  constructor
  · rintro ⟨place, rfl, inside, clean, links, few, leads⟩
    -- No link is left on the way to where a path leads.
    have plain := leads.canonical (canonical_start canonical candidate.toList)
    exact ⟨clean, place, rfl, inside, plain, canonicalizeIn_bytes plain, links, few, leads⟩
  · rintro ⟨clean, place, rfl, inside, _, _, links, few, leads⟩
    exact ⟨place, rfl, inside, clean, links, few, leads⟩

end

/-- The directory of a project. -/
def projectDir : List FileName := [⟨[0x70], by decide⟩]

/-- The source of a project. -/
def projectSource : List FileName := [⟨[0x70], by decide⟩, ⟨[0x61], by decide⟩]

/-- A project with a source, if it is one, and a link to it, next to a file outside. -/
def projectTree (source : Files.Node FileName (List UInt8)) : LinkTree :=
  .ofEntries
    [(projectDir, .dir), (projectSource, source),
      ([⟨[0x70], by decide⟩, ⟨[0x6C], by decide⟩], .link false [.down ⟨[0x61], by decide⟩]),
      ([⟨[0x6F], by decide⟩], .file [])]
    (by
      intro entry member
      simp only [List.mem_cons, List.not_mem_nil, or_false] at member
      rcases member with rfl | rfl | rfl | rfl
      all_goals rfl)

/-- There is no link above the directory of the project. -/
theorem canonical_projectDir (source : Files.Node FileName (List UInt8)) :
    (projectTree source).Canonical projectDir :=
  .of_look (show (projectTree source).look projectDir = .ok .dir from rfl) (by simp)

/-- A link in the project is resolved to the file to which it leads. -/
theorem resolveIn_exact_link :
    ∃ place, [[0x70], [0x61]] = OsPath.ofNames place ∧
      (projectTree (.file [])).Canonical place ∧
        ∃ links ≤ 40, (projectTree (.file [])).Leads links projectDir
          (stepsOf (encodeUtf8 "l".toList)) place := by
  obtain ⟨_, place, same, _, plain, _, leads⟩ :=
    (resolveIn_exact (canonical_projectDir (.file [])) "l").mp
      (by decide : resolveIn _ 40 projectDir "l" = .ok [[0x70], [0x61]])
  exact ⟨place, same, plain, leads⟩

/-- The walk will come to the place if it meets no link. -/
def OnTheWay (walk : Files.Walk FileName) (place : List FileName) : Prop :=
  ∃ stays below, walk.rest = List.replicate stays .stay ++ below.map .down ∧
    walk.place ++ below = place

/-- The path that a handler takes to be one without links. -/
def PathPhase.held : PathPhase → Option OsPath
  | .resolving walk => some (.ofNames walk.place)
  | .resolved canon | .opening canon _ => some canon
  | .arrived | .opened .. | .refused .. | .failed _ => none

/-- What a handler relies on is as it takes it to be. -/
def PathPhase.Sound (tree : LinkTree) (root : List FileName) : PathPhase → Prop
  | .resolving walk => tree.LinkFree walk.place
  | .resolved canon => ∃ place, canon = .ofNames place ∧ root <+: place ∧ tree.LinkFree place
  | .opening canon walk =>
    ∃ place, canon = .ofNames place ∧ root <+: place ∧ tree.LinkFree place ∧ OnTheWay walk place
  | .opened canon place | .refused canon place .. => canon = .ofNames place ∧ root <+: place
  | .arrived | .failed _ => True

namespace PathRace

/-- A change puts no link where a handler takes none to be. -/
def SparesHeld (s : PathRace) : Action → Prop
  | .change tree =>
    ∀ request ∈ s.requests, ∀ place, request.phase.held = some (.ofNames place) →
      tree.LinkFree place
  | .arrive _ | .advance _ | .refuse .. => True

/-- Every handler relies on what is so. -/
def Sound (s : PathRace) : Prop :=
  ∀ request ∈ s.requests, request.phase.Sound s.tree s.root

section

variable {tree : LinkTree} {maxLinks : Nat} {root place : List FileName} {canon : OsPath}
  {walk further : Files.Walk FileName}

/-- The bytes of a place are on the way to it. -/
theorem onTheWay_bytes (place : List FileName) (links : Nat) :
    OnTheWay { links, place := [], rest := stepsOf (OsPath.bytes (.ofNames place)) } place := by
  have slash := stepsOf_slash [] (OsPath.joined (.ofNames place))
  rw [List.nil_append] at slash
  by_cases top : place = []
  · subst top
    -- The bytes of the top are one slash, with an empty part on either side.
    exact ⟨2, [], rfl, rfl⟩
  · refine ⟨1, place, ?_, rfl⟩
    rw [OsPath.bytes, slash, stepsOf_joined top]
    rfl

/-- A walk meets no link on the way to a place that has none above it. -/
theorem onTheWay_resume (way : OnTheWay walk place) (linkFree : tree.LinkFree place)
    (resumed : tree.resume walk = .ok (.inl further)) : OnTheWay further place := by
  obtain ⟨stays, below, steps, there⟩ := way
  obtain ⟨links, here, rest⟩ := walk
  simp only at steps there
  subst steps
  unfold Files.Tree.resume at resumed
  -- The empty parts come first, and only then the names.
  cases stays with
  | succ stays =>
    rw [List.replicate_succ, List.cons_append] at resumed
    dsimp only at resumed
    cases taken : tree.next here .stay with
    | error fault => simp [taken] at resumed
    | ok move =>
      rw [taken, Files.Tree.moved_of_stay taken] at resumed
      cases resumed
      exact ⟨stays, below, rfl, there⟩
  | zero =>
    cases below with
    | nil => cases resumed
    | cons name below =>
      rw [List.replicate_zero, List.nil_append, List.map_cons] at resumed
      dsimp only at resumed
      rw [List.append_cons] at there
      -- What stands above the place does not change by a step down to it.
      have plain : tree.LinkFree (here ++ [name]) :=
        fun front above => linkFree front (above.trans (there ▸ List.prefix_append _ _))
      cases taken : tree.next here (.down name) with
      | error fault => simp [taken] at resumed
      | ok move =>
        rw [taken, Files.Tree.moved_of_linkFree plain taken] at resumed
        cases resumed
        exact ⟨0, below, rfl, there⟩

/-- A walk on the way to a place arrives there. -/
theorem onTheWay_arrived {last : List FileName} (way : OnTheWay walk place)
    (resumed : tree.resume walk = .ok (.inr last)) : last = place := by
  obtain ⟨here, done⟩ := Files.Tree.arrived_of_resume resumed
  obtain ⟨stays, below, steps, there⟩ := way
  rw [done] at steps
  -- There are no names left below the place.
  cases below with
  | nil => rw [← here, ← there, List.append_nil]
  | cons name below => simp at steps

/-- A handler that goes on relies on what it has seen. -/
theorem sound_next {s : PathRace} {candidate : String} {phase moved : PathPhase}
    (sound : phase.Sound s.tree s.root) (went : s.next maxLinks candidate phase = some moved) :
    moved.Sound s.tree s.root := by
  cases phase with
  | arrived =>
    simp only [next] at went
    split at went
    · cases went
      trivial
    · cases went
      -- Every walk begins at the top.
      exact Files.Tree.canonical_top.linkFree
  | resolving walk =>
    simp only [next] at went
    split at went
    · rename_i resumed
      cases went
      -- No matter what the tree was before: the step has just looked at it.
      exact (Files.Tree.canonical_of_resume resumed).linkFree
    · rename_i place resumed
      split at went
      · cases went
        trivial
      · rename_i canon inside
        cases went
        unfold resolveWithin at inside
        simp only at inside
        split at inside
        · rename_i below
          cases inside
          -- The last step has looked at the place, and nothing has changed since.
          obtain ⟨here, _⟩ := Files.Tree.arrived_of_resume resumed
          exact ⟨place, rfl, OsPath.ofNames_prefix.mp below, here ▸ sound⟩
        · cases inside
    · cases went
      trivial
  | resolved canon =>
    cases went
    obtain ⟨place, rfl, below, linkFree⟩ := sound
    exact ⟨place, rfl, below, linkFree, onTheWay_bytes place maxLinks⟩
  | opening canon walk =>
    obtain ⟨place, rfl, below, linkFree, way⟩ := sound
    simp only [next] at went
    split at went
    · rename_i resumed
      cases went
      exact ⟨place, rfl, below, linkFree, onTheWay_resume way linkFree resumed⟩
    · rename_i resumed
      cases went
      -- Without a link on the way, the second walk ends where the first one did.
      rw [onTheWay_arrived way resumed]
      exact ⟨rfl, below⟩
    · cases went
      trivial
  | opened canon place => cases went
  | refused canon place call reason => cases went
  | failed error => cases went

/-- A handler whose call is refused has found the place that it relies on. -/
theorem sound_refuse {s : PathRace} {call : FileCall} {reason : String} {phase moved : PathPhase}
    (sound : phase.Sound s.tree s.root) (went : s.refuse call reason phase = some moved) :
    moved.Sound s.tree s.root := by
  cases phase with
  | opening canon walk =>
    obtain ⟨place, rfl, below, linkFree, way⟩ := sound
    simp only [refuse] at went
    split at went
    · rename_i resumed
      cases went
      -- The second walk has ended where the first one did.
      rw [onTheWay_arrived way resumed]
      exact ⟨rfl, below⟩
    · cases went
  | opened canon place =>
    simp only [refuse] at went
    split at went
    · cases went
    · cases went
      exact sound
  | _ => cases went

/-- A change that spares what a handler holds leaves it right. -/
theorem sound_change {phase : PathPhase} {changed : LinkTree} (sound : phase.Sound tree root)
    (spares : ∀ place, phase.held = some (.ofNames place) → changed.LinkFree place) :
    phase.Sound changed root := by
  -- Only the place that a phase holds has to be free of links.
  cases phase with
  | resolving walk => exact spares walk.place rfl
  | resolved canon =>
    obtain ⟨place, rfl, below, _⟩ := sound
    exact ⟨place, rfl, below, spares place rfl⟩
  | opening canon walk =>
    obtain ⟨place, rfl, below, _, way⟩ := sound
    exact ⟨place, rfl, below, spares place rfl, way⟩
  | opened canon place => exact sound
  | refused canon place call reason => exact sound
  | arrived => trivial
  | failed error => trivial

/-- A step that spares what the handlers hold leaves all of them right. -/
theorem sound_step {s next : PathRace} {action : Action} (sound : s.Sound)
    (spares : s.SparesHeld action) (stepped : s.step maxLinks action = some next) :
    next.Sound ∧ next.root = s.root := by
  cases action with
  | arrive candidate =>
    cases stepped
    refine ⟨fun request member => ?_, rfl⟩
    -- A new request does not rely on anything yet.
    rcases List.mem_append.mp member with old | new
    · exact sound request old
    · rw [List.mem_singleton.mp new]
      trivial
  | advance number =>
    simp only [step] at stepped
    split at stepped
    · cases stepped
    · rename_i request there
      obtain ⟨phase, went, rfl⟩ := Option.map_eq_some_iff.mp stepped
      refine ⟨fun other member => ?_, rfl⟩
      -- The others have not moved, and nor has the tree.
      rcases List.mem_or_eq_of_mem_set member with old | rfl
      · exact sound other old
      · exact sound_next (sound request (List.mem_of_getElem? there)) went
  | refuse number call reason =>
    simp only [step] at stepped
    split at stepped
    · cases stepped
    · rename_i request there
      obtain ⟨phase, went, rfl⟩ := Option.map_eq_some_iff.mp stepped
      refine ⟨fun other member => ?_, rfl⟩
      rcases List.mem_or_eq_of_mem_set member with old | rfl
      · exact sound other old
      · exact sound_refuse (sound request (List.mem_of_getElem? there)) went
  | change tree =>
    cases stepped
    exact ⟨fun request member => sound_change (sound request member) (spares request member), rfl⟩

/--
As long as nothing puts a link on a path that a handler has found to have none, every handler opens
the very place to which its path was resolved, and this place is below the root.
-/
theorem opens_what_it_resolved {actions : List Action} {last : PathRace}
    (ran : run (step maxLinks) { tree, root, requests := [] } actions = some last)
    (spares : Along (step maxLinks) SparesHeld { tree, root, requests := [] } actions) :
    ∀ request ∈ last.requests, ∀ canon place, request.phase = .opened canon place →
      canon = .ofNames place ∧ root <+: place := by
  have kept : last.Sound ∧ last.root = root := by
    refine run_invariant_along (fun s => s.Sound ∧ s.root = root) ?_ ?_ spares ran
    · rintro s action next ⟨sound, same⟩ spared stepped
      obtain ⟨sound, still⟩ := sound_step sound spared stepped
      exact ⟨sound, still.trans same⟩
    · exact ⟨fun request member => absurd member List.not_mem_nil, rfl⟩
  -- What is said of an opened path no longer depends on the tree.
  intro request member canon place opened
  have sound := kept.1 request member
  rw [opened, kept.2] at sound
  exact sound

/-- What a handler opens through a link, while the file gets new bytes. -/
theorem opens_what_it_resolved_renewed :
    ∃ last,
      run (step 40) { tree := projectTree (.file []), root := projectDir, requests := [] }
          (.arrive "l" :: List.replicate 6 (.advance 0) ++
            .change (projectTree (.file [1])) :: List.replicate 5 (.advance 0)) = some last ∧
        ∃ request ∈ last.requests, ∃ canon place, request.phase = .opened canon place ∧
          canon = .ofNames place ∧ projectDir <+: place := by
  have ended : (run (step 40)
      { tree := projectTree (.file []), root := projectDir, requests := [] }
      (.arrive "l" :: List.replicate 6 (.advance 0) ++
        .change (projectTree (.file [1])) :: List.replicate 5 (.advance 0))).map
        PathRace.requests =
      some [{ candidate := "l", phase := .opened (.ofNames projectSource) projectSource }] := by
    decide
  obtain ⟨last, ran, requests⟩ := Option.map_eq_some_iff.mp ended
  have member : { candidate := "l", phase := .opened (.ofNames projectSource) projectSource } ∈
      last.requests := by simp [requests]
  refine ⟨last, ran, _, member, _, _, rfl, opens_what_it_resolved ran ?_ _ member _ _ rfl⟩
  have spared : (projectTree (.file [1])).LinkFree projectSource :=
    (Files.Tree.Canonical.of_look
      (show (projectTree (.file [1])).look projectSource = .ok (.file [1]) from rfl)
      (by simp)).linkFree
  refine ⟨trivial, trivial, trivial, trivial, trivial, trivial, trivial, ?_, trivial, trivial,
    trivial, trivial, trivial, trivial⟩
  -- The handler holds the path of the source, which only gets other bytes.
  intro request member place held
  rw [List.mem_singleton.mp member] at held
  cases OsPath.ofNames_inj.mp (Option.some.inj held)
  exact spared

-- A link that is put there meanwhile is followed, and out of the project.
example :
    let actions := .arrive "a" :: List.replicate 5 (.advance 0) ++
      .change (projectTree (.link false [.up, .down ⟨[0x6F], by decide⟩])) ::
        List.replicate 7 (.advance 0)
    (run (step 40) { tree := projectTree (.file []), root := projectDir, requests := [] }
        actions).map PathRace.requests =
      some
        [{ candidate := "a",
           phase := .opened (.ofNames projectSource) [⟨[0x6F], by decide⟩] }] := by
  decide

/-- What is asked is decided as the whole path is resolved in one tree. -/
def Settles (maxLinks : Nat) (tree : LinkTree) (root : List FileName) (request : PathRequest) :
    Prop :=
  let path := joinPath (OsPath.bytes (.ofNames root)) request.candidate.toList
  let resolved := resolveIn tree maxLinks root request.candidate
  match request.phase with
  | .arrived => True
  | .resolving walk =>
    0 ∉ path ∧ tree.walk walk.links walk.place walk.rest = tree.walk maxLinks [] (stepsOf path)
  | .resolved canon => resolved = .ok canon
  | .opening canon walk =>
    resolved = .ok canon ∧
      (tree.walk walk.links walk.place walk.rest).map OsPath.ofNames = .ok canon
  | .opened canon place | .refused canon place .. =>
    resolved = .ok canon ∧ canon = .ofNames place
  | .failed error => resolved = .error error

/-- A path that is walked to its end is resolved like the place there. -/
theorem resolveIn_of_walk {candidate : String} {outcome : Except Files.Fault (List FileName)}
    (clean : 0 ∉ joinPath (OsPath.bytes (.ofNames root)) candidate.toList)
    (walked : tree.walk maxLinks []
      (stepsOf (joinPath (OsPath.bytes (.ofNames root)) candidate.toList)) = outcome) :
    resolveIn tree maxLinks root candidate =
      resolveWithin (.ofNames root) candidate ((outcome.mapError faultText).map .ofNames) := by
  rw [resolveIn, canonicalizeIn, if_neg clean, walked]

/-- Where nothing changes, each step of a handler leaves its outcome what it was. -/
theorem settles_next (canonical : tree.Canonical root) {request : PathRequest} {moved : PathPhase}
    {requests : List PathRequest} (settles : Settles maxLinks tree root request)
    (went : next maxLinks { tree, root, requests } request.candidate request.phase = some moved) :
    Settles maxLinks tree root { request with phase := moved } := by
  obtain ⟨candidate, phase⟩ := request
  cases phase with
  | arrived =>
    simp only [next] at went
    split at went
    · rename_i zero
      cases went
      simp only [Settles]
      rw [resolveIn, canonicalizeIn, if_pos zero]
      rfl
    · rename_i clean
      cases went
      exact ⟨clean, rfl⟩
  | resolving walk =>
    obtain ⟨clean, walked⟩ := settles
    -- What is left of the walk ends as the whole one, before the step and behind it.
    rw [Files.Tree.walk_eq_resume] at walked
    simp only [next] at went
    cases resumed : tree.resume walk with
    | error fault =>
      rw [resumed] at walked went
      cases went
      exact resolveIn_of_walk clean walked.symm
    | ok outcome =>
      rw [resumed] at walked went
      cases outcome with
      | inl further =>
        cases went
        exact ⟨clean, walked⟩
      | inr place =>
        -- At the end of the walk only the check is left.
        have whole := resolveIn_of_walk clean walked.symm
        simp only [Except.mapError, Except.map] at whole
        dsimp only at went
        split at went
        · rename_i refused
          cases went
          exact whole.trans refused
        · rename_i resolved
          cases went
          exact whole.trans resolved
  | resolved canon =>
    cases went
    -- The second walk follows no link, and so it ends where the first one did.
    obtain ⟨place, rfl, plain⟩ := canonical_of_resolveIn canonical settles
    have opens := canonicalizeIn_bytes plain maxLinks
    rw [canonicalizeIn, if_neg (zero_notMem_bytes place)] at opens
    refine ⟨settles, ?_⟩
    dsimp only
    -- A walk that is going to end at the place meets no fault.
    cases walked : tree.walk maxLinks [] (stepsOf (OsPath.bytes (.ofNames place))) with
    | error fault => simp [walked, Except.mapError] at opens
    | ok there =>
      rw [walked] at opens
      cases opens
      rfl
  | opening canon walk =>
    obtain ⟨resolved, walked⟩ := settles
    rw [Files.Tree.walk_eq_resume] at walked
    simp only [next] at went
    cases resumed : tree.resume walk with
    | error fault =>
      rw [resumed] at walked
      cases walked
    | ok outcome =>
      rw [resumed] at walked went
      cases outcome with
      | inl further =>
        cases went
        exact ⟨resolved, walked⟩
      | inr place =>
        cases went
        cases walked
        exact ⟨resolved, rfl⟩
  | opened canon place => cases went
  | refused canon place call reason => cases went
  | failed error => cases went

/-- Where nothing changes, a call is refused for the place that the whole path is resolved to. -/
theorem settles_refuse {request : PathRequest} {call : FileCall} {reason : String}
    {moved : PathPhase} {requests : List PathRequest}
    (settles : Settles maxLinks tree root request)
    (went : refuse { tree, root, requests } call reason request.phase = some moved) :
    Settles maxLinks tree root { request with phase := moved } := by
  obtain ⟨candidate, phase⟩ := request
  -- A file is opened at the end of the walk, and looked at where it has been opened.
  cases phase with
  | opening canon walk =>
    obtain ⟨resolved, walked⟩ := settles
    rw [Files.Tree.walk_eq_resume] at walked
    simp only [refuse] at went
    split at went
    · rename_i resumed
      rw [resumed] at walked
      cases went
      cases walked
      exact ⟨resolved, rfl⟩
    · cases went
  | opened canon place =>
    simp only [refuse] at went
    split at went
    · cases went
    · cases went
      exact settles
  | _ => cases went

/-- Where nothing changes, each step leaves every outcome what it was. -/
theorem settles_step {s next : PathRace} {action : Action} (canonical : s.tree.Canonical s.root)
    (settles : ∀ request ∈ s.requests, Settles maxLinks s.tree s.root request)
    (still : ∀ tree, action ≠ .change tree) (stepped : s.step maxLinks action = some next) :
    next.tree = s.tree ∧ next.root = s.root ∧
      ∀ request ∈ next.requests, Settles maxLinks s.tree s.root request := by
  cases action with
  | arrive candidate =>
    cases stepped
    refine ⟨rfl, rfl, fun request member => ?_⟩
    -- Nothing is said of a request that has only arrived.
    rcases List.mem_append.mp member with old | new
    · exact settles request old
    · rw [List.mem_singleton.mp new]
      trivial
  | advance number =>
    simp only [step] at stepped
    split at stepped
    · cases stepped
    · rename_i request there
      obtain ⟨phase, went, rfl⟩ := Option.map_eq_some_iff.mp stepped
      refine ⟨rfl, rfl, fun other member => ?_⟩
      -- What is decided of the others does not depend on this one.
      rcases List.mem_or_eq_of_mem_set member with old | rfl
      · exact settles other old
      · exact settles_next canonical (settles request (List.mem_of_getElem? there)) went
  | refuse number call reason =>
    simp only [step] at stepped
    split at stepped
    · cases stepped
    · rename_i request there
      obtain ⟨phase, went, rfl⟩ := Option.map_eq_some_iff.mp stepped
      refine ⟨rfl, rfl, fun other member => ?_⟩
      rcases List.mem_or_eq_of_mem_set member with old | rfl
      · exact settles other old
      · exact settles_refuse (settles request (List.mem_of_getElem? there)) went
  | change tree => exact absurd rfl (still tree)

/--
While nothing changes in the tree, a handler that looks up name by name opens the place that the
whole path is resolved to. It fails with the error with which that fails or, if the path is resolved
to a place, with the error of a call that is refused for this place.
-/
theorem still_tree_settles {actions : List Action} {last : PathRace}
    (canonical : tree.Canonical root) (still : ∀ action ∈ actions, ∀ tree, action ≠ .change tree)
    (ran : run (step maxLinks) { tree, root, requests := [] } actions = some last) :
    ∀ request ∈ last.requests,
      (∀ canon place, request.phase = .opened canon place →
        resolveIn tree maxLinks root request.candidate = .ok canon ∧ canon = .ofNames place) ∧
      ∀ error, request.phase.error = some error →
        resolveIn tree maxLinks root request.candidate = .error error ∨
        ∃ place call reason,
          resolveIn tree maxLinks root request.candidate = .ok (.ofNames place) ∧
            request.phase = .refused (.ofNames place) place call reason ∧
              error = call.error reason := by
  -- The run is one whose steps all leave the tree alone.
  have quiet : Along (step maxLinks) (fun _ action => ∀ tree, action ≠ .change tree)
      { tree, root, requests := [] } actions :=
    Along.of_forall fun action member _ => still action member
  have kept : last.tree = tree ∧ last.root = root ∧
      ∀ request ∈ last.requests, Settles maxLinks tree root request := by
    refine run_invariant_along
      (fun s => s.tree = tree ∧ s.root = root ∧
        ∀ request ∈ s.requests, Settles maxLinks tree root request) ?_ ?_ quiet ran
    · rintro s action next ⟨rfl, rfl, settles⟩ quiet stepped
      exact settles_step canonical settles quiet stepped
    · exact ⟨rfl, rfl, fun request member => absurd member List.not_mem_nil⟩
  intro request member
  have settles := kept.2.2 request member
  unfold Settles at settles
  refine ⟨fun canon place opened => ?_, fun error failed => ?_⟩
  · rw [opened] at settles
    exact settles
  · cases there : request.phase with
    | refused canon place call reason =>
      rw [there] at settles failed
      obtain ⟨resolved, rfl⟩ := settles
      cases failed
      exact .inr ⟨place, call, reason, resolved, rfl, rfl⟩
    | failed own =>
      rw [there] at settles failed
      cases failed
      exact .inl settles
    | _ =>
      -- Only these two phases are failures.
      rw [there] at failed
      cases failed

end

/-- A request that has opened what a link leads to. -/
def openedLink : PathRequest :=
  { candidate := "l", phase := .opened (.ofNames projectSource) projectSource }

/-- A request that cannot map a directory. -/
def refusedDirectory : PathRequest :=
  { candidate := ".",
    phase := .refused (.ofNames projectDir) projectDir .mmap "No such device (os error 19)" }

/-- What the one handler opens and what the other one is refused is what the paths resolve to. -/
theorem still_tree_settles_link :
    ∃ last,
      run (step 40) { tree := projectTree (.file []), root := projectDir, requests := [] }
          (.arrive "l" :: .arrive "." :: List.replicate 10 (.advance 0) ++
            List.replicate 9 (.advance 1) ++
            [.advance 0, .refuse 1 .mmap "No such device (os error 19)"]) = some last ∧
        last.requests = [openedLink, refusedDirectory] ∧
        resolveIn (projectTree (.file [])) 40 projectDir "l" = .ok (.ofNames projectSource) ∧
        ∀ error, refusedDirectory.phase.error = some error →
          resolveIn (projectTree (.file [])) 40 projectDir "." = .error error ∨
            ∃ place call reason,
              resolveIn (projectTree (.file [])) 40 projectDir "." = .ok (.ofNames place) ∧
                refusedDirectory.phase = .refused (.ofNames place) place call reason ∧
                  error = call.error reason := by
  -- The run is evaluated: one request has its file open, and the other one is refused.
  have ended : (run (step 40)
      { tree := projectTree (.file []), root := projectDir, requests := [] }
      (.arrive "l" :: .arrive "." :: List.replicate 10 (.advance 0) ++
        List.replicate 9 (.advance 1) ++
        [.advance 0, .refuse 1 .mmap "No such device (os error 19)"])).map PathRace.requests =
      some [openedLink, refusedDirectory] := by decide
  obtain ⟨last, ran, requests⟩ := Option.map_eq_some_iff.mp ended
  have settled := still_tree_settles (canonical_projectDir (.file [])) (by simp) ran
  refine ⟨last, ran, requests, ?_, ?_⟩
  · exact ((settled openedLink (by simp [requests])).1 _ _ rfl).1
  · exact (settled refusedDirectory (by simp [requests])).2

end PathRace

end McpCli
