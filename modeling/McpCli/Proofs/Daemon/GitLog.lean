import McpCli.Daemon.GitLog
import McpCli.Listing.Picks

/-! Which commits a log with a path keeps, and which of them change what is at the path. -/

namespace McpCli

open Text Listing

variable {Tree : Type}

/-- A file, or what else is not a directory. -/
def TreeEntry.isBlob : TreeEntry → Bool
  | .blob _ _ => true
  | .tree _ => false

namespace GitRepository

variable (repo : GitRepository Tree)

/-- The tree of the first parent, if there is one. -/
def parentTree (commit : CommitObject Tree) : Option Tree :=
  commit.parents.head?.bind fun first =>
    (repo.findCommit first).toOption.bind fun parent => parent.tree.toOption

/-- What the first parent has at a path. -/
def entryBefore (commit : CommitObject Tree) (path : GitPath) : Option TreeEntry :=
  (repo.parentTree commit).bind fun tree => repo.getPath tree path

/-- What a commit has at a path. -/
def entryAfter (commit : CommitObject Tree) (path : GitPath) : Option TreeEntry :=
  commit.tree.toOption.bind fun tree => repo.getPath tree path

/-- A commit and its first parent differ in what they have at a path. -/
def changes (path : List Char) (commit : CommitObject Tree) : Bool :=
  decide (repo.entryBefore commit (encodeUtf8 path) ≠ repo.entryAfter commit (encodeUtf8 path))

/-- They differ in the file at a path, where a directory is none. -/
def FileChanged (commit : CommitObject Tree) (path : GitPath) : Prop :=
  (repo.entryBefore commit path).filter TreeEntry.isBlob ≠
    (repo.entryAfter commit path).filter TreeEntry.isBlob

/-- They differ in the file at another path, which reads as the text but is not UTF-8. -/
def OtherChanged (path : List Char) (commit : CommitObject Tree) : Prop :=
  ∃ bytes, bytes ≠ encodeUtf8 path ∧ decodeLossy bytes = path ∧ repo.FileChanged commit bytes

/-- A first commit has something at the path, or a later one changes a file that reads as it. -/
def Touched (path : List Char) (commit : CommitObject Tree) : Prop :=
  if commit.parents = [] then (repo.entryAfter commit (encodeUtf8 path)).isSome = true
  else repo.FileChanged commit (encodeUtf8 path) ∨ repo.OtherChanged path commit

/-- A later commit changes what is at the path, on neither side a file, and no file reads as it. -/
def Overlooked (path : List Char) (commit : CommitObject Tree) : Prop :=
  commit.parents ≠ [] ∧ repo.changes path commit = true ∧
    (∀ entry ∈ repo.entryBefore commit (encodeUtf8 path), entry.isBlob = false) ∧
    (∀ entry ∈ repo.entryAfter commit (encodeUtf8 path), entry.isBlob = false) ∧
    ¬ repo.OtherChanged path commit

/-- A later commit leaves what is at the path as it is, but changes a file that reads as it. -/
def Mistaken (path : List Char) (commit : CommitObject Tree) : Prop :=
  commit.parents ≠ [] ∧ repo.changes path commit = false ∧ repo.OtherChanged path commit

/-- All commits of a walk are there, and so are their first parents and the trees of both. -/
structure Intact (ids : List (Except String Oid)) (history : List (Oid × CommitObject Tree)) :
    Prop where
  ids : ids = history.map fun entry => .ok entry.1
  distinct : (history.map Prod.fst).Nodup
  found : ∀ entry ∈ history, repo.findCommit entry.1 = .ok entry.2
  trees : ∀ entry ∈ history, ∃ tree, entry.2.tree = .ok tree
  parents : ∀ entry ∈ history, ∀ first ∈ entry.2.parents.head?, ∃ parent tree,
    repo.findCommit first = .ok parent ∧ parent.tree = .ok tree

/-- A difference of two trees lists each file that they differ in, and nothing else. -/
def ListsFiles : Prop :=
  ∀ old new, ∃ deltas, repo.diffTreeToTree old new = .ok deltas ∧
    ∀ path : GitPath,
      (∃ delta ∈ deltas, delta.oldFile = some path ∨ delta.newFile = some path) ↔
        (repo.getPath old path).filter TreeEntry.isBlob ≠
          (repo.getPath new path).filter TreeEntry.isBlob

variable {repo} {path : List Char}

/-- Where a side is a file, the sides differ exactly if their files do. -/
theorem fileChanged_iff {commit : CommitObject Tree} :
    repo.FileChanged commit (encodeUtf8 path) ↔ repo.changes path commit = true ∧
      ¬ ((∀ entry ∈ repo.entryBefore commit (encodeUtf8 path), entry.isBlob = false) ∧
        ∀ entry ∈ repo.entryAfter commit (encodeUtf8 path), entry.isBlob = false) := by
  unfold FileChanged changes
  rw [decide_eq_true_iff]
  -- On each side there is a file, a directory or nothing.
  cases before : repo.entryBefore commit (encodeUtf8 path) with
  | none =>
    cases after : repo.entryAfter commit (encodeUtf8 path) with
    | none => simp
    | some new => cases blob : new.isBlob <;> simp [Option.filter_some, blob]
  | some old =>
    cases after : repo.entryAfter commit (encodeUtf8 path) with
    | none => cases blob : old.isBlob <;> simp [Option.filter_some, blob]
    | some new =>
      by_cases same : old = new
      · simp [same]
      · cases one : old.isBlob <;> cases two : new.isBlob <;>
          simp [Option.filter_some, one, two, same]

/-- A first commit changes what it has. -/
theorem changes_first {commit : CommitObject Tree} (first : commit.parents = []) :
    repo.changes path commit = (repo.entryAfter commit (encodeUtf8 path)).isSome := by
  have nothing : repo.entryBefore commit (encodeUtf8 path) = none := by
    simp [entryBefore, parentTree, first]
  rw [changes, nothing]
  cases repo.entryAfter commit (encodeUtf8 path) <;> rfl

/-- A commit is touched as it changes, unless it is overlooked or mistaken. -/
theorem touched_iff_changes {commit : CommitObject Tree} :
    (repo.Touched path commit ↔ repo.changes path commit = true) ↔
      ¬ repo.Overlooked path commit ∧ ¬ repo.Mistaken path commit := by
  unfold Touched Overlooked Mistaken
  -- A first commit is touched if the path is there, which is what it changes.
  by_cases first : commit.parents = []
  · simp [first, changes_first first]
  · rw [if_neg first, fileChanged_iff, ← Bool.not_eq_true]
    tauto

/-- A file that reads as the path is the one at the path or another one. -/
theorem readable_iff {commit : CommitObject Tree} :
    (∃ bytes, decodeLossy bytes = path ∧ repo.FileChanged commit bytes) ↔
      repo.FileChanged commit (encodeUtf8 path) ∨ repo.OtherChanged path commit := by
  constructor
  · rintro ⟨bytes, reads, changed⟩
    -- Of the paths that read so, one is the encoded path itself.
    by_cases own : bytes = encodeUtf8 path
    · exact .inl (own ▸ changed)
    · exact .inr ⟨bytes, own, reads, changed⟩
  · rintro (changed | ⟨bytes, _, reads, changed⟩)
    · exact ⟨_, decodeLossy_encodeUtf8 path, changed⟩
    · exact ⟨bytes, reads, changed⟩

/-- The paths of the deltas are looked at one by one. -/
theorem any_readsAs {deltas : List GitDelta} :
    (deltas.any fun delta => readsAs path delta.newFile || readsAs path delta.oldFile) = true ↔
      ∃ bytes, decodeLossy bytes = path ∧
        ∃ delta ∈ deltas, delta.oldFile = some bytes ∨ delta.newFile = some bytes := by
  simp only [List.any_eq_true, Bool.or_eq_true, readsAs, Option.any_eq_true, decide_eq_true_eq]
  -- Both sides of a delta are looked at, the new one first.
  constructor
  · rintro ⟨delta, member, ⟨bytes, there, reads⟩ | ⟨bytes, there, reads⟩⟩
    · exact ⟨bytes, reads, delta, member, .inr there⟩
    · exact ⟨bytes, reads, delta, member, .inl there⟩
  · rintro ⟨bytes, reads, delta, member, there | there⟩
    · exact ⟨delta, member, .inr ⟨bytes, there, reads⟩⟩
    · exact ⟨delta, member, .inl ⟨bytes, there, reads⟩⟩

variable {ids : List (Except String Oid)} {history : List (Oid × CommitObject Tree)}

/-- The test of a commit that is there comes to an end, and finds out whether it is touched. -/
theorem touches_iff (intact : repo.Intact ids history) (lists : repo.ListsFiles)
    {entry : Oid × CommitObject Tree} (member : entry ∈ history) :
    ∃ touched, repo.touches path entry.2 = .ok touched ∧
      (touched = true ↔ repo.Touched path entry.2) := by
  obtain ⟨tree, own⟩ := intact.trees entry member
  unfold touches Touched
  -- A first commit is looked up at the path; the others are compared with their first parent.
  cases parents : entry.2.parents with
  | nil =>
    refine ⟨_, by rw [own], ?_⟩
    simp [entryAfter, own, Except.toOption]
  | cons first others =>
    obtain ⟨parent, parentTree, found, theirs⟩ :=
      intact.parents entry member first (by simp [parents])
    -- The deltas are those of the files that the two trees differ in.
    obtain ⟨deltas, differ, listed⟩ := lists parentTree tree
    refine ⟨deltas.any fun delta => readsAs path delta.newFile || readsAs path delta.oldFile,
      by simp only [found, own, theirs, differ], ?_⟩
    rw [if_neg (List.cons_ne_nil first others), ← readable_iff, any_readsAs]
    simp only [listed, FileChanged, entryBefore, entryAfter, GitRepository.parentTree, parents,
      List.head?_cons, Option.bind_some, found, theirs, own, Except.toOption]

/-- Whether the test finds that a commit is touched. -/
def picked (repo : GitRepository Tree) (path : List Char) (entry : Oid × CommitObject Tree) : Bool :=
  match repo.touches path entry.2 with
  | .ok touched => touched
  | .error _ => false

/-- The loop keeps what it picks, until there are enough and at least one. -/
theorem logFrom_eq {toRfc3339 : Int → Option String} {limit : Nat} {commits : List GitCommit}
    (found : ∀ entry ∈ history, repo.findCommit entry.1 = .ok entry.2)
    (tested : ∀ entry ∈ history, ∃ touched, repo.touches path entry.2 = .ok touched)
    (room : commits.length < max limit 1) :
    repo.logFrom toRfc3339 (some path) limit (history.map fun entry => .ok entry.1) commits =
      .ok
        { commits := commits ++ ((history.filter (repo.picked path)).take
            (max limit 1 - commits.length)).map fun entry =>
              gitCommit toRfc3339 entry.1 entry.2 } := by
  -- The loop goes on behind each commit, and the limit is looked at after one was kept.
  induction history generalizing commits with
  | nil => simp [logFrom]
  | cons entry rest ih =>
    obtain ⟨here, later⟩ := List.forall_mem_cons.mp found
    obtain ⟨⟨touched, test⟩, tests⟩ := List.forall_mem_cons.mp tested
    rw [List.map_cons, logFrom]
    simp only [here, keeps, test]
    have own : repo.picked path entry = touched := by rw [picked, test]
    rw [List.filter_cons, own]
    cases touched with
    | false => exact ih later tests room
    | true =>
      simp only [if_true, List.length_append, List.length_singleton]
      by_cases full : limit ≤ commits.length + 1
      · -- The one that was just added is the last one.
        have last : max limit 1 - commits.length = 1 := by omega
        rw [if_pos full, last, List.take_succ_cons, List.take_zero]
        rfl
      · -- There is room for one less than before.
        have more : max limit 1 - commits.length =
            max limit 1 - (commits ++ [gitCommit toRfc3339 entry.1 entry.2]).length + 1 := by
          rw [List.length_append, List.length_singleton]
          omega
        rw [if_neg full, ih later tests (by
          rw [List.length_append, List.length_singleton]
          omega), more, List.take_succ_cons, List.map_cons, List.append_assoc]
        rfl

/-- The commits of a walk that change what is at a path, so many at most. -/
def changing (repo : GitRepository Tree) (toRfc3339 : Int → Option String) (path : List Char)
    (limit : Nat) (history : List (Oid × CommitObject Tree)) : List GitCommit :=
  ((history.filter fun entry => repo.changes path entry.2).take limit).map fun entry =>
    gitCommit toRfc3339 entry.1 entry.2

/--
No commit is touched where none is asked for, and none of those that come before there are enough is
overlooked or mistaken.
-/
def Clear (repo : GitRepository Tree) (path : List Char) (limit : Nat)
    (history : List (Oid × CommitObject Tree)) : Prop :=
  (limit = 0 → ∀ entry ∈ history, ¬ repo.Touched path entry.2) ∧
    ∀ entry, Awaited (fun entry => repo.changes path entry.2) limit history entry →
      ¬ repo.Overlooked path entry.2 ∧ ¬ repo.Mistaken path entry.2

/-- The loop keeps the first commits that change what is at the path, exactly if all is clear. -/
theorem logFrom_iff {toRfc3339 : Int → Option String} {limit : Nat}
    (intact : repo.Intact ids history) (lists : repo.ListsFiles) :
    repo.logFrom toRfc3339 (some path) limit ids [] =
        .ok { commits := repo.changing toRfc3339 path limit history } ↔
      repo.Clear path limit history := by
  have tested (entry) (member : entry ∈ history) :=
    @touches_iff _ repo path _ _ intact lists entry member
  -- The loop gives the first commits that it picks, at least one if there is any.
  have kept := @logFrom_eq Tree repo path history toRfc3339 limit [] intact.found
    (fun entry member => (tested entry member).imp fun _ both => both.1)
    (Nat.lt_of_lt_of_le Nat.one_pos (Nat.le_max_right _ _))
  rw [List.nil_append, List.length_nil, Nat.sub_zero, ← intact.ids] at kept
  rw [kept, Except.ok.injEq, GitLogResult.mk.injEq, changing, Clear]
  have picks (entry) (member : entry ∈ history) :
      repo.picked path entry = true ↔ repo.Touched path entry.2 := by
    obtain ⟨touched, test, right⟩ := tested entry member
    rw [picked, test]
    exact right
  rcases Nat.eq_zero_or_pos limit with none_asked | asked
  · -- The loop gives one commit even then, if it picks any.
    rw [none_asked, List.take_zero, List.map_nil, List.map_eq_nil_iff, List.take_eq_nil_iff,
      List.filter_eq_nil_iff]
    constructor
    · rintro (never | none_picked)
      · cases never
      · refine ⟨fun _ entry member => ?_, fun entry awaited => absurd awaited.pos (Nat.lt_irrefl 0)⟩
        rw [← picks entry member]
        exact none_picked entry member
    · rintro ⟨untouched, _⟩
      refine .inr fun entry member => ?_
      rw [picks entry member]
      exact untouched rfl entry member
  · -- The two tests pick the same commits exactly if they agree on those that are awaited.
    have distinct : (history.map fun entry => gitCommit toRfc3339 entry.1 entry.2).Nodup :=
      .of_map GitCommit.sha (by
        rw [List.map_map]
        exact intact.distinct)
    rw [Nat.max_eq_left asked, take_filter_eq_iff distinct]
    constructor
    · intro agree
      refine ⟨fun none_asked => absurd none_asked (Nat.ne_of_gt asked), fun entry awaited => ?_⟩
      rw [← touched_iff_changes, ← picks entry awaited.mem, agree entry awaited]
    · rintro ⟨_, clear⟩ entry awaited
      have touched := touched_iff_changes.mpr (clear entry awaited)
      rw [← picks entry awaited.mem] at touched
      exact Bool.eq_iff_iff.mpr touched

end GitRepository

open GitRepository

/--
A log with a path has the first commits of the walk that change what is at the path, exactly if no
commit is touched where none is asked for, and none of those that come before there are enough is
overlooked or mistaken.
-/
theorem gitLog_path_iff {calls : GitCalls Tree} {root : AbsPath} {params : GitLogParams}
    {path : List Char} {repo : GitRepository Tree} {ids : List (Except String Oid)}
    {history : List (Oid × CommitObject Tree)} (filtered : params.path = some path)
    (opened : calls.open root params.repo = .ok repo)
    (walked : repo.walk params.revision = .ok ids) (intact : repo.Intact ids history)
    (lists : repo.ListsFiles) :
    gitLog calls root params =
        .ok { commits := repo.changing calls.toRfc3339 path params.max history } ↔
      repo.Clear path params.max history := by
  -- With a repository and a walk, what is left is the loop.
  have log : gitLog calls root params =
      repo.logFrom calls.toRfc3339 (some path) params.max ids [] := by
    simp only [gitLog, opened, walked, filtered]
  rw [log]
  exact logFrom_iff intact lists

/-- And so has the history of a path, which starts from the head. -/
theorem gitHistory_iff {calls : GitCalls Tree} {root : AbsPath} {params : GitHistoryParams}
    {repo : GitRepository Tree} {ids : List (Except String Oid)}
    {history : List (Oid × CommitObject Tree)} (opened : calls.open root params.repo = .ok repo)
    (walked : repo.walk none = .ok ids) (intact : repo.Intact ids history)
    (lists : repo.ListsFiles) :
    gitHistory calls root params =
        .ok
          { path := params.path
            commits := repo.changing calls.toRfc3339 params.path
              (params.maxCount.getD gitLogDefaultCount) history } ↔
      repo.Clear params.path (params.maxCount.getD gitLogDefaultCount) history := by
  rw [← @logFrom_iff _ repo params.path ids history calls.toRfc3339 _ intact lists]
  simp only [gitHistory, gitLog, opened, walked, GitLogParams.max]
  -- The history is the log with its path.
  cases repo.logFrom calls.toRfc3339 (some params.path)
    (params.maxCount.getD gitLogDefaultCount) ids [] with
  | error fault => simp
  | ok log => cases log; simp

/-- A tree that lists everything in it under its whole path. -/
abbrev ListedTree := List (GitPath × TreeEntry)

/-- The file at a path of such a tree. -/
def ListedTree.file (tree : ListedTree) (path : GitPath) : Option TreeEntry :=
  (tree.lookup path).filter TreeEntry.isBlob

/-- A repository of such trees, of which a walk yields all commits in order. -/
def listedRepository (history : List (Oid × CommitObject ListedTree)) :
    GitRepository ListedTree where
  revwalk := .ok ()
  revparseSingle rev := .ok rev
  push _ := .ok (history.map fun entry => .ok entry.1)
  pushHead := .ok (history.map fun entry => .ok entry.1)
  findCommit id :=
    match history.lookup id with
    | some commit => .ok commit
    | none => .error "not found"
  diffTreeToTree old new :=
    let paths := (old ++ new).map Prod.fst
    let changed := paths.filter fun path =>
      ListedTree.file old path ≠ ListedTree.file new path
    .ok (changed.map fun path => { oldFile := some path, newFile := some path })
  getPath tree path := tree.lookup path

/-- A path that is not in the list has no file. -/
theorem ListedTree.file_absent {tree : ListedTree} {path : GitPath}
    (absent : path ∉ tree.map Prod.fst) : tree.file path = none := by
  have nothing : tree.lookup path = none := by
    rw [List.lookup_eq_none_iff]
    intro entry member
    exact bne_iff_ne.mpr fun same => absent (List.mem_map.mpr ⟨entry, member, same.symm⟩)
  rw [ListedTree.file, nothing]
  rfl

/-- Its differences list the files that differ. -/
theorem listedRepository_listsFiles (history : List (Oid × CommitObject ListedTree)) :
    (listedRepository history).ListsFiles := by
  intro old new
  refine ⟨_, rfl, fun path => ?_⟩
  simp only [List.mem_map, List.mem_filter, decide_eq_true_eq]
  constructor
  · rintro ⟨delta, ⟨other, ⟨_, differ⟩, rfl⟩, same⟩
    obtain rfl : other = path := by simpa using same
    exact differ
  · intro differ
    -- A file that differs is listed on one of the sides.
    refine ⟨_, ⟨path, ⟨?_, differ⟩, rfl⟩, .inl rfl⟩
    by_contra absent
    -- On neither side there is a file.
    have missing (tree : ListedTree) (within : tree ⊆ old ++ new) : tree.file path = none := by
      refine ListedTree.file_absent fun there => absent ?_
      obtain ⟨entry, member, same⟩ := List.mem_map.mp there
      exact ⟨entry, within member, same⟩
    apply differ
    exact (missing old (List.subset_append_left old new)).trans
      (missing new (List.subset_append_right old new)).symm

/-- A repository as a request finds it at the project root. -/
def listedCalls (history : List (Oid × CommitObject ListedTree)) : GitCalls ListedTree where
  resolveWithin path := .ok path
  discover _ := .ok (listedRepository history)
  toRfc3339 _ := none

/-- A path as a tree has it. -/
def gitPath (path : String) : GitPath := encodeUtf8 path.toList

/-- A file in a directory is added, and then it is changed. -/
def twoCommits : List (Oid × CommitObject ListedTree) :=
  [("c2",
      { parents := ["c1"]
        tree := .ok [(gitPath "src", .tree "t2"), (gitPath "src/a", .blob 0o100644 "b2")]
        author := none
        seconds := 2
        summary := some "Second commit" }),
    ("c1",
      { parents := []
        tree := .ok [(gitPath "src", .tree "t1"), (gitPath "src/a", .blob 0o100644 "b1")]
        author := none
        seconds := 1
        summary := some "First commit" })]

/-- All of them are there. -/
theorem twoCommits_intact :
    (listedRepository twoCommits).Intact (twoCommits.map fun entry => .ok entry.1) twoCommits := by
  refine ⟨rfl, by decide, ?_, ?_, ?_⟩
  · exact List.forall_mem_cons.mpr ⟨rfl, List.forall_mem_singleton.mpr rfl⟩
  · exact List.forall_mem_cons.mpr ⟨⟨_, rfl⟩, List.forall_mem_singleton.mpr ⟨_, rfl⟩⟩
  · refine List.forall_mem_cons.mpr ⟨?_, List.forall_mem_singleton.mpr ?_⟩
    · -- Only the second commit has a parent, and that is the first one.
      rintro first ⟨⟩
      exact ⟨_, _, rfl, rfl⟩
    · rintro first ⟨⟩

/-- A log of some path. -/
def logOf (path : String) : GitLogParams where
  repo := none
  maxCount := none
  revision := none
  path := some path.toList

/-- The log of the file has both commits. -/
theorem gitLog_path_file :
    gitLog (listedCalls twoCommits) ["p"] (logOf "src/a") =
      .ok { commits := twoCommits.map fun entry => gitCommit (fun _ => none) entry.1 entry.2 } := by
  refine (@gitLog_path_iff _ (listedCalls twoCommits) ["p"] (logOf "src/a") "src/a".toList _ _ _ rfl
    rfl rfl twoCommits_intact (listedRepository_listsFiles _)).mpr ⟨?_, ?_⟩
  · intro none_asked
    cases none_asked
  · intro entry awaited
    -- The second commit changes the file from another one, and the first one has no parent.
    rcases List.mem_cons.mp awaited.mem with rfl | first
    · constructor
      · rintro ⟨_, _, before, _⟩
        cases before (.blob 0o100644 "b1") rfl
      · rintro ⟨_, unchanged, _⟩
        cases unchanged
    · cases List.mem_singleton.mp first
      exact ⟨fun overlooked => overlooked.1 rfl, fun mistaken => mistaken.1 rfl⟩

/-- The log of the directory lacks the commit that changes the file in it. -/
theorem gitLog_path_directory :
    gitLog (listedCalls twoCommits) ["p"] (logOf "src") =
        .ok { commits := [gitCommit (fun _ => none) "c1" twoCommits[1].2] } ∧
      (twoCommits.filter fun entry => (listedRepository twoCommits).changes "src".toList entry.2) =
        twoCommits := by
  refine ⟨?_, ?_⟩
  · decide +kernel
  · rfl

end McpCli
