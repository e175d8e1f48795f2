import McpCli.Daemon.GitStatus
import McpCli.Proofs.Daemon.Compact
import McpCli.Text.Joined

/-! What the texts and the roll-up of `git.status` tell of the flags of the files. -/

namespace McpCli

open Listing Text

/-- The flags that are written in a text. -/
def flagsOf (text : List Char) : GitFlags := fun flag =>
  decide (flag.name.toList ∈ text.splitOn ',')

/-- The class of a file: the most actionable one of its flags. -/
def classOf (status : GitFlags) : String :=
  if status .conflicted then "conflicted"
  else if status .indexDeleted || status .wtDeleted then "deleted"
  else if status .indexRenamed || status .wtRenamed then "renamed"
  else if status .indexTypechange || status .wtTypechange then "typechange"
  else if status .indexModified || status .wtModified then "modified"
  else if status .wtNew || status .indexNew then "untracked"
  else if status .ignored then "ignored"
  else "clean"

/-- All flags are looked at. -/
@[simp] theorem StatusFlag.mem_all (flag : StatusFlag) : flag ∈ all := by
  cases flag <;> decide

/-- No two flags are written alike. -/
theorem StatusFlag.name_inj {one other : StatusFlag} (same : one.name.toList = other.name.toList) :
    one = other := by
  revert same
  cases one <;> cases other <;> decide

/-- No flag is written with a comma. -/
theorem StatusFlag.comma_name (flag : StatusFlag) : ',' ∉ flag.name.toList := by
  cases flag <;> decide

/-- The parts that a status is written with. -/
def flagTexts (status : GitFlags) : List (List Char) :=
  (StatusFlag.all.filter status).map fun flag => flag.name.toList

/-- The text of a flag is one of the parts if the flag is set. -/
theorem mem_flagTexts {status : GitFlags} {flag : StatusFlag} :
    flag.name.toList ∈ flagTexts status ↔ status flag = true := by
  simp only [flagTexts, List.mem_map, List.mem_filter, StatusFlag.mem_all, true_and]
  constructor
  · rintro ⟨other, there, same⟩
    rw [← StatusFlag.name_inj same]
    exact there
  · exact fun there => ⟨flag, there, rfl⟩

/-- No part has a comma. -/
theorem comma_flagTexts (status : GitFlags) : ∀ part ∈ flagTexts status, ',' ∉ part := by
  intro part member
  obtain ⟨flag, _, rfl⟩ := List.mem_map.mp member
  exact flag.comma_name

/-- The flags can be read back from the text. -/
theorem flagsOf_formatStatus (status : GitFlags) : flagsOf (formatStatus status) = status := by
  funext flag
  -- No flag is written as the word for a file without flags.
  have clean : flag.name.toList ∉ "clean".toList.splitOn ',' := by
    cases flag <;> decide
  by_cases none_ : flagTexts status = []
  · -- Without any flag, the text is another word.
    have text : formatStatus status = "clean".toList := if_pos none_
    have off : status flag = false := by
      rw [Bool.eq_false_iff]
      intro on
      have there := mem_flagTexts.mpr on
      rw [none_] at there
      cases there
    rw [flagsOf, text, off, decide_eq_false clean]
  · have text : formatStatus status = [','].intercalate (flagTexts status) := if_neg none_
    rw [flagsOf, text, List.splitOn_intercalate ',' (comma_flagTexts status) none_]
    exact (Bool.eq_iff_iff).mpr (decide_eq_true_iff.trans mem_flagTexts)

/-- A word is found in a status if it is found in a flag that is set. -/
theorem hasFlag_formatStatus (status : GitFlags) {word : String} (some_ : word.toList ≠ [])
    (solid : ',' ∉ word.toList) (apart : hasFlag word "clean".toList = false) :
    hasFlag word (formatStatus status) =
      StatusFlag.all.any fun flag => status flag && hasFlag word flag.name.toList := by
  rw [Bool.eq_iff_iff, List.any_eq_true]
  by_cases none_ : flagTexts status = []
  · have text : formatStatus status = "clean".toList := if_pos none_
    rw [text, apart]
    -- No flag is set, so that the word is found in none that is.
    refine iff_of_false Bool.false_ne_true ?_
    rintro ⟨flag, _, both⟩
    have there := mem_flagTexts.mpr ((Bool.and_eq_true _ _).mp both).1
    rw [none_] at there
    cases there
  · have text : formatStatus status = [','].intercalate (flagTexts status) := if_neg none_
    rw [text, hasFlag, contains_iff, infix_intercalate solid some_]
    -- The parts are the flags that are set.
    constructor
    · rintro ⟨part, member, found⟩
      obtain ⟨flag, set, rfl⟩ := List.mem_map.mp member
      have on : status flag = true := (List.mem_filter.mp set).2
      exact ⟨flag, StatusFlag.mem_all flag, (Bool.and_eq_true _ _).mpr ⟨on, contains_iff.mpr found⟩⟩
    · rintro ⟨flag, _, both⟩
      obtain ⟨set, found⟩ := (Bool.and_eq_true _ _).mp both
      exact ⟨_, mem_flagTexts.mpr set, contains_iff.mp found⟩

/-- A word is found in a status if one of the flags is set whose names it is found in. -/
theorem hasFlag_eq (status : GitFlags) (word : String) (flags : List StatusFlag)
    (word_ : word.toList ≠ [] ∧ ',' ∉ word.toList ∧ hasFlag word "clean".toList = false ∧
      (StatusFlag.all.filter fun flag => hasFlag word flag.name.toList) = flags) :
    hasFlag word (formatStatus status) = flags.any status := by
  obtain ⟨some_, solid, apart, named⟩ := word_
  rw [hasFlag_formatStatus status some_ solid apart, ← named, List.any_filter]
  exact congrArg _ (funext fun flag => Bool.and_comm _ _)

/-- The words that are looked for in the text tell the class of the flags. -/
theorem primaryStatusClass_formatStatus (status : GitFlags) :
    primaryStatusClass (formatStatus status) = classOf status := by
  -- Each word that is looked for stands for the flags whose names it is in.
  rw [primaryStatusClass, hasFlag_eq status "conflicted" [.conflicted] (by decide),
    hasFlag_eq status "deleted" [.indexDeleted, .wtDeleted] (by decide),
    hasFlag_eq status "renamed" [.indexRenamed, .wtRenamed] (by decide),
    hasFlag_eq status "typechange" [.indexTypechange, .wtTypechange] (by decide),
    hasFlag_eq status "modified" [.indexModified, .wtModified] (by decide),
    hasFlag_eq status "wt_new" [.wtNew] (by decide),
    hasFlag_eq status "index_new" [.indexNew] (by decide),
    hasFlag_eq status "ignored" [.ignored] (by decide)]
  simp only [List.any_cons, List.any_nil, Bool.or_false]
  rfl

/-- Only a file without any flag is clean. -/
theorem classOf_eq_clean {status : GitFlags} :
    classOf status = "clean" ↔ ∀ flag, status flag = false := by
  constructor
  · intro clean flag
    unfold classOf at clean
    -- Each class but the last one is another word.
    split_ifs at clean with conflicted deleted renamed typechange modified untracked ignored
    case neg =>
      simp only [Bool.or_eq_true, not_or, Bool.not_eq_true] at *
      cases flag <;> simp only [*]
    all_goals exact absurd clean (by decide)
  · intro none_
    simp [classOf, none_]

/-- The files with paths that are texts. -/
def namedFiles (statuses : List (Option (List Char) × GitFlags)) : List (List Char × GitFlags) :=
  statuses.filterMap fun file => file.1.map fun path => (path, file.2)

/-- Their paths, as far as they are of one class. -/
def filesOf (files : List (List Char × GitFlags)) (statusClass : String) : List (List Char) :=
  (files.filter fun file => classOf file.2 = statusClass).map Prod.fst

/-- What a roll-up tells of some files. -/
structure StatusLaws (files : List (List Char × GitFlags)) (compact : GitStatusCompact) : Prop where
  /-- All files are counted that have any flag. -/
  total : compact.total = files.countP fun file => StatusFlag.all.any file.2
  conserved : compact.total = (compact.byClass.map GitStatusClassBucket.count).sum
  nodup : (compact.byClass.map GitStatusClassBucket.statusClass).Nodup
  classes : ∀ statusClass, statusClass ∈ compact.byClass.map GitStatusClassBucket.statusClass ↔
    statusClass ≠ "clean" ∧ filesOf files statusClass ≠ []
  count : ∀ bucket ∈ compact.byClass, bucket.count = (filesOf files bucket.statusClass).length
  rows : ∀ bucket ∈ compact.byClass,
    TopRows gitStatusTopDirsPerClass otherDir ((filesOf files bucket.statusClass).map parentDirStr)
      (bucket.byDir.map fun row => (row.dir, row.count))

/-- The rows are those of the files with paths that are texts. -/
theorem filterMap_statusEntry (statuses : List (Option (List Char) × GitFlags)) :
    statuses.filterMap statusEntry = (namedFiles statuses).map fun file =>
      { path := file.1, status := formatStatus file.2 } := by
  rw [namedFiles, List.map_filterMap]
  refine List.filterMap_congr fun file _ => ?_
  obtain ⟨path, status⟩ := file
  cases path with
  | none => rfl
  | some path => rfl

/-- The files that are counted for a class are those that have it. -/
theorem ofClass_entries (files : List (List Char × GitFlags)) {statusClass : String}
    (dirty : statusClass ≠ "clean") :
    (ofClass (files.map fun file => { path := file.1, status := formatStatus file.2 })
      statusClass).map GitStatusEntry.path = filesOf files statusClass := by
  rw [ofClass, changed, List.filter_filter, List.filter_map, List.map_map, filesOf]
  have same : ((fun entry : GitStatusEntry =>
      decide (primaryStatusClass entry.status = statusClass) &&
        decide (primaryStatusClass entry.status ≠ "clean")) ∘
        fun file : List Char × GitFlags => { path := file.1, status := formatStatus file.2 }) =
      fun file => decide (classOf file.2 = statusClass) := by
    -- No file of another class than the clean one is clean.
    funext file
    simp only [Function.comp_apply, primaryStatusClass_formatStatus]
    by_cases own : classOf file.2 = statusClass
    · simp [own, dirty]
    · simp [own]
  rw [same]
  rfl

/-- The roll-up of the rows tells of the flags of the files. -/
theorem gitStatusCompact_flags (files : List (List Char × GitFlags)) :
    StatusLaws files (gitStatusCompact
      (files.map fun file => { path := file.1, status := formatStatus file.2 })
      gitStatusTopDirsPerClass) := by
  have laws := gitStatusCompact_laws
    (files.map fun file => { path := file.1, status := formatStatus file.2 })
    gitStatusTopDirsPerClass
  have classes (statusClass : String) := laws.classes statusClass
  -- No clean file is counted, so that there is no bucket for them.
  have dirty (statusClass : String) (listed : statusClass ∈ (gitStatusCompact
      (files.map fun file => { path := file.1, status := formatStatus file.2 })
      gitStatusTopDirsPerClass).byClass.map GitStatusClassBucket.statusClass) :
      statusClass ≠ "clean" := by
    obtain ⟨entry, member, rfl⟩ := (classes statusClass).mp listed
    exact of_decide_eq_true (List.mem_filter.mp member).2
  refine ⟨?_, laws.conserved, laws.nodup, fun statusClass => ?_, fun bucket member => ?_,
    fun bucket member => ?_⟩
  · rw [laws.total, changed, List.filter_map, List.length_map, ← List.countP_eq_length_filter]
    -- A file is dirty if any of its flags is set.
    congr 1
    funext file
    rw [Bool.eq_iff_iff, Function.comp_apply, primaryStatusClass_formatStatus,
      decide_eq_true_iff, Ne, classOf_eq_clean, List.any_eq_true]
    simp
  · by_cases clean : statusClass = "clean"
    · exact iff_of_false (fun listed => dirty statusClass listed clean) fun both => both.1 clean
    · rw [classes, ← ofClass_ne_nil, ← ofClass_entries files clean, Ne, Ne, Ne, List.map_eq_nil_iff]
      exact (and_iff_right clean).symm
  · have own := dirty bucket.statusClass (List.mem_map_of_mem member)
    rw [laws.count bucket member, ← ofClass_entries files own, List.length_map]
  · have own := dirty bucket.statusClass (List.mem_map_of_mem member)
    rw [← ofClass_entries files own, List.map_map]
    exact laws.rows bucket member

/--
From the plain answer the flags of every file can be read back; the compact one is about the same
files: it counts those that have any flag by the most actionable one that they have, and by their
directories. What is recorded is the size of the plain answer beside that of the one given.
-/
theorem git_status_tells_flags (calls : StatusCalls) (root : AbsPath)
    (serializedSize : GitStatusResult → UInt64) (repo : Option RelPath)
    {plain : GitStatusResult × MetricsCall}
    (answered : gitStatus calls root serializedSize { repo, compact := false } = .ok plain) :
    ∃ found statuses rolled compact, calls.open root repo = .ok found ∧
      found.statuses = .ok statuses ∧
      gitStatus calls root serializedSize { repo, compact := true } = .ok rolled ∧
      plain.1.entries.map (fun entry => (entry.path, flagsOf entry.status)) = namedFiles statuses ∧
      rolled.1 = { plain.1 with entries := [], compact := some compact } ∧
      StatusLaws (namedFiles statuses) compact ∧
      plain.2 = .record "git.status" (serializedSize plain.1) (serializedSize plain.1) ∧
      rolled.2 = .record "git.status" (serializedSize plain.1) (serializedSize rolled.1) := by
  rw [gitStatus] at answered
  rw [gitStatus]
  cases opened : calls.open root repo with
  | error error =>
    rw [opened] at answered
    cases answered
  | ok found =>
    cases listed : found.statuses with
    | error e =>
      simp only [opened, listed] at answered
      cases answered
    | ok statuses =>
      simp only [opened, listed, Bool.false_eq_true, if_false, Except.ok.injEq] at answered
      -- Both answers are made of the same files.
      subst answered
      simp only [listed, if_true]
      refine ⟨found, statuses, _, _, rfl, listed, rfl, ?_, rfl, ?_, trivial, rfl⟩
      · -- A row is the file as it is written.
        rw [filterMap_statusEntry, List.map_map]
        simp only [Function.comp_def, flagsOf_formatStatus]
        exact List.map_id _
      · rw [filterMap_statusEntry]
        exact gitStatusCompact_flags (namedFiles statuses)

/-- A repository with two files that are texts, and one that has more than one flag. -/
def twoFlags : StatusCalls where
  resolveWithin _ := .ok []
  discover _ := .ok
    { head := some { shorthand := some "main", target := none }
      statuses := .ok
        [(some "src/a.rs".toList, fun flag => flag = .indexModified || flag = .wtDeleted),
          (none, fun flag => flag = .wtNew), (some "b.rs".toList, fun flag => flag = .wtNew)] }

/-- The file with two flags is counted as deleted. -/
theorem git_status_tells_flags_two :
    ∃ found statuses rolled compact, twoFlags.open [] none = .ok found ∧
      found.statuses = .ok statuses ∧
      gitStatus twoFlags [] (fun _ => 0) { repo := none, compact := true } = .ok rolled ∧
      rolled.1.compact = some compact ∧ StatusLaws (namedFiles statuses) compact ∧
      (filesOf (namedFiles statuses) "deleted") = ["src/a.rs".toList] := by
  obtain ⟨found, statuses, rolled, compact, opened, listed, answered, _, same, laws, _⟩ :=
    git_status_tells_flags twoFlags [] (fun _ => 0) none rfl
  cases opened
  cases listed
  exact ⟨_, _, rolled, compact, rfl, rfl, answered, by rw [same], laws, by decide⟩

end McpCli
