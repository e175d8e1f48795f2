import McpCli.Daemon.Compact

/-! What the roll-ups add up to, and in which order their rows stand. -/

namespace McpCli

open Listing

/-- The entries of a status that are not clean. -/
def changed (entries : List GitStatusEntry) : List GitStatusEntry :=
  entries.filter fun entry => primaryStatusClass entry.status ≠ "clean"

/-- Those of one class. -/
def ofClass (entries : List GitStatusEntry) (statusClass : String) : List GitStatusEntry :=
  (changed entries).filter fun entry => primaryStatusClass entry.status = statusClass

/-- The classes and counts of a roll-up of a status. -/
structure GitStatusLaws (entries : List GitStatusEntry) (top : Nat) (compact : GitStatusCompact) :
    Prop where
  total : compact.total = (changed entries).length
  conserved : compact.total = (compact.byClass.map GitStatusClassBucket.count).sum
  nodup : (compact.byClass.map GitStatusClassBucket.statusClass).Nodup
  classes : ∀ statusClass, statusClass ∈ compact.byClass.map GitStatusClassBucket.statusClass ↔
    ∃ entry ∈ changed entries, primaryStatusClass entry.status = statusClass
  ordered : compact.byClass.Pairwise fun one other =>
    other.count < one.count ∨ one.count = other.count ∧ one.statusClass < other.statusClass
  count : ∀ bucket ∈ compact.byClass, bucket.count = (ofClass entries bucket.statusClass).length
  rows : ∀ bucket ∈ compact.byClass,
    TopRows top otherDir
      ((ofClass entries bucket.statusClass).map fun entry => parentDirStr entry.path)
      (bucket.byDir.map fun row => (row.dir, row.count))

/-- The counts of a roll-up of a scan. -/
structure FsScanLaws (files : List (List Char)) (top : Nat) (compact : FsScanCompact) : Prop where
  total : compact.total = files.length
  rows : TopRows top otherDir (files.map parentDirStr)
    (compact.byDir.map fun row => (row.dir, row.count))

/-- A bucket has the rows for its directories. -/
theorem classBucket_byDir (top : Nat) (statusClass : String) (dirs : List (List Char × Nat)) :
    ((classBucket top statusClass dirs).byDir.map fun row => (row.dir, row.count)) =
      cutRows top otherDir (rank dirs) := by
  unfold classBucket cutRows
  -- A last row is added only where there are more directories than rows.
  by_cases more : top < (rank dirs).length
  · have rest : (rank dirs).drop top ≠ [] := by
      rw [Ne, List.drop_eq_nil_iff]
      exact Nat.not_le.mpr more
    simp only [more, if_true, List.splitAt_eq, rest, if_false, List.map_append, List.map_map]
    exact congrArg₂ _ (List.map_id _) rfl
  · simp only [more, if_false, if_true, List.map_map, List.append_nil,
      List.take_of_length_le (Nat.le_of_not_lt more)]
    exact List.map_id _

/-- A bucket has as many entries as its directories. -/
theorem classBucket_count (top : Nat) (statusClass : String) (dirs : List (List Char × Nat)) :
    (classBucket top statusClass dirs).count = (dirs.map Prod.snd).sum :=
  ((rank_perm dirs).map Prod.snd).sum_nat

/-- All counts by class and directory together. -/
def StatusCounts.sum (counts : StatusCounts) : Nat :=
  (counts.byClass.map fun entry => (entry.2.map Prod.snd).sum).sum

/-- A count in a directory that grows makes the directories together grow. -/
theorem sum_dirs (dir : List Char) (dirs : List (List Char × Nat)) :
    ((upsert dir (fun count => count.getD 0 + 1) dirs).map Prod.snd).sum =
      (dirs.map Prod.snd).sum + 1 :=
  @sum_upsert _ Nat _ id (fun count => count.getD 0 + 1) rfl (fun _ => rfl) dir dirs

/-- Counting an entry keeps the counts together at the total. -/
theorem countEntry_sum {counts : StatusCounts} (kept : counts.total = counts.sum)
    (entry : GitStatusEntry) : (countEntry counts entry).total = (countEntry counts entry).sum := by
  -- A clean entry is not counted; any other one counts once in its class and in the total.
  by_cases clean : primaryStatusClass entry.status = "clean"
  · simpa only [countEntry, if_pos clean] using kept
  · have grown := @sum_upsert _ _ _ (fun dirs => (dirs.map Prod.snd).sum)
      (fun dirs => upsert (parentDirStr entry.path) (fun count => count.getD 0 + 1) (dirs.getD []))
      rfl (sum_dirs (parentDirStr entry.path)) (primaryStatusClass entry.status) counts.byClass
    simp only [countEntry, if_neg clean, StatusCounts.sum, grown]
    exact congrArg Nat.succ kept

/-- So does counting one entry after another. -/
theorem foldl_countEntry_sum (entries : List GitStatusEntry) {counts : StatusCounts}
    (kept : counts.total = counts.sum) :
    (entries.foldl countEntry counts).total = (entries.foldl countEntry counts).sum := by
  induction entries generalizing counts with
  | nil => exact kept
  | cons entry rest ih => exact ih (countEntry_sum kept entry)

/-- What counts for an entry: one more in its directory. -/
def addEntry (dirs : Option (List (List Char × Nat))) (entry : GitStatusEntry) :
    List (List Char × Nat) :=
  upsert (parentDirStr entry.path) (fun count => count.getD 0 + 1) (dirs.getD [])

/-- The entries that are not clean are grouped by class, and counted. -/
theorem foldl_countEntry (entries : List GitStatusEntry) (counts : StatusCounts) :
    entries.foldl countEntry counts =
      { byClass := (changed entries).foldl
          (fun map entry => upsert (primaryStatusClass entry.status)
            (fun old => addEntry old entry) map) counts.byClass
        total := counts.total + (changed entries).length } := by
  -- The counts before are arbitrary, as they grow with each entry.
  induction entries generalizing counts with
  | nil => rfl
  | cons entry rest ih =>
    rw [List.foldl_cons, ih]
    by_cases clean : primaryStatusClass entry.status = "clean"
    · simp [countEntry, changed, clean]
    · have kept : changed (entry :: rest) = entry :: changed rest := by simp [changed, clean]
      rw [kept, List.foldl_cons, List.length_cons]
      simp only [countEntry, if_neg clean, Nat.add_assoc, Nat.add_comm 1]
      rfl

/-- The counts of a status. -/
def statusCounts (entries : List GitStatusEntry) : StatusCounts :=
  entries.foldl countEntry { byClass := [], total := 0 }

/-- The classes are in order. -/
theorem statusCounts_sorted (entries : List GitStatusEntry) :
    KeySorted (statusCounts entries).byClass := by
  rw [statusCounts, foldl_countEntry]
  exact group_sorted (changed entries)

/-- A class has the count of each directory, if any entry is of it. -/
theorem valueAt_statusCounts (entries : List GitStatusEntry) (statusClass : String) :
    valueAt statusClass (statusCounts entries).byClass =
      if ofClass entries statusClass = [] then none
      else some (tally ((ofClass entries statusClass).map fun entry => parentDirStr entry.path)) := by
  rw [statusCounts, foldl_countEntry]
  -- A class is the group of its entries, and the directories in it are tallied.
  refine (valueAt_group (changed entries) statusClass).trans ?_
  refine (foldl_some (fun dirs entry => addEntry (some dirs) entry) []
    (ofClass entries statusClass) none).trans ?_
  rw [tally, group, List.foldl_map]
  rfl

/-- The entries of a class are those that are not clean and have it. -/
theorem ofClass_ne_nil {entries : List GitStatusEntry} {statusClass : String} :
    ofClass entries statusClass ≠ [] ↔
      ∃ entry ∈ changed entries, primaryStatusClass entry.status = statusClass := by
  rw [Ne, ofClass, List.filter_eq_nil_iff]
  simp

/-- The classes that have counts, with their counts. -/
theorem mem_statusCounts {entries : List GitStatusEntry} {statusClass : String}
    {dirs : List (List Char × Nat)} :
    (statusClass, dirs) ∈ (statusCounts entries).byClass ↔ ofClass entries statusClass ≠ [] ∧
      dirs = tally ((ofClass entries statusClass).map fun entry => parentDirStr entry.path) := by
  rw [← valueAt_eq_some (statusCounts_sorted entries), valueAt_statusCounts]
  -- A class without entries has no counts.
  by_cases none_there : ofClass entries statusClass = []
  · simp [none_there]
  · simp [none_there, eq_comm]

/-- The order of the entries does not count. -/
theorem statusCounts_perm {entries entries' : List GitStatusEntry} (perm : entries.Perm entries') :
    statusCounts entries = statusCounts entries' := by
  have own (statusClass : String) : (ofClass entries statusClass).Perm
      (ofClass entries' statusClass) := (perm.filter _).filter _
  -- Sorted maps with the same counts are the same.
  have byClass : (statusCounts entries).byClass = (statusCounts entries').byClass := by
    refine (statusCounts_sorted entries).ext (statusCounts_sorted entries') fun statusClass => ?_
    rw [valueAt_statusCounts, valueAt_statusCounts, tally_perm ((own statusClass).map _)]
    have both : ofClass entries statusClass = [] ↔ ofClass entries' statusClass = [] := by
      rw [← List.length_eq_zero_iff, ← List.length_eq_zero_iff, (own statusClass).length_eq]
    simp only [both]
  have total : (statusCounts entries).total = (statusCounts entries').total := by
    rw [statusCounts, statusCounts, foldl_countEntry, foldl_countEntry]
    exact congrArg (0 + ·) (perm.filter _).length_eq
  calc statusCounts entries
      = ⟨(statusCounts entries).byClass, (statusCounts entries).total⟩ := rfl
    _ = ⟨(statusCounts entries').byClass, (statusCounts entries').total⟩ := by rw [byClass, total]

section

variable (entries : List GitStatusEntry) (top : Nat)

/-- The buckets of the classes, before they are put in order. -/
def classBuckets : List GitStatusClassBucket :=
  (statusCounts entries).byClass.map fun dirs => classBucket top dirs.1 dirs.2

/-- The buckets of a roll-up are those, in another order. -/
theorem byClass_perm : (gitStatusCompact entries top).byClass.Perm (classBuckets entries top) :=
  sortByKey_perm (fun bucket : GitStatusClassBucket => weight (bucket.statusClass, bucket.count))
    (classBuckets entries top)

/-- A bucket of a roll-up is that of a class. -/
theorem mem_byClass {bucket : GitStatusClassBucket}
    (member : bucket ∈ (gitStatusCompact entries top).byClass) :
    ofClass entries bucket.statusClass ≠ [] ∧
      bucket = classBucket top bucket.statusClass
        (tally ((ofClass entries bucket.statusClass).map fun entry => parentDirStr entry.path)) := by
  obtain ⟨⟨statusClass, dirs⟩, there, rfl⟩ :=
    List.mem_map.mp ((byClass_perm entries top).mem_iff.mp member)
  obtain ⟨some_, rfl⟩ := mem_statusCounts.mp there
  exact ⟨some_, rfl⟩

/-- The classes of a roll-up are those of the counts. -/
theorem classes_perm :
    ((gitStatusCompact entries top).byClass.map GitStatusClassBucket.statusClass).Perm
      ((statusCounts entries).byClass.map Prod.fst) := by
  refine ((byClass_perm entries top).map _).trans ?_
  rw [classBuckets, List.map_map]
  exact .refl _

/-- A roll-up of a status conserves its entries. -/
theorem gitStatusCompact_laws : GitStatusLaws entries top (gitStatusCompact entries top) where
  total := by
    -- Every entry that is not clean was counted in the total.
    have counted : (gitStatusCompact entries top).total = (statusCounts entries).total := rfl
    rw [counted, statusCounts, foldl_countEntry]
    exact Nat.zero_add _
  conserved := by
    -- The total was kept at the sum while counting, and the buckets are the counts in another
    -- order.
    have kept := @foldl_countEntry_sum entries { byClass := [], total := 0 } rfl
    refine kept.trans (Eq.symm ?_)
    rw [((byClass_perm entries top).map GitStatusClassBucket.count).sum_nat, classBuckets,
      List.map_map]
    simp only [Function.comp_def, classBucket_count]
    rfl
  nodup := (classes_perm entries top).nodup_iff.mpr (statusCounts_sorted entries).nodup
  classes := by
    intro statusClass
    rw [(classes_perm entries top).mem_iff, ← ofClass_ne_nil, List.mem_map]
    constructor
    · rintro ⟨⟨_, dirs⟩, there, rfl⟩
      exact (mem_statusCounts.mp there).1
    · intro some_
      exact ⟨(statusClass, _), mem_statusCounts.mpr ⟨some_, rfl⟩, rfl⟩
  ordered := by
    -- No two buckets have the same class.
    refine @pairwise_weight _ String _ GitStatusClassBucket.statusClass GitStatusClassBucket.count
      (classBuckets entries top) ?_
    rw [classBuckets, List.map_map]
    exact (statusCounts_sorted entries).nodup
  count := by
    intro bucket member
    obtain ⟨_, own⟩ := mem_byClass entries top member
    -- The tally of the directories of a class sums up to its entries.
    rw [own, classBucket_count, sum_tally, List.length_map]
    rfl
  rows := by
    intro bucket member
    obtain ⟨_, own⟩ := mem_byClass entries top member
    rw [own, classBucket_byDir]
    exact topRows_cutRows top otherDir _

end

/-- The rows of a roll-up of a scan. -/
theorem fsScanCompact_eq (files : List (List Char)) (top : Nat) :
    fsScanCompact files top =
      { byDir := (cutRows top otherDir (rank (tally (files.map parentDirStr)))).map fun row =>
          { dir := row.1, count := row.2 }
        total := files.length } := by
  -- The loop over the files tallies their directories.
  have counted : files.foldl
      (fun byDir file => upsert (parentDirStr file) (fun count => count.getD 0 + 1) byDir) [] =
        tally (files.map parentDirStr) := by
    rw [tally, group, List.foldl_map]
    rfl
  rw [fsScanCompact, counted, cutRows]
  simp only [List.length_map]
  -- Without a last row, all rows are shown.
  split
  · rw [List.map_append, List.map_take, ← List.map_drop, List.map_map]
    rfl
  · rename_i fits
    rw [List.append_nil, List.take_of_length_le (Nat.le_of_not_lt fits)]

/-- A roll-up of a scan conserves its files. -/
theorem fsScanCompact_laws (files : List (List Char)) (top : Nat) :
    FsScanLaws files top (fsScanCompact files top) where
  total := rfl
  rows := by
    -- The buckets are the rows of the cut table, written as records.
    rw [fsScanCompact_eq, List.map_map]
    have back : ((fun row : FsScanDirBucket => (row.dir, row.count)) ∘
        fun row : List Char × Nat => { dir := row.1, count := row.2 }) = id := rfl
    rw [back, List.map_id]
    exact topRows_cutRows top otherDir (files.map parentDirStr)

/--
The roll-up of a status counts the entries that are not clean, by class and by directory, whatever
their order, and so does that of a scan count the files by directory.
-/
theorem compact_laws :
    (∀ entries top, GitStatusLaws entries top (gitStatusCompact entries top)) ∧
      (∀ entries entries' top, entries.Perm entries' →
        gitStatusCompact entries top = gitStatusCompact entries' top) ∧
      (∀ files top, FsScanLaws files top (fsScanCompact files top)) ∧
      ∀ files files' top, files.Perm files' → fsScanCompact files top = fsScanCompact files' top := by
  refine ⟨gitStatusCompact_laws, ?_, fsScanCompact_laws, ?_⟩
  · intro entries entries' top perm
    -- A roll-up depends on the counts only, which no order changes.
    have made (entries) : gitStatusCompact entries top =
        { byClass := sortByKey (fun bucket => weight (bucket.statusClass, bucket.count))
            (classBuckets entries top)
          total := (statusCounts entries).total } := rfl
    rw [made, made, classBuckets, classBuckets, statusCounts_perm perm]
  · intro files files' top perm
    rw [fsScanCompact_eq, fsScanCompact_eq, tally_perm (perm.map parentDirStr), perm.length_eq]

end McpCli
