import McpCli.Proofs.Daemon.Skeleton

/-! A skeleton with its markers put back for the regions is the file, unless regions overlap. -/

namespace McpCli

variable {Line : Type} {params : FsReadSkeletonParams}

/-- The lines with the bodies of some entries folded away, from a line on. -/
def collapse (marker : SkeletonElidedRegion → Line) (lines : List Line) :
    List CodeOutlineEntry → Nat → List Line
  | [], start => lines.drop start
  | entry :: entries, start =>
    (lines.drop start).take (entry.startLine - start) ++
      marker entry.region :: collapse marker lines entries entry.endLine

/-- The bodies of the entries follow each other, behind a line. -/
def Apart (start : Nat) : List CodeOutlineEntry → Prop
  | [] => True
  | entry :: entries =>
    start ≤ entry.startLine ∧ entry.startLine < entry.endLine ∧ Apart entry.endLine entries

/-- Bodies that follow each other behind a line do so behind an earlier one. -/
theorem Apart.weaken {start later : Nat} {entries : List CodeOutlineEntry}
    (apart : Apart later entries) (earlier : start ≤ later) : Apart start entries := by
  cases entries with
  | nil => trivial
  | cons entry entries => exact ⟨Nat.le_trans earlier apart.1, apart.2⟩

/-- Of bodies that follow each other, each begins behind the line. -/
theorem Apart.start_le {start : Nat} {entries : List CodeOutlineEntry} (apart : Apart start entries)
    {entry : CodeOutlineEntry} (mem : entry ∈ entries) : start ≤ entry.startLine := by
  -- Each body begins behind the end of the one before it.
  induction entries generalizing start with
  | nil => cases mem
  | cons first entries ih =>
    obtain ⟨behind, long, apart⟩ := apart
    rcases List.mem_cons.mp mem with rfl | mem
    · exact behind
    · have later := ih apart mem
      omega

/-- The lines up to where the first body begins are those of the file. -/
theorem take_collapse (marker : SkeletonElidedRegion → Line) {lines : List Line} {line : Nat}
    {entries : List CodeOutlineEntry} (apart : Apart line entries)
    (inside : ∀ entry ∈ entries, entry.endLine ≤ lines.length) :
    (collapse marker lines entries 0).take line = lines.take line := by
  -- The first marker stands where the first body begins.
  cases entries with
  | nil => rfl
  | cons entry entries =>
    obtain ⟨behind, long, _⟩ := apart
    have ends := inside entry (by simp)
    rw [collapse, List.take_append_of_le_length, Nat.sub_zero, List.drop_zero, List.take_take,
      Nat.min_eq_left behind]
    rw [List.length_take, List.length_drop]
    omega

/-- The lines from where the first body begins or earlier are folded as if they stood alone. -/
theorem drop_collapse (marker : SkeletonElidedRegion → Line) {lines : List Line} {line : Nat}
    {entries : List CodeOutlineEntry} (apart : Apart line entries)
    (inside : ∀ entry ∈ entries, entry.endLine ≤ lines.length) :
    (collapse marker lines entries 0).drop line = collapse marker lines entries line := by
  -- What is dropped is in front of the first body.
  cases entries with
  | nil => rfl
  | cons entry entries =>
    obtain ⟨behind, long, _⟩ := apart
    have ends := inside entry (by simp)
    rw [collapse, collapse, List.drop_append_of_le_length, Nat.sub_zero, List.drop_zero,
      List.drop_take]
    rw [List.length_take, List.length_drop]
    omega

/-- When the elided bodies follow each other, the loop folds exactly them away. -/
theorem elide_eq_collapse (marker : SkeletonElidedRegion → Line) {lines : List Line}
    {entries : List CodeOutlineEntry}
    (inside : ∀ entry ∈ entries, entry.endLine ≤ lines.length)
    (apart : Apart 0 (elidedEntries params lines.length entries)) :
    (elide marker params lines entries).1 =
      collapse marker lines (elidedEntries params lines.length entries) 0 := by
  -- The entries are added from the last one on, as in the loop.
  induction entries with
  | nil => rfl
  | cons entry behind ih =>
    have others := fun other mem => inside other (List.mem_cons_of_mem entry mem)
    rw [elidedEntries] at apart ⊢
    rw [elide_cons]
    by_cases elided : params.elidable entry ∧
      entry.endLine + linesSaved (elidedEntries params lines.length behind) ≤ lines.length
    · -- Everything in front of the body is as it was, and everything behind it is folded already.
      simp only [if_pos elided] at apart ⊢
      obtain ⟨_, long, apart⟩ := apart
      have bounds : ∀ other ∈ elidedEntries params lines.length behind,
          other.endLine ≤ lines.length := fun other mem =>
        others other ((elidedEntries_sublist _ _).subset mem)
      rw [ih others (apart.weaken (Nat.zero_le _)),
        take_collapse marker (apart.weaken (Nat.le_of_lt long)) bounds,
        drop_collapse marker apart bounds, collapse, List.drop_zero, Nat.sub_zero]
    · simp only [if_neg elided] at apart ⊢
      exact ih others apart

/-- The region that a line stands for. -/
def SkeletonLine.region? : SkeletonLine → Option SkeletonElidedRegion
  | original _ _ => none
  | marker region => some region

/-- What a line of a skeleton stands for: itself, or the lines of its region. -/
def SkeletonLine.restore (lines : List (List Char)) : SkeletonLine → List SkeletonLine
  | original number text => [.original number text]
  | marker region =>
    ((numbered lines).drop (region.startLine - 1)).take (region.endLine + 1 - region.startLine)

/-- The line is one of the region. -/
def SkeletonLine.InRegion (region : SkeletonElidedRegion) : SkeletonLine → Prop
  | original number _ => region.startLine ≤ number ∧ number ≤ region.endLine
  | marker _ => False

/-- A skeleton tells of every line of the file where it is. -/
structure Restores (params : FsReadSkeletonParams) (entries : List CodeOutlineEntry)
    (lines : List (List Char)) : Prop where
  /-- With the lines of its region in the place of each marker, the skeleton is the file. -/
  restored : (skeleton params entries lines).1.flatMap (SkeletonLine.restore lines) =
    numbered lines
  /-- The markers are those of the reported regions. -/
  reported : (skeleton params entries lines).1.filterMap SkeletonLine.region? =
    (skeleton params entries lines).2
  disjoint : (skeleton params entries lines).2.Pairwise fun region other =>
    region.endLine < other.startLine ∨ other.endLine < region.startLine
  /-- What is outside the regions is still there. -/
  unchanged : ∀ line ∈ numbered lines,
    (∀ region ∈ (skeleton params entries lines).2, ¬ line.InRegion region) →
    line ∈ (skeleton params entries lines).1
  /-- What is still there is in order. -/
  inOrder : ((skeleton params entries lines).1.filter fun line => line.region? = none).Sublist
    (numbered lines)

/-- Lines of the file stand for themselves. -/
theorem flatMap_restore_originals {lines : List (List Char)} {some_ : List SkeletonLine}
    (originals : ∀ line ∈ some_, line.region? = none) :
    some_.flatMap (SkeletonLine.restore lines) = some_ := by
  induction some_ with
  | nil => rfl
  | cons line others ih =>
    -- A marker has a region, so there is none among the lines.
    cases line with
    | marker region => cases originals _ List.mem_cons_self
    | original number text =>
      rw [List.flatMap_cons, ih fun other mem => originals other (List.mem_cons_of_mem _ mem)]
      rfl

/-- The numbered lines are lines of the file. -/
theorem region?_numbered {lines : List (List Char)} {line : SkeletonLine}
    (mem : line ∈ numbered lines) : line.region? = none := by
  obtain ⟨i, _, rfl⟩ := List.mem_mapIdx.mp mem
  rfl

/-- With the bodies put back, the folded lines are those of the file. -/
theorem flatMap_restore_collapse {lines : List (List Char)} {entries : List CodeOutlineEntry}
    {start : Nat} (apart : Apart start entries) :
    (collapse SkeletonLine.marker (numbered lines) entries start).flatMap
      (SkeletonLine.restore lines) = (numbered lines).drop start := by
  induction entries generalizing start with
  | nil =>
    exact flatMap_restore_originals fun line mem => region?_numbered (List.mem_of_mem_drop mem)
  | cons entry entries ih =>
    -- The lines up to the body, those of the body, and those behind it.
    obtain ⟨behind, long, apart⟩ := apart
    have front : ∀ line ∈ ((numbered lines).drop start).take (entry.startLine - start),
        line.region? = none := fun line mem =>
      region?_numbered (List.mem_of_mem_drop (List.mem_of_mem_take mem))
    have body : SkeletonLine.restore lines (.marker entry.region) =
        ((numbered lines).drop entry.startLine).take (entry.endLine - entry.startLine) := by
      simp only [SkeletonLine.restore, CodeOutlineEntry.region, Nat.add_sub_cancel]
      rw [Nat.add_sub_add_right]
    rw [collapse, List.flatMap_append, flatMap_restore_originals front, List.flatMap_cons, body,
      ih apart]
    have later : entry.startLine = start + (entry.startLine - start) := by omega
    have last : entry.endLine = entry.startLine + (entry.endLine - entry.startLine) := by omega
    calc ((numbered lines).drop start).take (entry.startLine - start) ++
          (((numbered lines).drop entry.startLine).take (entry.endLine - entry.startLine) ++
            (numbered lines).drop entry.endLine)
        = ((numbered lines).drop start).take (entry.startLine - start) ++
            (numbered lines).drop entry.startLine := by
          nth_rewrite 2 [last]
          rw [← List.drop_drop, List.take_append_drop]
      _ = (numbered lines).drop start := by
          nth_rewrite 2 [later]
          rw [← List.drop_drop, List.take_append_drop]

/-- The markers among the folded lines are those of the entries. -/
theorem filterMap_region_collapse {lines : List (List Char)} (entries : List CodeOutlineEntry)
    (start : Nat) :
    (collapse SkeletonLine.marker (numbered lines) entries start).filterMap
      SkeletonLine.region? = entries.map CodeOutlineEntry.region := by
  -- Between the markers there are only lines of the file.
  induction entries generalizing start with
  | nil =>
    exact List.filterMap_eq_nil_iff.mpr fun line mem => region?_numbered (List.mem_of_mem_drop mem)
  | cons entry entries ih =>
    have front : (((numbered lines).drop start).take (entry.startLine - start)).filterMap
        SkeletonLine.region? = [] :=
      List.filterMap_eq_nil_iff.mpr fun line mem =>
        region?_numbered (List.mem_of_mem_drop (List.mem_of_mem_take mem))
    rw [collapse, List.filterMap_append, front, List.nil_append, List.filterMap_cons, ih]
    rfl

/-- The lines that the marker of an entry stands for are those of its region. -/
theorem inRegion_of_restore {lines : List (List Char)} {entry : CodeOutlineEntry}
    {line : SkeletonLine} (mem : line ∈ SkeletonLine.restore lines (.marker entry.region)) :
    line.InRegion entry.region := by
  -- The lines are counted from 1, and their places from 0.
  simp only [SkeletonLine.restore, CodeOutlineEntry.region, Nat.add_sub_cancel,
    Nat.add_sub_add_right] at mem
  obtain ⟨i, within, rfl⟩ := List.mem_iff_getElem.mp mem
  rw [List.length_take, List.length_drop] at within
  rw [List.getElem_take, List.getElem_drop]
  simp only [numbered, List.getElem_mapIdx, SkeletonLine.InRegion, CodeOutlineEntry.region]
  omega

/-- The lines of the file that a list has are a part of what it stands for. -/
theorem originals_sublist (lines : List (List Char)) (shown : List SkeletonLine) :
    (shown.filter fun line => line.region? = none).Sublist
      (shown.flatMap (SkeletonLine.restore lines)) := by
  -- A line of the file stands for itself, and a marker for something more.
  induction shown with
  | nil => exact List.Sublist.refl _
  | cons line shown ih =>
    rw [List.flatMap_cons, List.filter_cons]
    cases line with
    | original number text => exact ih.cons_cons _
    | marker region => exact ih.trans (List.sublist_append_right _ _)

/-- Regions of bodies that follow each other have no line in common. -/
theorem Apart.disjoint {start : Nat} {entries : List CodeOutlineEntry}
    (apart : Apart start entries) :
    (entries.map CodeOutlineEntry.region).Pairwise fun region other =>
      region.endLine < other.startLine ∨ other.endLine < region.startLine := by
  -- A body that begins behind the end of another has no line of it.
  induction entries generalizing start with
  | nil => exact List.Pairwise.nil
  | cons entry entries ih =>
    obtain ⟨_, _, apart⟩ := apart
    rw [List.map_cons, List.pairwise_cons]
    refine ⟨fun region mem => ?_, ih apart⟩
    obtain ⟨other, listed, rfl⟩ := List.mem_map.mp mem
    have behind := apart.start_le listed
    simp only [CodeOutlineEntry.region]
    omega

/-- A skeleton whose elided bodies follow each other tells of every line where it is. -/
theorem Restores.of_apart {entries : List CodeOutlineEntry} {lines : List (List Char)}
    (inside : ∀ entry ∈ entries, entry.endLine ≤ lines.length)
    (apart : Apart 0 (elidedEntries params lines.length entries)) :
    Restores params entries lines := by
  -- The skeleton is the file with the bodies folded away, of which everything is known.
  have count : (numbered lines).length = lines.length := List.length_mapIdx
  have regions := (@elide_spec SkeletonLine params .marker (numbered lines) entries).1
  have shown := @elide_eq_collapse SkeletonLine params .marker (numbered lines) entries
    (by rw [count]; exact inside) (by rw [count]; exact apart)
  rw [count] at regions shown
  have restored : (skeleton params entries lines).1.flatMap (SkeletonLine.restore lines) =
      numbered lines := by
    rw [skeleton, shown]
    exact flatMap_restore_collapse apart
  have reported : (skeleton params entries lines).1.filterMap SkeletonLine.region? =
      (skeleton params entries lines).2 := by
    rw [skeleton, shown, regions]
    exact filterMap_region_collapse _ _
  refine ⟨restored, reported, ?_, fun line mem outside => ?_, ?_⟩
  · rw [skeleton, regions]
    exact apart.disjoint
  · -- The line is in what some line of the skeleton stands for.
    rw [← restored] at mem
    obtain ⟨other, there, mem⟩ := List.mem_flatMap.mp mem
    cases other with
    | original number text =>
      obtain rfl := List.mem_singleton.mp mem
      exact there
    | marker region =>
      have among : region ∈ (skeleton params entries lines).2 := by
        rw [← reported]
        exact List.mem_filterMap.mpr ⟨_, there, rfl⟩
      have elided := among
      rw [skeleton, regions] at elided
      obtain ⟨entry, _, rfl⟩ := List.mem_map.mp elided
      exact absurd (inRegion_of_restore mem) (outside _ among)
  · have part := originals_sublist lines (skeleton params entries lines).1
    rwa [restored] at part

/-- The elidable entries that reach into no other such entry behind their start. -/
def innermost (params : FsReadSkeletonParams) : List CodeOutlineEntry → List CodeOutlineEntry
  | [] => []
  | entry :: behind =>
    let inner := innermost params behind
    if params.elidable entry ∧ ∀ other ∈ inner, entry.endLine ≤ other.startLine then entry :: inner
    else inner

/--
Whenever an elidable entry reaches into an innermost one behind its start, it ends behind the lines
that are left when the innermost ones behind its start are elided.
-/
def FoldsApart (params : FsReadSkeletonParams) (lineCount : Nat)
    (entries : List CodeOutlineEntry) : Prop :=
  ∀ entry behind, (entry :: behind) <:+ entries → params.elidable entry →
    (∃ inner ∈ innermost params behind, inner.startLine < entry.endLine) →
    lineCount < entry.endLine + linesSaved (innermost params behind)

/-- Without entries there is nothing to check. -/
theorem foldsApart_nil {lineCount : Nat} : FoldsApart params lineCount [] :=
  fun _ _ suffix => by simp at suffix

/-- One more entry in front has to be checked against those behind it. -/
theorem foldsApart_cons {lineCount : Nat} {entry : CodeOutlineEntry}
    {behind : List CodeOutlineEntry} :
    FoldsApart params lineCount (entry :: behind) ↔
      FoldsApart params lineCount behind ∧ (params.elidable entry →
        (∃ inner ∈ innermost params behind, inner.startLine < entry.endLine) →
        lineCount < entry.endLine + linesSaved (innermost params behind)) := by
  -- The condition is one on every entry with those behind it.
  constructor
  · intro folds
    exact ⟨fun other later suffix => folds other later (suffix.trans (List.suffix_cons _ _)),
      folds entry behind (List.suffix_refl _)⟩
  · intro both other later suffix
    obtain ⟨folds, first⟩ := both
    rcases List.suffix_cons_iff.mp suffix with same | inside
    · cases same
      exact first
    · exact folds other later inside

/-- Bodies that follow each other behind a line save no more lines than there are behind it. -/
theorem Apart.linesSaved_le {start lineCount : Nat} {entries : List CodeOutlineEntry}
    (apart : Apart start entries) (inside : ∀ entry ∈ entries, entry.endLine ≤ lineCount)
    (within : start ≤ lineCount) : start + linesSaved entries ≤ lineCount := by
  -- Each body has more lines than are saved by eliding it.
  induction entries generalizing start with
  | nil => exact within
  | cons entry entries ih =>
    obtain ⟨behind, long, apart⟩ := apart
    have later := ih apart (fun other mem => inside other (List.mem_cons_of_mem _ mem))
      (inside entry List.mem_cons_self)
    rw [linesSaved_cons]
    omega

/-- Bodies that follow each other and begin behind a line follow each other behind it. -/
theorem Apart.behind {start line : Nat} {entries : List CodeOutlineEntry}
    (apart : Apart start entries) (behind : ∀ entry ∈ entries, line ≤ entry.startLine) :
    Apart line entries := by
  cases entries with
  | nil => trivial
  | cons entry entries => exact ⟨behind entry List.mem_cons_self, apart.2⟩

/-- An innermost entry is one of the outline. -/
theorem innermost_subset (entries : List CodeOutlineEntry) : innermost params entries ⊆ entries := by
  -- Each entry is taken or left out.
  induction entries with
  | nil => exact List.Subset.refl _
  | cons entry behind ih =>
    rw [innermost]
    split
    · exact List.cons_subset_cons _ ih
    · exact List.subset_cons_of_subset _ ih

/-- The bodies of the innermost entries follow each other. -/
theorem innermost_apart (entries : List CodeOutlineEntry) :
    Apart 0 (innermost params entries) := by
  -- An entry is taken only if it ends in front of those that are taken already.
  induction entries with
  | nil => trivial
  | cons entry behind ih =>
    rw [innermost]
    split
    · rename_i taken
      have long := (elidable_iff.mp taken.1).2
      exact ⟨Nat.zero_le _, by omega, ih.behind taken.2⟩
    · exact ih

/-- Under the condition on the entries, the innermost ones are elided. -/
theorem FoldsApart.elided_eq {lineCount : Nat} {entries : List CodeOutlineEntry}
    (folds : FoldsApart params lineCount entries)
    (inside : ∀ entry ∈ entries, entry.endLine ≤ lineCount) :
    elidedEntries params lineCount entries = innermost params entries := by
  -- From the last entry on, the loop decides as the definition does.
  induction entries with
  | nil => rfl
  | cons entry behind ih =>
    obtain ⟨folds, first⟩ := foldsApart_cons.mp folds
    have others := fun other mem => inside other (List.mem_cons_of_mem entry mem)
    rw [elidedEntries, innermost, ih folds others]
    by_cases elidable : params.elidable entry
    · by_cases clear : ∀ other ∈ innermost params behind, entry.endLine ≤ other.startLine
      · -- Enough lines are left: those in front of the bodies behind the entry.
        have enough := ((innermost_apart behind).behind clear).linesSaved_le
          (fun other mem => others other (innermost_subset _ mem))
          (inside entry List.mem_cons_self)
        rw [if_pos ⟨elidable, enough⟩, if_pos ⟨elidable, clear⟩]
      · have reaches : ∃ inner ∈ innermost params behind, inner.startLine < entry.endLine := by
          by_contra none_
          exact clear fun other mem => Nat.le_of_not_lt fun reach => none_ ⟨other, mem, reach⟩
        have short := first elidable reaches
        rw [if_neg (by omega), if_neg fun both => clear both.2]
    · rw [if_neg fun both => elidable both.1, if_neg fun both => elidable both.1]

/-- The elided bodies follow each other exactly when the condition on the entries holds. -/
theorem elided_apart_iff {lineCount : Nat} {entries : List CodeOutlineEntry}
    (inside : ∀ entry ∈ entries, entry.endLine ≤ lineCount) :
    Apart 0 (elidedEntries params lineCount entries) ↔ FoldsApart params lineCount entries := by
  constructor
  · intro apart
    induction entries with
    | nil => exact foldsApart_nil
    | cons entry behind ih =>
      have others := fun other mem => inside other (List.mem_cons_of_mem entry mem)
      rw [elidedEntries] at apart
      by_cases elided : params.elidable entry ∧
        entry.endLine + linesSaved (elidedEntries params lineCount behind) ≤ lineCount
      · simp only [if_pos elided] at apart
        obtain ⟨_, _, apart⟩ := apart
        have folds := ih others (apart.weaken (Nat.zero_le _))
        refine foldsApart_cons.mpr ⟨folds, fun _ reaches => ?_⟩
        -- The entry was elided, so it reaches into none of those behind it.
        obtain ⟨inner, mem, reach⟩ := reaches
        rw [folds.elided_eq others] at apart
        have clear := apart.start_le mem
        omega
      · simp only [if_neg elided] at apart
        have folds := ih others apart
        refine foldsApart_cons.mpr ⟨folds, fun elidable _ => ?_⟩
        rw [folds.elided_eq others] at elided
        exact Nat.lt_of_not_le fun enough => elided ⟨elidable, enough⟩
  · intro folds
    rw [folds.elided_eq inside]
    exact innermost_apart entries

/-- Bodies in order whose regions have no line in common follow each other. -/
theorem apart_of_disjoint {start : Nat} {entries : List CodeOutlineEntry}
    (behind : ∀ entry ∈ entries, start ≤ entry.startLine)
    (long : ∀ entry ∈ entries, entry.startLine + 2 < entry.endLine)
    (ordered : entries.Pairwise fun entry other => entry.startLine ≤ other.startLine)
    (disjoint : (entries.map CodeOutlineEntry.region).Pairwise fun region other =>
      region.endLine < other.startLine ∨ other.endLine < region.startLine) :
    Apart start entries := by
  induction entries generalizing start with
  | nil => trivial
  | cons entry entries ih =>
    obtain ⟨first, ordered⟩ := List.pairwise_cons.mp ordered
    rw [List.map_cons, List.pairwise_cons] at disjoint
    obtain ⟨clear, disjoint⟩ := disjoint
    have ends := long entry List.mem_cons_self
    refine ⟨behind entry List.mem_cons_self, by omega, ih (fun other mem => ?_)
      (fun other mem => long other (List.mem_cons_of_mem _ mem)) ordered disjoint⟩
    -- The other one begins no earlier, so it can only be behind.
    have later := first other mem
    have lasts := long other (List.mem_cons_of_mem _ mem)
    have apart := clear other.region (List.mem_map_of_mem mem)
    simp only [CodeOutlineEntry.region] at apart
    omega

/--
A skeleton tells of every line of the file where it is exactly when every elidable entry that
reaches into an innermost one behind its start ends behind the lines that are left.
-/
theorem restores_iff {entries : List CodeOutlineEntry} {lines : List (List Char)}
    (outline : IsOutline lines.length entries) :
    Restores params entries lines ↔ FoldsApart params lines.length entries := by
  -- Both say that the elided bodies follow each other.
  have inside := fun entry mem => (outline.inside entry mem).2.2
  rw [← elided_apart_iff inside]
  refine ⟨fun restores => ?_, fun apart => .of_apart inside apart⟩
  have regions := (@elide_spec SkeletonLine params .marker (numbered lines) entries).1
  rw [show (numbered lines).length = lines.length from List.length_mapIdx] at regions
  have disjoint := restores.disjoint
  rw [skeleton, regions] at disjoint
  exact apart_of_disjoint (fun _ _ => Nat.zero_le _)
    (fun entry mem => (elidable_iff.mp (elidable_of_mem_elided mem)).2)
    (outline.ordered.sublist (elidedEntries_sublist _ _)) disjoint

/-- A Python file with a class that has a method. -/
def classFile : List (List Char) :=
  ["class C:\n", "    def m(self):\n", "        a = 1\n", "        b = 2\n", "        c = 3\n",
    "        return a\n", "\n", "    x = 0\n", "\n", "A = 1\n", "B = 2\n", "D = 3\n"].map
    String.toList

/-- Its outline. -/
def classOutline : List CodeOutlineEntry :=
  [{ name := "C", startByte := 0, endByte := 95, startLine := 1, endLine := 8 },
    { name := "m", startByte := 13, endByte := 84, startLine := 2, endLine := 6 }]

/-- A request that names no target. -/
def foldAll : FsReadSkeletonParams := { path := ["a.py"], targetLine := none, targetSymbol := none }

/-- The outline is one that can be returned. -/
theorem isOutline_class : IsOutline classFile.length classOutline where
  sorted := by decide
  rows := by decide
  inside := by decide
  nested := by decide

/-- The same class with a second method, which ends with the class on the last line but one. -/
def methodsFile : List (List Char) :=
  ["class C:\n", "    def a(self):\n", "        x = 1\n", "        y = 2\n", "        z = 3\n",
    "        return x\n", "\n", "    def m(self):\n", "        b = 1\n", "        c = 2\n",
    "        return b\n", "A = 1\n"].map String.toList

/-- Its outline. -/
def methodsOutline : List CodeOutlineEntry :=
  [{ name := "C", startByte := 0, endByte := 147, startLine := 1, endLine := 11 },
    { name := "a", startByte := 13, endByte := 84, startLine := 2, endLine := 6 },
    { name := "m", startByte := 90, endByte := 147, startLine := 8, endLine := 11 }]

/-- This outline can be returned as well. -/
theorem isOutline_methods : IsOutline methodsFile.length methodsOutline where
  sorted := by decide
  rows := by decide
  inside := by decide
  nested := by decide

/-- Both methods are elided, and the class around them ends behind the lines that are left. -/
theorem restores_methods :
    Restores foldAll methodsOutline methodsFile ∧
      (skeleton foldAll methodsOutline methodsFile).2 =
        [{ symbol := "a", startLine := 3, endLine := 6, lines := 4 },
          { symbol := "m", startLine := 9, endLine := 11, lines := 3 }] := by
  refine ⟨(restores_iff isOutline_methods).mpr ?_, by decide⟩
  -- Each entry is checked against those behind it, from the last one to the class.
  have last : FoldsApart foldAll methodsFile.length (methodsOutline.drop 2) :=
    foldsApart_cons.mpr ⟨foldsApart_nil, by decide⟩
  have both : FoldsApart foldAll methodsFile.length (methodsOutline.drop 1) :=
    foldsApart_cons.mpr ⟨last, by decide⟩
  exact foldsApart_cons.mpr ⟨both, by decide⟩

/--
The method is elided before the class, whose end is then taken for a line behind it: the regions
have lines in common, and a line that is in neither is not shown.
-/
theorem class_regions_overlap : IsOutline classFile.length classOutline ∧
    ¬ Restores foldAll classOutline classFile ∧
    (skeleton foldAll classOutline classFile).2 =
      [{ symbol := "C", startLine := 2, endLine := 8, lines := 7 },
        { symbol := "m", startLine := 3, endLine := 6, lines := 4 }] ∧
    "A = 1\n".toList ∉ (skeleton foldAll classOutline classFile).1.map SkeletonLine.text := by
  refine ⟨isOutline_class, fun restores => ?_, by decide, by decide⟩
  have disjoint := restores.disjoint
  revert disjoint
  decide

end McpCli
