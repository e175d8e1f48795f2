import Mathlib.Data.List.Basic
import Mathlib.Algebra.GroupWithZero.Nat
import McpCli.Daemon.Skeleton

/-! Which entries a skeleton elides, and when their regions do not run into each other. -/

namespace McpCli

variable {Line : Type} {params : FsReadSkeletonParams}

/-- What `outline` can return of a file with so many lines. -/
structure IsOutline (lineCount : Nat) (entries : List CodeOutlineEntry) : Prop where
  sorted : entries.Pairwise fun entry other => entry.before other
  /-- What begins at a later byte begins on no earlier line. -/
  rows : ∀ entry ∈ entries, ∀ other ∈ entries,
    entry.startByte ≤ other.startByte → entry.startLine ≤ other.startLine
  inside : ∀ entry ∈ entries,
    1 ≤ entry.startLine ∧ entry.startLine ≤ entry.endLine ∧ entry.endLine ≤ lineCount
  /-- Of two entries one lies in the other, or they have no line in common. -/
  nested : entries.Pairwise fun entry other =>
    entry.startLine ≤ other.startLine ∧ other.endLine ≤ entry.endLine ∨
      other.startLine ≤ entry.startLine ∧ entry.endLine ≤ other.endLine ∨
      entry.endLine < other.startLine ∨ other.endLine < entry.startLine

/-- Dropping doubles takes entries away, and the first one stays. -/
theorem dedupByBytes_sublist (entries : List CodeOutlineEntry) :
    (dedupByBytes entries).Sublist entries := by
  -- An entry is put in front of the others, or in the place of its double.
  induction entries with
  | nil => exact List.Sublist.refl _
  | cons entry entries ih =>
    rw [dedupByBytes]
    cases kept : dedupByBytes entries with
    | nil => exact (List.nil_sublist _).cons_cons _
    | cons next others =>
      rw [kept] at ih
      simp only
      split
      · exact ((List.sublist_cons_self _ _).trans ih).cons_cons _
      · exact ih.cons_cons _

/-- An outline is sorted. -/
theorem sortedOutline_sorted (captured : List CodeOutlineEntry) :
    (sortedOutline captured).Pairwise fun entry other => entry.before other := by
  -- Sorting needs an order that is total and transitive, and dropping entries keeps it.
  refine List.Pairwise.sublist (dedupByBytes_sublist _) (List.pairwise_mergeSort ?_ ?_ _)
  · intro entry other another
    simp only [CodeOutlineEntry.before, Bool.or_eq_true, Bool.and_eq_true, decide_eq_true_eq]
    omega
  · intro entry other
    simp only [CodeOutlineEntry.before, Bool.or_eq_true, Bool.and_eq_true, decide_eq_true_eq]
    omega

/-- In an outline no entry begins on an earlier line than the ones in front of it. -/
theorem IsOutline.ordered {lineCount : Nat} {entries : List CodeOutlineEntry}
    (outline : IsOutline lineCount entries) :
    entries.Pairwise fun entry other => entry.startLine ≤ other.startLine := by
  -- Entries in the order of their bytes are in the order of their lines.
  refine outline.sorted.imp_of_mem fun mem mem' before => outline.rows _ mem _ mem' ?_
  simp only [CodeOutlineEntry.before, Bool.or_eq_true, Bool.and_eq_true, decide_eq_true_eq] at before
  omega

/-- The loop tries to elide an entry: it is not kept, and it has a body of more than two lines. -/
def FsReadSkeletonParams.elidable (params : FsReadSkeletonParams) (entry : CodeOutlineEntry) :
    Bool := !params.keep entry && entry.startLine + 2 < entry.endLine

/-- How many lines a file has less when the bodies of these entries are elided. -/
def linesSaved (entries : List CodeOutlineEntry) : Nat :=
  (entries.map fun entry => entry.endLine - entry.startLine - 1).sum

/-- The entries that are elided: those that end within the lines that are left behind them. -/
def elidedEntries (params : FsReadSkeletonParams) (lineCount : Nat) :
    List CodeOutlineEntry → List CodeOutlineEntry
  | [] => []
  | entry :: behind =>
    let elided := elidedEntries params lineCount behind
    if params.elidable entry ∧ entry.endLine + linesSaved elided ≤ lineCount then entry :: elided
    else elided

/-- One more entry saves as many lines as its body has, but for the marker. -/
theorem linesSaved_cons (entry : CodeOutlineEntry) (entries : List CodeOutlineEntry) :
    linesSaved (entry :: entries) = entry.endLine - entry.startLine - 1 + linesSaved entries := by
  rw [linesSaved, List.map_cons, List.sum_cons, linesSaved]

/-- An entry that is elided is one that the loop tries to elide. -/
theorem elidable_iff {entry : CodeOutlineEntry} :
    params.elidable entry ↔ params.keep entry = false ∧ entry.startLine + 2 < entry.endLine := by
  simp [FsReadSkeletonParams.elidable]

/-- The elided entries are entries of the outline, in its order. -/
theorem elidedEntries_sublist (lineCount : Nat) (entries : List CodeOutlineEntry) :
    (elidedEntries params lineCount entries).Sublist entries := by
  -- Each entry of the outline is taken or left out.
  induction entries with
  | nil => exact List.Sublist.refl _
  | cons entry behind ih =>
    rw [elidedEntries]
    split
    · exact ih.cons_cons _
    · exact ih.cons _

/-- Only what can be elided is elided. -/
theorem elidable_of_mem_elided {lineCount : Nat} {entry : CodeOutlineEntry}
    {entries : List CodeOutlineEntry} (mem : entry ∈ elidedEntries params lineCount entries) :
    params.elidable entry := by
  -- Each entry was looked at before it was taken.
  induction entries with
  | nil => cases mem
  | cons first behind ih =>
    rw [elidedEntries] at mem
    split at mem
    · rename_i elided
      rcases List.mem_cons.mp mem with rfl | later
      · exact elided.1
      · exact ih later
    · exact ih mem

/-- One pass of the loop elides an entry, or changes nothing. -/
theorem elideEntry_eq (marker : SkeletonElidedRegion → Line) (entry : CodeOutlineEntry)
    (lines : List Line) (elided : List SkeletonElidedRegion) :
    elideEntry marker params entry (lines, elided) =
      if params.elidable entry ∧ entry.endLine ≤ lines.length then
        (lines.take entry.startLine ++ marker entry.region :: lines.drop entry.endLine,
          entry.region :: elided)
      else (lines, elided) := by
  -- What the two tests of the loop ask is put together.
  simp only [elideEntry]
  by_cases elidable : params.elidable entry
  · obtain ⟨other, long⟩ := elidable_iff.mp elidable
    have skipped : ¬ (params.keep entry = true ∨ entry.endLine ≤ entry.startLine + 2) := by
      rw [other]
      simp
      omega
    rw [if_neg skipped]
    by_cases inside : entry.endLine ≤ lines.length
    · rw [if_neg (by omega), if_pos ⟨elidable, inside⟩]
    · rw [if_pos (by omega), if_neg fun both => inside both.2]
  · -- The entry is kept, or too short.
    have skipped : params.keep entry = true ∨ entry.endLine ≤ entry.startLine + 2 := by
      by_contra neither
      rw [not_or] at neither
      exact elidable (elidable_iff.mpr ⟨by simpa using neither.1, by omega⟩)
    rw [if_pos skipped, if_neg fun both => elidable both.1]

/-- The regions and the number of lines tell which entries the loop has elided. -/
theorem elide_spec (marker : SkeletonElidedRegion → Line) (lines : List Line)
    (entries : List CodeOutlineEntry) :
    (elide marker params lines entries).2 =
        (elidedEntries params lines.length entries).map CodeOutlineEntry.region ∧
      (elide marker params lines entries).1.length +
        linesSaved (elidedEntries params lines.length entries) = lines.length := by
  -- The number of lines that are left is all that the loop looks at.
  induction entries with
  | nil => exact ⟨rfl, rfl⟩
  | cons entry behind ih =>
    rw [elide, elidedEntries]
    rcases state : elide marker params lines behind with ⟨lines', elided⟩
    rw [state] at ih
    obtain ⟨regions, left⟩ := ih
    simp only at regions left
    rw [elideEntry_eq]
    by_cases elidable : params.elidable entry
    · by_cases inside : entry.endLine ≤ lines'.length
      · rw [if_pos ⟨elidable, inside⟩, if_pos ⟨elidable, by omega⟩, List.map_cons,
          linesSaved_cons, regions]
        refine ⟨rfl, ?_⟩
        have long := (elidable_iff.mp elidable).2
        simp only [List.length_append, List.length_take, List.length_cons, List.length_drop]
        omega
      · rw [if_neg fun both => inside both.2, if_neg (by omega)]
        exact ⟨regions, left⟩
    · rw [if_neg fun both => elidable both.1, if_neg fun both => elidable both.1]
      exact ⟨regions, left⟩

/-- One more entry is elided from what the loop has left of the lines, if enough are left. -/
theorem elide_cons (marker : SkeletonElidedRegion → Line) (lines : List Line)
    (entry : CodeOutlineEntry) (behind : List CodeOutlineEntry) :
    (elide marker params lines (entry :: behind)).1 =
      let left := (elide marker params lines behind).1
      if params.elidable entry ∧ entry.endLine +
          linesSaved (elidedEntries params lines.length behind) ≤ lines.length then
        left.take entry.startLine ++ marker entry.region :: left.drop entry.endLine
      else left := by
  -- That enough lines are left is known from how many were saved behind the entry.
  have count := (@elide_spec Line params marker lines behind).2
  rw [elide]
  rcases state : elide marker params lines behind with ⟨lines', elided⟩
  rw [state] at count
  simp only at count ⊢
  rw [elideEntry_eq]
  by_cases inside : entry.endLine ≤ lines'.length
  · have enough : entry.endLine + linesSaved (elidedEntries params lines.length behind) ≤
        lines.length := by omega
    simp only [inside, enough, and_true]
    split <;> rfl
  · have short : ¬ entry.endLine + linesSaved (elidedEntries params lines.length behind) ≤
        lines.length := by omega
    rw [if_neg fun both => inside both.2, if_neg fun both => short both.2]

/-- A line of a skeleton: one of the file, with its number, or what stands for a region. -/
inductive SkeletonLine where
  | original (number : Nat) (text : List Char)
  | marker (region : SkeletonElidedRegion)
  deriving DecidableEq, Repr

/-- The line as it is printed. -/
def SkeletonLine.text : SkeletonLine → List Char
  | original _ text => text
  | marker region => region.marker

/-- The lines of a file, numbered from 1. -/
def numbered (lines : List (List Char)) : List SkeletonLine :=
  lines.mapIdx fun index text => .original (index + 1) text

/-- The skeleton of a file, where it is known of each line which one it is, and its regions. -/
def skeleton (params : FsReadSkeletonParams) (entries : List CodeOutlineEntry)
    (lines : List (List Char)) : List SkeletonLine × List SkeletonElidedRegion :=
  elide SkeletonLine.marker params (numbered lines) entries

/-- The loop does the same whatever is known of the lines. -/
theorem elide_map {Other : Type} (shown : Line → Other) (marker : SkeletonElidedRegion → Line)
    (lines : List Line) (entries : List CodeOutlineEntry) :
    elide (fun region => shown (marker region)) params (lines.map shown) entries =
      ((elide marker params lines entries).1.map shown, (elide marker params lines entries).2) := by
  -- The loop moves lines around and counts them, but does not look at them.
  induction entries with
  | nil => rfl
  | cons entry behind ih =>
    rw [elide, elide, ih]
    rcases elide marker params lines behind with ⟨lines', elided⟩
    rw [elideEntry_eq, elideEntry_eq, List.length_map]
    split
    · rw [List.map_append, List.map_cons, List.map_take, List.map_drop]
    · rfl

/-- The text of numbered lines is the one of the file. -/
theorem numbered_text (lines : List (List Char)) :
    (numbered lines).map SkeletonLine.text = lines := by
  refine List.ext_getElem (by simp [numbered]) fun i _ _ => ?_
  simp [numbered, SkeletonLine.text]

/-- What `fs_read_skeleton` answers is the skeleton of the lines, as it is printed. -/
theorem fsReadSkeleton_eq (outline : CodeOutlineResult) (content : List Char)
    (params : FsReadSkeletonParams) :
    fsReadSkeleton (.ok outline) (.ok ()) (.ok content) params = .ok {
      path := params.path
      language := outline.language
      content := (skeleton params outline.entries (skeletonLines content)).1.flatMap
        SkeletonLine.text
      elidedRegions := (skeleton params outline.entries (skeletonLines content)).2 } := by
  -- The loop runs on the texts of the numbered lines.
  have printed := @elide_map SkeletonLine params (List Char) SkeletonLine.text SkeletonLine.marker
    (numbered (skeletonLines content)) outline.entries
  rw [numbered_text] at printed
  rw [fsReadSkeleton]
  simp only
  rw [show SkeletonElidedRegion.marker = fun region => (SkeletonLine.marker region).text from rfl,
    printed]
  rfl

end McpCli
