import McpCli.Daemon.StripNoise
import McpCli.Listing.Runs

/-! The base64 blobs of a file are its maximal runs of base64 lines. -/

namespace McpCli

open Listing

/-- Ranges are the same if they begin and end at the same lines. -/
theorem LineRange.eq_of_ends {range other : LineRange} (first : range.first = other.first)
    (last : range.last = other.last) : range = other := by
  cases range
  cases other
  cases first
  cases last
  rfl

/-- Lines that are to be taken as a blob: a maximal run that is long enough. -/
structure IsBase64Blob (lines : List (List Char)) (range : LineRange) : Prop where
  run : MaximalRun isBase64Line lines range.first range.last
  enough : base64MinLines ≤ range.last - range.first + 1

variable {lines : List (List Char)} {i : Nat} {out : List LineRange}

/-- The inner loop passes lines of base64, and stops at the first other one or behind the last. -/
theorem skipBase64Lines_spec (within : i ≤ lines.length) :
    skipBase64Lines lines i ≤ lines.length ∧
    (∀ place, i ≤ place → place < skipBase64Lines lines i → PassesAt isBase64Line lines place) ∧
    ¬ PassesAt isBase64Line lines (skipBase64Lines lines i) := by
  fun_induction skipBase64Lines lines i with
  | case1 i inside base64 ih =>
    -- The line at the index is one of those that are passed.
    obtain ⟨bound, passes, stops⟩ := ih inside
    refine ⟨bound, fun place after before => ?_, stops⟩
    rcases Nat.eq_or_lt_of_le after with rfl | behind
    · exact (passesAt_iff inside).mpr base64
    · exact passes place behind before
  | case2 i inside other =>
    exact ⟨within, fun place after before => by omega, fun passes =>
      other ((passesAt_iff inside).mp passes)⟩
  | case3 i outside =>
    exact ⟨within, fun place after before => by omega, fun passes => outside passes.inside⟩

/--
What holds whenever the outer loop looks at its index: no run goes on across it, and the blobs in
front of it have been found.
-/
structure Scanned (lines : List (List Char)) (i : Nat) (out : List LineRange) : Prop where
  within : i ≤ lines.length
  border : ∀ place, place + 1 = i → PassesAt isBase64Line lines place →
    ¬ PassesAt isBase64Line lines i
  found : ∀ range, range ∈ out ↔ IsBase64Blob lines range ∧ range.last < i
  apart : out.Pairwise fun range other => range.last + 1 < other.first

/-- Nothing has been looked at before the first line. -/
theorem scanned_start (lines : List (List Char)) : Scanned lines 0 [] where
  within := Nat.zero_le _
  border := nofun
  found range := by simp
  apart := List.Pairwise.nil

/-- A line that is no base64 ends no blob. -/
theorem Scanned.skip (scanned : Scanned lines i out)
    (inside : i < lines.length) (other : ¬ PassesAt isBase64Line lines i) :
    Scanned lines (i + 1) out where
  within := inside
  border place same passes := by
    rw [Nat.succ.inj same] at passes
    exact absurd passes other
  found range := by
    rw [scanned.found, Nat.lt_succ_iff]
    refine and_congr_right fun blob => ⟨Nat.le_of_lt, fun upto => ?_⟩
    -- A blob that ended with the line would have to have it.
    refine Nat.lt_of_le_of_ne upto fun same => other ?_
    rw [← same]
    exact blob.run.passes _ blob.run.ordered (Nat.le_refl _)
  apart := scanned.apart

/-- The lines that the inner loop passes are a maximal run. -/
theorem Scanned.run (scanned : Scanned lines i out) (moves : i < skipBase64Lines lines i) :
    MaximalRun isBase64Line lines i (skipBase64Lines lines i - 1) := by
  -- The border is in front of it, and behind it is what stopped the inner loop.
  obtain ⟨_, passes, stops⟩ := skipBase64Lines_spec scanned.within
  refine ⟨by omega, fun place after upto => ?_, fun place same before => ?_, ?_⟩
  · exact passes place after (by omega)
  · exact scanned.border place same before (passes i (Nat.le_refl i) moves)
  · rw [Nat.sub_add_cancel (by omega)]
    exact stops

/-- It is the only one that ends between the old index and the new one. -/
theorem Scanned.ends_inside (scanned : Scanned lines i out) (moves : i < skipBase64Lines lines i)
    {range : LineRange} (blob : IsBase64Blob lines range) :
    range.last < skipBase64Lines lines i ↔
      range.last < i ∨ range.first = i ∧ range.last = skipBase64Lines lines i - 1 := by
  have run := scanned.run moves
  constructor
  · intro ends
    refine (Nat.lt_or_ge range.last i).imp_right fun late => ?_
    have ordered := blob.run.ordered
    -- A blob that ends later has a line in common with the run.
    exact blob.run.eq_of_common run (by omega) late
  · rintro (early | ⟨_, same⟩)
    · omega
    · omega

/-- A run that is long enough is added behind the other blobs, and a shorter one is not. -/
theorem Scanned.blob (scanned : Scanned lines i out) (moves : i < skipBase64Lines lines i)
    (ordered : i ≤ skipBase64Lines lines i - 1) :
    Scanned lines (skipBase64Lines lines i)
      (if base64MinLines ≤ skipBase64Lines lines i - 1 - i + 1 then
        out ++ [⟨i, skipBase64Lines lines i - 1, ordered⟩] else out) := by
  obtain ⟨bound, _, stops⟩ := skipBase64Lines_spec scanned.within
  have run := scanned.run moves
  split
  · rename_i enough
    refine ⟨bound, fun _ _ _ => stops, fun range => ?_, ?_⟩
    · rw [List.mem_append, List.mem_singleton, scanned.found]
      constructor
      · rintro (⟨blob, early⟩ | rfl)
        · exact ⟨blob, Nat.lt_trans early moves⟩
        · exact ⟨⟨run, enough⟩, Nat.sub_one_lt_of_lt moves⟩
      · rintro ⟨blob, ends⟩
        -- What ends in front of the new index ends in front of the old one, or is the run.
        rcases (scanned.ends_inside moves blob).mp ends with early | ⟨first, last⟩
        · exact .inl ⟨blob, early⟩
        · exact .inr (LineRange.eq_of_ends first last)
    · rw [List.pairwise_append]
      refine ⟨scanned.apart, List.pairwise_singleton _ _, fun range mem other single => ?_⟩
      rw [List.mem_singleton.mp single]
      -- The other blobs end in front of the run, and a maximal run does not touch another one.
      obtain ⟨blob, early⟩ := (scanned.found range).mp mem
      exact blob.run.apart run (Nat.lt_of_le_of_lt blob.run.ordered early)
  · rename_i few
    refine ⟨bound, fun _ _ _ => stops, fun range => ?_, scanned.apart⟩
    rw [scanned.found]
    refine and_congr_right fun blob => ?_
    rw [scanned.ends_inside moves blob]
    refine ⟨.inl, fun ends => ends.resolve_right ?_⟩
    -- The run has too few lines to be a blob.
    rintro ⟨first, last⟩
    have enough := blob.enough
    rw [first, last] at enough
    exact few enough

/-- At its end, the outer loop has found all blobs. -/
theorem Scanned.loop (scanned : Scanned lines i out) :
    Scanned lines lines.length (base64BlobLoop lines i out) := by
  -- Each turn of the loop keeps what holds at its index.
  fun_induction base64BlobLoop lines i out with
  | case1 i out inside base64 moves last ih => exact ih (scanned.blob moves _)
  | case2 i out inside other ih =>
    exact ih (scanned.skip inside fun passes => other ((passesAt_iff inside).mp passes))
  | case3 i out outside =>
    rw [Nat.le_antisymm scanned.within (Nat.le_of_not_lt outside)] at scanned
    exact scanned

/-- The inner loop passes as many lines as begin the rest of the file. -/
theorem skipBase64Lines_eq (lines : List (List Char)) (i : Nat) :
    skipBase64Lines lines i = i + ((lines.drop i).takeWhile isBase64Line).length := by
  fun_induction skipBase64Lines lines i with
  | case1 i inside base64 ih =>
    -- One more line is passed, and one more is taken.
    rw [ih, List.drop_eq_getElem_cons inside, List.takeWhile_cons_of_pos base64, List.length_cons]
    omega
  | case2 i inside other =>
    rw [List.drop_eq_getElem_cons inside, List.takeWhile_cons_of_neg other]
    rfl
  | case3 i outside =>
    rw [List.drop_eq_nil_of_le (Nat.le_of_not_lt outside)]
    rfl

/-- Behind the lines that a test takes from the front of a list are those that it leaves. -/
theorem drop_length_takeWhile {α : Type} (test : α → Bool) (items : List α) :
    items.drop (items.takeWhile test).length = items.dropWhile test := by
  have whole : (items.takeWhile test ++ items.dropWhile test).drop (items.takeWhile test).length =
      items.dropWhile test := List.drop_left
  rw [List.takeWhile_append_dropWhile] at whole
  exact whole

/-- The loops find what is found by recursion on the rest of the file. -/
theorem base64BlobLoop_eq (lines : List (List Char)) (i : Nat) (out : List LineRange) :
    base64BlobLoop lines i out = out ++ base64BlobsFrom i (lines.drop i) := by
  fun_induction base64BlobLoop lines i out with
  | case1 i out inside base64 moves last ih =>
    simp only [dite_eq_ite] at ih
    have passed : skipBase64Lines lines i =
        i + ((lines.drop (i + 1)).takeWhile isBase64Line).length + 1 := by
      rw [skipBase64Lines_eq, List.drop_eq_getElem_cons inside,
        List.takeWhile_cons_of_pos base64, List.length_cons, Nat.add_assoc]
    -- What is left behind the run is what the recursion goes on with.
    have rest : lines.drop (skipBase64Lines lines i) =
        (lines.drop (i + 1)).dropWhile isBase64Line := by
      rw [passed, Nat.add_right_comm, ← List.drop_drop, drop_length_takeWhile]
    have ends : last = i + ((lines.drop (i + 1)).takeWhile isBase64Line).length :=
      Nat.sub_eq_of_eq_add passed
    rw [ih, rest, List.drop_eq_getElem_cons inside, base64BlobsFrom, if_pos base64, passed]
    simp only [ends, Nat.add_sub_cancel_left]
    -- A run of enough lines comes first in what the recursion finds.
    split
    · exact List.append_cons _ _ _ |>.symm
    · rfl
  | case2 i out inside other ih =>
    rw [ih, List.drop_eq_getElem_cons inside, base64BlobsFrom, if_neg other]
  | case3 i out outside =>
    rw [List.drop_eq_nil_of_le (Nat.le_of_not_lt outside), base64BlobsFrom, List.append_nil]

/-- Both ways, all blobs of a file are found. -/
theorem scanned_detectBase64Blobs (lines : List (List Char)) :
    Scanned lines lines.length (detectBase64Blobs lines) := by
  have loops : base64BlobLoop lines 0 [] = detectBase64Blobs lines := base64BlobLoop_eq lines 0 []
  rw [← loops]
  exact (scanned_start lines).loop

/-- What is found is a blob, and every blob is found. -/
theorem mem_detectBase64Blobs {range : LineRange} :
    range ∈ detectBase64Blobs lines ↔ IsBase64Blob lines range :=
  ((scanned_detectBase64Blobs lines).found range).trans
    (and_iff_left_of_imp fun blob => blob.run.inside)

/-- Enough base64 lines in a row are part of a blob. -/
theorem exists_base64Blob {first last : Nat} (ordered : first ≤ last)
    (passes : ∀ place, first ≤ place → place ≤ last → PassesAt isBase64Line lines place)
    (enough : base64MinLines ≤ last - first + 1) :
    ∃ range, IsBase64Blob lines range ∧ range.first ≤ first ∧ last ≤ range.last := by
  obtain ⟨first', last', run, early, late⟩ := exists_maximalRun ordered passes
  refine ⟨⟨first', last', run.ordered⟩, ⟨run, ?_⟩, early, late⟩
  -- The run that the lines are part of has as many lines at least.
  show base64MinLines ≤ last' - first' + 1
  omega

/--
The loops come to an end with the blobs of the file, which are its maximal runs of enough base64
lines. They lie in the file from the front to the back, no two of them touch, and enough base64
lines in a row are part of one of them.
-/
theorem detectBase64Blobs_exact (lines : List (List Char)) :
    base64BlobLoop lines 0 [] = detectBase64Blobs lines ∧
    (∀ range, range ∈ detectBase64Blobs lines ↔ IsBase64Blob lines range) ∧
    (∀ range ∈ detectBase64Blobs lines, range.first ≤ range.last ∧ range.last < lines.length) ∧
    (detectBase64Blobs lines).Pairwise (fun range other => range.last + 1 < other.first) ∧
    ∀ first last, first ≤ last →
      (∀ place, first ≤ place → place ≤ last → PassesAt isBase64Line lines place) →
      base64MinLines ≤ last - first + 1 →
      ∃ range ∈ detectBase64Blobs lines, range.first ≤ first ∧ last ≤ range.last := by
  -- What holds when the loop has come to the end of the file holds of all blobs.
  refine ⟨base64BlobLoop_eq lines 0 [], fun range => mem_detectBase64Blobs, fun range mem => ?_,
    (scanned_detectBase64Blobs lines).apart, fun first last ordered passes enough => ?_⟩
  · exact ⟨range.ordered, (mem_detectBase64Blobs.mp mem).run.inside⟩
  · obtain ⟨range, blob, parts⟩ := exists_base64Blob ordered passes enough
    exact ⟨range, mem_detectBase64Blobs.mpr blob, parts⟩

/-- Four lines are too few, and five lines up to the end of a file are a blob. -/
example :
    detectBase64Blobs (List.replicate 4 (List.replicate 60 'A') ++
      [] :: List.replicate 5 (List.replicate 60 'A')) = [⟨5, 9, by decide⟩] := by
  decide +kernel

end McpCli
