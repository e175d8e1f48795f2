import Mathlib.Data.List.TakeWhile
import McpCli.Proofs.Daemon.PatchHunks
import McpCli.Text.Cut

/-! What a patch that applies does to the lines of the original, and when applying one panics. -/

namespace McpCli

open Text

/-- The old side and the new side of a hunk. -/
def PatchHunk.edit (hunk : PatchHunk) : List (List Char) × List (List Char) := (hunk.old, hunk.new)

/-- Hunks that fit replace lines of the original. -/
theorem Fits.replaces {lines : List (List Char)} {hunks : List PatchHunk} {reached : Nat}
    (fits : Fits lines reached hunks) :
    Replaces (lines.drop reached) (hunks.map PatchHunk.edit) (pieces lines reached hunks) := by
  induction hunks generalizing reached with
  | nil => exact .nil _
  | cons hunk rest ih =>
    obtain ⟨here, behind⟩ := fits
    have replaces := ih behind
    -- The lines up to the hunk, its old lines, and what is left.
    have split : lines.drop reached =
        (lines.take hunk.start).drop reached ++ hunk.old ++
          lines.drop (hunk.start + hunk.old.length) := by
      obtain ⟨left, same⟩ := here.same
      have left_eq : lines.drop (hunk.start + hunk.old.length) = left := by
        rw [← List.drop_drop, ← same, List.drop_left]
      have whole := congrArg (List.drop reached) (List.take_append_drop hunk.start lines)
      rw [List.drop_append_of_le_length] at whole
      · rw [← whole, ← same, left_eq, List.append_assoc]
      · rw [List.length_take]
        exact Nat.le_min.mpr ⟨here.behind, Nat.le_trans here.behind here.inside⟩
    rw [split, pieces, ← List.append_assoc]
    exact .edit _ _ _ replaces

/-- The bodies of hunks as they come out of the lines of a patch. -/
def BodiesCut : List PatchHunk → Prop
  | [] => True
  | hunk :: rest =>
    Cut '\n' hunk.body ∧ (rest ≠ [] → ∀ line ∈ hunk.body, IsLine '\n' line) ∧ BodiesCut rest

/-- There is no hunk without a header. -/
theorem hunksOf_eq_nil {patch : List (List Char)} (body : ∀ line ∈ patch, inBody line = true) :
    hunksOf patch = [] := by
  -- A line of a body is no header.
  induction patch with
  | nil => rfl
  | cons line rest ih =>
    rw [List.forall_mem_cons] at body
    have outside : ¬ startsWith line "@@ " = true := by
      intro header
      simp [inBody, header] at body
    rw [hunksOf, if_neg outside, ih body.2]

/-- Only the last line of a patch may be without its end, so only the last one of its hunks. -/
theorem bodiesCut_hunksOf {patch : List (List Char)} (cut : Cut '\n' patch) :
    BodiesCut (hunksOf patch) := by
  induction patch with
  | nil => trivial
  | cons line rest ih =>
    have behind : Cut '\n' rest := @Cut.right _ _ [line] rest cut
    rw [hunksOf]
    split
    · have parts : rest.takeWhile inBody ++ rest.dropWhile inBody = rest :=
        List.takeWhile_append_dropWhile
      have within : Cut '\n' (rest.takeWhile inBody ++ rest.dropWhile inBody) := parts.symm ▸ behind
      refine ⟨within.left, fun others => ?_, ih behind⟩
      -- The header of the next hunk is not in the body of this one.
      have left : rest.dropWhile inBody ≠ [] := by
        intro none_left
        exact others (hunksOf_eq_nil (List.dropWhile_eq_nil_iff.mp none_left))
      exact ((cut_append_iff left).mp within).1
    · exact ih behind

/-- Without its tag, a line has its end exactly if it had one. -/
theorem isLine_tagged {tag : Char} {content : List Char} (other : tag ≠ '\n') :
    IsLine '\n' (tag :: content) ↔ IsLine '\n' content := by
  -- The tag is not the line end, so it is in front of the rest of the line.
  constructor
  · intro isLine
    obtain ⟨body, outside, same⟩ := isLine
    cases body with
    | nil => exact absurd (List.cons.inj same).1 other
    | cons first rest =>
      exact ⟨rest, fun member => outside (List.mem_cons_of_mem _ member), (List.cons.inj same).2⟩
  · exact fun isLine => isLine.cons other

/-- The sides of a hunk's line are that line without its tag. -/
theorem side_tagged {line content : List Char}
    (side : oldSide line = some content ∨ newSide line = some content) :
    ∃ tag, tag ≠ '\n' ∧ line = tag :: content := by
  -- A line has a side only if it begins with a tag.
  cases line with
  | nil => rcases side with side | side <;> cases side
  | cons tag rest =>
    rcases side with side | side
    · rw [oldSide, Option.ite_none_right_eq_some, Option.some.injEq] at side
      refine ⟨tag, ?_, by rw [side.2]⟩
      rcases side.1 with rfl | rfl <;> decide
    · rw [newSide, Option.ite_none_right_eq_some, Option.some.injEq] at side
      refine ⟨tag, ?_, by rw [side.2]⟩
      rcases side.1 with rfl | rfl <;> decide

/-- Of whole lines the sides are whole lines too. -/
theorem sides_areLines {hunk : PatchHunk} (areLines : ∀ line ∈ hunk.body, IsLine '\n' line) :
    (∀ line ∈ hunk.old, IsLine '\n' line) ∧ ∀ line ∈ hunk.new, IsLine '\n' line := by
  -- Either side is made of lines of the body without their tags.
  refine ⟨?_, ?_⟩
  · intro content member
    obtain ⟨line, inside, side⟩ := List.mem_filterMap.mp member
    obtain ⟨tag, other, rfl⟩ := side_tagged (.inl side)
    exact (isLine_tagged other).mp (areLines _ inside)
  · intro content member
    obtain ⟨line, inside, side⟩ := List.mem_filterMap.mp member
    obtain ⟨tag, other, rfl⟩ := side_tagged (.inr side)
    exact (isLine_tagged other).mp (areLines _ inside)

/-- The new side of a hunk can be lines of a text exactly if none of them is empty. -/
theorem cut_new_iff {hunk : PatchHunk} (cut : Cut '\n' hunk.body) :
    Cut '\n' hunk.new ↔ ∀ line ∈ hunk.new, line ≠ [] := by
  refine ⟨fun lines line member => lines.ne_nil member, ?_⟩
  unfold PatchHunk.new
  -- Only the last line of the body may be without its end.
  generalize hunk.body = body at cut
  induction body with
  | nil => exact fun _ => trivial
  | cons first rest ih =>
    intro nonempty
    rcases cut with ⟨isLine, others⟩ | ⟨rfl, _, outside⟩
    · cases side : newSide first with
      | none =>
        rw [List.filterMap_cons_none side] at nonempty ⊢
        exact ih others nonempty
      | some content =>
        rw [List.filterMap_cons_some side, List.forall_mem_cons] at nonempty
        rw [List.filterMap_cons_some side]
        obtain ⟨tag, other, rfl⟩ := side_tagged (.inr side)
        exact .inl ⟨(isLine_tagged other).mp isLine, ih others nonempty.2⟩
    · cases side : newSide first with
      | none =>
        rw [List.filterMap_cons_none side]
        trivial
      | some content =>
        rw [List.filterMap_cons_some side, List.forall_mem_cons] at nonempty
        rw [List.filterMap_cons_some side]
        obtain ⟨tag, other, rfl⟩ := side_tagged (.inr side)
        exact .inr ⟨rfl, nonempty.1, fun member => outside (List.mem_cons_of_mem _ member)⟩

/-- Behind the last line of the original there is nothing left but what is added. -/
theorem Fits.pieces_behind {lines : List (List Char)} {hunks : List PatchHunk}
    (fits : Fits lines lines.length hunks) :
    (∀ hunk ∈ hunks, hunk.start = lines.length) ∧
      pieces lines lines.length hunks = hunks.flatMap PatchHunk.new := by
  -- A hunk behind all lines takes none of them, so the next one is behind all lines too.
  induction hunks with
  | nil => exact ⟨by simp, List.drop_length⟩
  | cons hunk rest ih =>
    obtain ⟨here, behind⟩ := fits
    have start : hunk.start = lines.length := Nat.le_antisymm here.inside here.behind
    have ends : hunk.start + hunk.old.length = lines.length :=
      Nat.le_antisymm here.ends (start ▸ Nat.le_add_right _ _)
    rw [ends] at behind
    obtain ⟨starts, whole⟩ := ih behind
    refine ⟨List.forall_mem_cons.mpr ⟨start, starts⟩, ?_⟩
    rw [pieces, ends, whole, start, List.take_length, List.drop_length, List.nil_append,
      List.flatMap_cons]

/-- What a hunk adds is among the pieces. -/
theorem new_subset_pieces (lines : List (List Char)) {hunks : List PatchHunk} (reached : Nat)
    {hunk : PatchHunk} (member : hunk ∈ hunks) : hunk.new ⊆ pieces lines reached hunks := by
  -- The pieces are those of the first hunk and, behind them, those of the others.
  induction hunks generalizing reached with
  | nil => cases member
  | cons first rest ih =>
    rw [pieces]
    rcases List.mem_cons.mp member with rfl | later
    · exact fun _ inside => List.mem_append_right _ (List.mem_append_left _ inside)
    · exact fun _ inside =>
        List.mem_append_right _ (List.mem_append_right _ (ih _ later inside))

/-- The hunk adds nothing empty, and what it leaves without an end is at the end of the text. -/
def OpenAtEnd (lines : List (List Char)) (hunk : PatchHunk) : Prop :=
  ∀ line ∈ hunk.new,
    line ≠ [] ∧ (IsLine '\n' line ∨ hunk.start + hunk.old.length = lines.length)

/-- The hunk adds something behind the last line of the original. -/
def AddsBehind (lines : List (List Char)) (hunk : PatchHunk) : Prop :=
  hunk.start = lines.length ∧ hunk.new ≠ []

instance (lines : List (List Char)) (hunk : PatchHunk) : Decidable (OpenAtEnd lines hunk) :=
  inferInstanceAs (Decidable (∀ line ∈ hunk.new, _))

instance (lines : List (List Char)) (hunk : PatchHunk) : Decidable (AddsBehind lines hunk) :=
  inferInstanceAs (Decidable (_ ∧ _))

section
variable {lines : List (List Char)} {hunk : PatchHunk} {rest : List PatchHunk} {reached : Nat}

/-- The lines that a hunk adds can be followed by the others. -/
theorem cut_new_append_iff (cut : Cut '\n' lines) (bodies : BodiesCut (hunk :: rest))
    (here : hunk.FitsAt lines reached) :
    Cut '\n' (hunk.new ++ pieces lines (hunk.start + hunk.old.length) rest) ↔
      OpenAtEnd lines hunk ∧ Cut '\n' (pieces lines (hunk.start + hunk.old.length) rest) := by
  obtain ⟨body, ended, _⟩ := bodies
  by_cases others : rest = []
  · -- Behind the last hunk are the lines of the original that are left.
    subst others
    have left : Cut '\n' (lines.drop (hunk.start + hunk.old.length)) := by
      rw [← List.take_append_drop (hunk.start + hunk.old.length) lines] at cut
      exact cut.right
    rw [pieces, and_iff_left left]
    rcases Nat.lt_or_eq_of_le here.ends with more | all
    · have nonempty : lines.drop (hunk.start + hunk.old.length) ≠ [] := by
        rw [ne_eq, List.drop_eq_nil_iff]
        omega
      rw [cut_append_iff nonempty, and_iff_left left]
      refine forall₂_congr fun line _ => ?_
      simp only [Nat.ne_of_lt more, or_false]
      exact (and_iff_right_of_imp fun isLine => List.ne_nil_of_mem isLine.mem).symm
    · rw [all, List.drop_length, List.append_nil, cut_new_iff body]
      simp only [OpenAtEnd, all, or_true, and_true]
  · -- The lines of an earlier hunk all have ends.
    have areLines := (sides_areLines (ended others)).2
    have openAtEnd : OpenAtEnd lines hunk := fun line member =>
      ⟨List.ne_nil_of_mem (areLines line member).mem, .inl (areLines line member)⟩
    rw [and_iff_right openAtEnd]
    by_cases none_left : pieces lines (hunk.start + hunk.old.length) rest = []
    · rw [none_left, List.append_nil]
      exact iff_of_true (.of_lines areLines) trivial
    · rw [cut_append_iff none_left, and_iff_right areLines]

/-- The lines in front of a hunk have ends, unless they are all there are and the last has none. -/
theorem gap_areLines_iff (cut : Cut '\n' lines) (bodies : BodiesCut (hunk :: rest))
    (here : hunk.FitsAt lines reached)
    (behind : Fits lines (hunk.start + hunk.old.length) rest)
    (nonempty : hunk.new ++ pieces lines (hunk.start + hunk.old.length) rest ≠ []) :
    (∀ line ∈ (lines.take hunk.start).drop reached, IsLine '\n' line) ∧
        (hunk.start + hunk.old.length < lines.length →
          (∃ other ∈ rest, AddsBehind lines other) → ∀ line ∈ lines, IsLine '\n' line) ↔
      (reached < lines.length →
        (∃ other ∈ hunk :: rest, AddsBehind lines other) → ∀ line ∈ lines, IsLine '\n' line) := by
  -- Where the hunk stands decides which of the two conditions speaks of it.
  obtain ⟨_, ended, _⟩ := bodies
  have parts := List.take_append_drop hunk.start lines
  rcases Nat.lt_or_eq_of_le here.inside with before | atEnd
  · -- The last line of the original is not in front of the hunk.
    have gap : ∀ line ∈ (lines.take hunk.start).drop reached, IsLine '\n' line := by
      intro line member
      have some_left : lines.drop hunk.start ≠ [] := by
        rw [ne_eq, List.drop_eq_nil_iff]
        omega
      rw [← parts] at cut
      exact ((cut_append_iff some_left).mp cut).1 line (List.drop_subset _ _ member)
    have later : (∃ other ∈ hunk :: rest, AddsBehind lines other) ↔
        ∃ other ∈ rest, AddsBehind lines other := by
      have not_here : ¬ AddsBehind lines hunk := fun adds => Nat.ne_of_lt before adds.1
      simp [not_here]
    have inFront : reached < lines.length := Nat.lt_of_le_of_lt here.behind before
    rw [and_iff_right gap, later]
    simp only [inFront, forall_const]
    rcases Nat.lt_or_eq_of_le here.ends with more | all
    · simp only [more, forall_const]
    · -- The hunk takes the last line, which has its end if a hunk comes behind it.
      simp only [all, Nat.lt_irrefl, IsEmpty.forall_iff, true_iff]
      intro some_hunk
      obtain ⟨other, member, _⟩ := some_hunk
      have areLines := (sides_areLines (ended (List.ne_nil_of_mem member))).1
      have taken : hunk.old = lines.drop hunk.start := by
        apply here.same.eq_of_length
        rw [List.length_drop]
        omega
      have some_left : lines.drop hunk.start ≠ [] := by
        rw [ne_eq, List.drop_eq_nil_iff]
        omega
      rw [← parts] at cut ⊢
      exact cut.ended some_left (taken ▸ areLines)
  · -- The hunk is behind all lines, and adds something or is followed by one that does.
    have ends : hunk.start + hunk.old.length = lines.length :=
      Nat.le_antisymm here.ends (atEnd ▸ Nat.le_add_right _ _)
    rw [ends] at behind nonempty
    obtain ⟨starts, whole⟩ := behind.pieces_behind
    have adds : ∃ other ∈ hunk :: rest, AddsBehind lines other := by
      by_cases own : hunk.new = []
      · rw [whole, own, List.nil_append, ne_eq, List.flatMap_eq_nil_iff, not_forall₂] at nonempty
        obtain ⟨other, member, some_line⟩ := nonempty
        exact ⟨other, List.mem_cons_of_mem _ member, starts other member, some_line⟩
      · exact ⟨hunk, List.mem_cons_self, atEnd, own⟩
    simp only [ends, Nat.lt_irrefl, IsEmpty.forall_iff, and_true, adds, forall_const]
    rw [atEnd, List.take_length]
    rcases Nat.lt_or_eq_of_le (atEnd ▸ here.behind) with before | all
    · have some_left : lines.drop reached ≠ [] := by
        rw [ne_eq, List.drop_eq_nil_iff]
        omega
      simp only [before, forall_const]
      constructor
      · intro areLines
        rw [← List.take_append_drop reached lines] at cut ⊢
        exact cut.ended some_left areLines
      · exact fun areLines line member => areLines line (List.drop_subset _ _ member)
    · simp [all]

/-- The pieces that hunks leave are lines as a text is cut into them, under these two conditions. -/
theorem cut_pieces_iff {hunks : List PatchHunk} (cut : Cut '\n' lines) (bodies : BodiesCut hunks)
    (fits : Fits lines reached hunks) :
    Cut '\n' (pieces lines reached hunks) ↔
      (∀ hunk ∈ hunks, OpenAtEnd lines hunk) ∧
      (reached < lines.length →
        (∃ hunk ∈ hunks, AddsBehind lines hunk) → ∀ line ∈ lines, IsLine '\n' line) := by
  -- The pieces of one hunk are put in front of those of the others.
  induction hunks generalizing reached with
  | nil =>
    refine iff_of_true ?_ (by simp)
    rw [← List.take_append_drop reached lines] at cut
    exact cut.right
  | cons hunk rest ih =>
    obtain ⟨here, behind⟩ := fits
    have later := ih bodies.2.2 behind
    have own := cut_new_append_iff cut bodies here
    rw [pieces, List.forall_mem_cons]
    by_cases none_left : hunk.new ++ pieces lines (hunk.start + hunk.old.length) rest = []
    · -- Nothing is added at all.
      obtain ⟨noNew, noneBehind⟩ := List.append_eq_nil_iff.mp none_left
      have noneAdds : ¬ ∃ other ∈ hunk :: rest, AddsBehind lines other := by
        intro adds
        obtain ⟨other, member, _, some_line⟩ := adds
        rcases List.mem_cons.mp member with rfl | inside
        · exact some_line noNew
        · have within := new_subset_pieces lines (hunk.start + hunk.old.length) inside
          rw [noneBehind] at within
          exact some_line (List.subset_nil.mp within)
      rw [none_left] at own ⊢
      rw [noneBehind] at later
      refine iff_of_true ?_ ⟨⟨(own.mp trivial).1, (later.mp trivial).1⟩, fun _ adds =>
        absurd adds noneAdds⟩
      rw [List.append_nil]
      rw [← List.take_append_drop hunk.start lines] at cut
      have gap := cut.left
      rw [← List.take_append_drop reached (lines.take hunk.start)] at gap
      exact gap.right
    · rw [cut_append_iff none_left, own, later, ← gap_areLines_iff cut bodies here behind none_left]
      -- The condition on the gap is part of the one on the lines behind.
      constructor
      · intro each
        obtain ⟨gap, opens, others, ends⟩ := each
        exact ⟨⟨opens, others⟩, gap, ends⟩
      · intro each
        obtain ⟨⟨opens, others⟩, gap, ends⟩ := each
        exact ⟨gap, opens, others, ends⟩

end

/-- The lines of what comes out are replaced ones exactly if the pieces are lines of a text. -/
theorem replaces_iff_cut {lines : List (List Char)} {hunks : List PatchHunk}
    (fits : Fits lines 0 hunks) :
    Replaces lines (hunks.map PatchHunk.edit) (splitInclusive '\n' (pieces lines 0 hunks).flatten) ↔
      Cut '\n' (pieces lines 0 hunks) := by
  have own : Replaces lines (hunks.map PatchHunk.edit) (pieces lines 0 hunks) := fits.replaces
  constructor
  · intro replaces
    -- Found elsewhere, the hunks leave the same lines in some order, and the same text.
    obtain ⟨cut, whole⟩ := splitInclusive_spec '\n' (pieces lines 0 hunks).flatten
    refine cut.of_perm ?_ whole.symm
    exact (List.perm_append_right_iff _).mp (own.perm.trans replaces.perm.symm)
  · intro cut
    rw [splitInclusive_flatten_iff.mpr cut]
    exact own

/--
The lines of what a patch leads to are those of the original with the old side of each hunk
replaced by the new one, exactly under two conditions: a hunk adds nothing empty, and what it
leaves without an end is at the end of the text; and if the original ends within a line, nothing is
added behind it.
-/
theorem applyUnifiedPatch_replaces_iff {original patch out : List Char}
    (applies : applyUnifiedPatch original patch = .ok out) :
    Replaces (splitInclusive '\n' original) ((patchHunks patch).map PatchHunk.edit)
        (splitInclusive '\n' out) ↔
      (∀ hunk ∈ patchHunks patch, OpenAtEnd (splitInclusive '\n' original) hunk) ∧
      (Terminated original ∨
        ∀ hunk ∈ patchHunks patch, ¬ AddsBehind (splitInclusive '\n' original) hunk) := by
  obtain ⟨_, fits, rfl⟩ := applyUnifiedPatch_eq_ok.mp applies
  have cut := (splitInclusive_spec '\n' original).1
  have bodies : BodiesCut (patchHunks patch) :=
    bodiesCut_hunksOf (splitInclusive_spec '\n' patch).1
  rw [replaces_iff_cut fits, cut_pieces_iff cut bodies fits, terminated_iff]
  refine and_congr_right fun _ => ?_
  constructor
  · intro ends
    by_contra neither
    obtain ⟨open_, some_adds⟩ := not_or.mp neither
    obtain ⟨hunk, member, adds⟩ := not_forall₂.mp some_adds
    -- Without any line, all lines have ends.
    apply open_
    intro line inside
    exact ends (List.length_pos_of_mem inside) ⟨hunk, member, not_not.mp adds⟩ line inside
  · intro either _ some_adds
    obtain ⟨hunk, member, adds⟩ := some_adds
    exact either.resolve_right fun none_adds => none_adds hunk member adds

/-- A replaced line leaves the others as they are, also where the last line has no end. -/
theorem applyUnifiedPatch_replaces_openEnd :
    applyUnifiedPatch "a\nb\nc".toList "@@ -2 +2 @@\n-b\n+B\n".toList = .ok "a\nB\nc".toList ∧
    Replaces (splitInclusive '\n' "a\nb\nc".toList)
      ((patchHunks "@@ -2 +2 @@\n-b\n+B\n".toList).map PatchHunk.edit)
      (splitInclusive '\n' "a\nB\nc".toList) :=
  ⟨by decide, (applyUnifiedPatch_replaces_iff (by decide)).mpr ⟨by decide, .inr (by decide)⟩⟩

/-- The last line of a patch without an end joins with the line of the original behind it. -/
theorem applyUnifiedPatch_joins_openLine :
    applyUnifiedPatch "a\nb\n".toList "@@ -1 +1,2 @@\n a\n+x".toList = .ok "a\nxb\n".toList ∧
    (patchHunks "@@ -1 +1,2 @@\n a\n+x".toList).map PatchHunk.edit =
      [(["a\n".toList], ["a\n".toList, "x".toList])] ∧
    ¬ Replaces ["a\n".toList, "b\n".toList] [(["a\n".toList], ["a\n".toList, "x".toList])]
      ["a\n".toList, "xb\n".toList] := by
  refine ⟨by decide, by decide, ?_⟩
  -- Three lines would have to come out.
  intro replaces
  have lengths := replaces.perm.length_eq
  revert lengths
  decide

/--
Applying a patch never panics exactly where no line of a hunk begins with a character of more than
one byte behind lines that all apply.
-/
theorem applyUnifiedPatch_ne_panic_iff (original patch : List Char) :
    applyUnifiedPatch original patch ≠ .error .panic ↔
      ∀ front hunk back done line left, patchHunks patch = front ++ hunk :: back →
        hunk.body = done ++ line :: left → isWide line = true →
          ¬ Fits (splitInclusive '\n' original) 0 (front ++ [{ hunk with body := done }]) := by
  -- A panic is the walk that comes to such a line.
  rw [ne_eq, applyUnifiedPatch_eq_panic]
  constructor
  · intro none_panics front hunk back done line left hunks body wide fits
    exact none_panics ⟨front, hunk, back, done, line, left, hunks, body, wide, fits⟩
  · intro none_wide panicked
    obtain ⟨front, hunk, back, done, line, left, hunks, body, wide, fits⟩ := panicked
    exact none_wide front hunk back done line left hunks body wide fits

/-- A line that begins with such a character is split inside of it. -/
theorem applyUnifiedPatch_panics_wide :
    applyUnifiedPatch "a\n".toList "@@ -1 +1 @@\né\n".toList = .error .panic := by decide

end McpCli
