import Mathlib.Algebra.Order.BigOperators.Group.List
import Mathlib.Algebra.Order.Group.Nat
import Mathlib.Data.List.TakeWhile
import McpCli.Proofs.Daemon.PatchHunks
import McpCli.Text.TextDiff

/-! What applying a unified diff to the text that it starts from gives. -/

namespace McpCli

open Text

/-- A range in a hunk header starts with its first number. -/
theorem renderRange_splitOn (short : Bool) (before count : Nat) :
    ∃ rest, (renderRange short before count).splitOn ',' =
      decimal (if count = 0 then before else before + 1) :: rest := by
  -- The comma, if there is one, is the first character that is no digit.
  have noComma : ∀ n, ',' ∉ decimal n := by
    intro n member
    cases isDigit_of_mem_decimal member
  simp only [renderRange]
  generalize (if count = 0 then before else before + 1) = first
  split
  · rw [List.append_nil, List.splitOn_eq_singleton (noComma _)]
    exact ⟨[], rfl⟩
  · rw [List.splitOn_append_cons_self_of_not_mem (noComma _)]
    exact ⟨_, rfl⟩

/-- A range consists of digits and commas. -/
theorem solid_of_mem_renderRange {short : Bool} {before count : Nat} {c : Char}
    (member : c ∈ renderRange short before count) : c.isDigit = true ∨ c = ',' := by
  -- A range is a number, a comma and another number, of which the last two can be missing.
  simp only [renderRange, List.mem_append] at member
  rcases member with member | member
  · exact Or.inl (isDigit_of_mem_decimal member)
  · split at member
    · cases member
    · rcases List.mem_cons.mp member with rfl | member
      · exact Or.inr rfl
      · exact Or.inl (isDigit_of_mem_decimal member)

/-- The first two words of a hunk header are its mark and its old range. -/
theorem splitWhitespace_renderHeader (short : Bool) (heading : List Char)
    (oldBefore oldCount newBefore newCount : Nat) :
    ∃ others, splitWhitespace (renderHeader short heading oldBefore oldCount newBefore newCount) =
      ['@', '@'] :: ('-' :: renderRange short oldBefore oldCount) :: others := by
  have blank : isWhitespace ' ' = true := by decide
  have mark : ∀ c ∈ ['@', '@'], isWhitespace c = false := by
    intro c member
    rcases List.mem_pair.mp member with rfl | rfl
    · rfl
    · rfl
  have solid : ∀ c ∈ '-' :: renderRange short oldBefore oldCount, isWhitespace c = false := by
    intro c member
    rcases List.mem_cons.mp member with rfl | member
    · rfl
    · rcases solid_of_mem_renderRange member with digit | rfl
      · exact isWhitespace_of_isDigit digit
      · rfl
  -- Each of the two words is followed by a blank.
  have shape : renderHeader short heading oldBefore oldCount newBefore newCount =
      ['@', '@'] ++ ' ' :: (('-' :: renderRange short oldBefore oldCount) ++ ' ' ::
        ('+' :: renderRange short newBefore newCount ++ " @@".toList ++ heading ++ ['\n'])) := by
    have opening : "@@ -".toList = ['@', '@', ' ', '-'] := by decide
    have between : " +".toList = [' ', '+'] := by decide
    unfold renderHeader
    generalize renderRange short oldBefore oldCount = oldRange
    generalize renderRange short newBefore newCount = newRange
    simp only [opening, between, List.append_assoc, List.cons_append, List.nil_append]
  rw [shape, splitWhitespace_word (List.cons_ne_nil _ _) mark blank,
    splitWhitespace_word (List.cons_ne_nil _ _) solid blank]
  exact ⟨_, rfl⟩

/-- The header of a hunk is read back as its first number, whatever the count behind it says. -/
theorem parseHunkHeader_renderHeader (short : Bool) (heading : List Char)
    {oldBefore oldCount : Nat} (newBefore newCount : Nat) (fits : oldBefore + oldCount < 2 ^ 64) :
    ∃ count, parseHunkHeader (renderHeader short heading oldBefore oldCount newBefore newCount) =
      .ok (if oldCount = 0 then oldBefore else oldBefore + 1, count) := by
  obtain ⟨others, words⟩ :=
    splitWhitespace_renderHeader short heading oldBefore oldCount newBefore newCount
  obtain ⟨rest, parts⟩ := renderRange_splitOn short oldBefore oldCount
  -- Only the one dash in front of the number is dropped.
  have digits : (renderRange short oldBefore oldCount).dropWhile (fun c => decide (c = '-')) =
      renderRange short oldBefore oldCount := by
    cases range : renderRange short oldBefore oldCount with
    | nil => rfl
    | cons first others =>
      apply List.dropWhile_cons_of_neg
      intro dash
      have same : first = '-' := by simpa using dash
      have member : first ∈ renderRange short oldBefore oldCount := by
        rw [range]
        exact List.mem_cons_self
      rcases solid_of_mem_renderRange member with digit | comma
      · rw [same] at digit
        cases digit
      · rw [same] at comma
        cases comma
  have small : (if oldCount = 0 then oldBefore else oldBefore + 1) < 2 ^ 64 := by
    split <;> omega
  refine ⟨(rest[0]?.bind parseUsize).getD 1, ?_⟩
  simp [parseHunkHeader, words, digits, parts, parseUsize_decimal small]

/-- The line looks like a file header once its tag is put in front of it. -/
def fileLike : DiffLine → Bool
  -- A context line begins with a blank, so no content makes it a header.
  | .context _ => false
  | .removed line => startsWith line.body "-- "
  | .added line => startsWith line.body "++ "

/-- The lines of a body up to the first one that looks like a file header. -/
def appliedLines (body : List DiffLine) : List DiffLine := body.takeWhile fun line => !fileLike line

/-- The lines of a body from the first one on that looks like a file header. -/
def ignoredLines (body : List DiffLine) : List DiffLine := body.dropWhile fun line => !fileLike line

/-- What a hunk is taken for. -/
def misreadHunk (hunk : DiffHunk) : List TextLine :=
  -- Each line that is added gets an end.
  let added := (news (appliedLines hunk.body)).map TextLine.withEnd
  -- What is only inserted comes one line too early, unless that is in front of the text.
  if olds hunk.body = [] then hunk.gap.dropLast ++ added ++ hunk.gap.getLast?.toList
  -- What is not removed stays, and what is not added is missing.
  else hunk.gap ++ added ++ olds (ignoredLines hunk.body)

/-- The text that a diff is taken to lead to. -/
def misread (diff : TextDiff) : List TextLine := diff.hunks.flatMap misreadHunk ++ diff.tail

/-- The end of a line does not make it begin with anything else. -/
theorem startsWith_concat {mark : String} (oneLine : '\n' ∉ mark.toList) (body : List Char) :
    startsWith (body ++ ['\n']) mark = startsWith body mark := by
  rw [Bool.eq_iff_iff, startsWith, startsWith, List.isPrefixOf_iff_prefix,
    List.isPrefixOf_iff_prefix, List.prefix_concat_iff]
  -- A mark that is the whole line with its end would have the line end in it.
  constructor
  · intro either
    rcases either with whole | inside
    · rw [whole] at oneLine
      simp at oneLine
    · exact inside
  · exact .inr

/-- No body line is taken for a hunk header. -/
theorem startsWith_hunk_of_mem_render {diffLine : DiffLine} :
    ∀ line ∈ diffLine.render, startsWith line "@@ " = false := by
  -- Tags and remarks begin with other characters.
  intro line member
  rcases List.mem_cons.mp member with rfl | member
  · cases diffLine <;> rfl
  · split at member
    · cases member
    · rw [List.mem_singleton.mp member]
      rfl

/-- A body line goes on with the hunk unless it looks like a file header. -/
theorem inBody_render (diffLine : DiffLine) :
    inBody (diffLine.tag :: (diffLine.line.body ++ ['\n'])) = !fileLike diffLine := by
  -- The tag is the first character of a file header's mark, and the content has the others.
  cases diffLine with
  | context line => rfl
  | removed line =>
    rw [fileLike, ← startsWith_concat (by decide : '\n' ∉ "-- ".toList)]
    exact congrArg (!·) (Bool.or_false _)
  | added line =>
    rw [fileLike, ← startsWith_concat (by decide : '\n' ∉ "++ ".toList)]
    rfl

/-- The lines behind a body that it does not go on with leave it as it is. -/
theorem takeWhile_body (body : List DiffLine) {rest : List (List Char)}
    (ends : rest.takeWhile inBody = []) :
    (body.flatMap DiffLine.render ++ rest).takeWhile inBody =
      (appliedLines body).flatMap DiffLine.render := by
  induction body with
  | nil => exact ends
  | cons first others ih =>
    rw [List.flatMap_cons, List.append_assoc, DiffLine.render, List.cons_append]
    cases looks : fileLike first with
    | true =>
      rw [List.takeWhile_cons_of_neg (by rw [inBody_render, looks]; decide), appliedLines,
        List.takeWhile_cons_of_neg (by rw [looks]; decide)]
      rfl
    | false =>
      -- The line itself goes on with the body, and so does the remark behind it.
      have kept : appliedLines (first :: others) = first :: appliedLines others := by
        rw [appliedLines, List.takeWhile_cons_of_pos (by rw [looks]; decide)]
        rfl
      rw [List.takeWhile_cons_of_pos (by rw [inBody_render, looks]; decide), kept,
        List.flatMap_cons, DiffLine.render, List.cons_append]
      cases first.line.ended with
      | true =>
        simp only [if_true, List.nil_append]
        rw [ih]
      | false =>
        simp only [Bool.false_eq_true, if_false, List.singleton_append]
        rw [List.takeWhile_cons_of_pos (by decide), ih]

/-- The hunks of a diff as the patch is read. -/
def readHunks : (oldBefore newBefore : Nat) → List DiffHunk → List PatchHunk
  | _, _, [] => []
  | oldBefore, newBefore, hunk :: rest =>
    { header := hunk.header (oldBefore + hunk.gap.length) (newBefore + hunk.gap.length)
      body := (appliedLines hunk.body).flatMap DiffLine.render } ::
      readHunks (oldBefore + hunk.old.length) (newBefore + hunk.new.length) rest

/-- Lines that are no hunk headers are passed over. -/
theorem hunksOf_append {others : List (List Char)}
    (noHunk : ∀ line ∈ others, startsWith line "@@ " = false) (rest : List (List Char)) :
    hunksOf (others ++ rest) = hunksOf rest := by
  -- Only a header begins a hunk.
  induction others with
  | nil => rfl
  | cons line others ih =>
    have other := noHunk line List.mem_cons_self
    rw [List.cons_append, hunksOf, if_neg (by simp [other])]
    exact ih fun line member => noHunk line (List.mem_cons_of_mem _ member)

/-- A hunk header is taken for one. -/
theorem startsWith_renderHeader (short : Bool) (heading : List Char)
    (oldBefore oldCount newBefore newCount : Nat) :
    startsWith (renderHeader short heading oldBefore oldCount newBefore newCount) "@@ " = true := by
  unfold renderHeader
  generalize renderRange short oldBefore oldCount = oldRange
  generalize renderRange short newBefore newCount = newRange
  rfl

/-- The lines of the hunks are read as hunks, each up to its first line like a file header. -/
theorem hunksOf_renderDiffHunks (hunks : List DiffHunk) (oldBefore newBefore : Nat) :
    hunksOf (renderDiffHunks oldBefore newBefore hunks) = readHunks oldBefore newBefore hunks := by
  induction hunks generalizing oldBefore newBefore with
  | nil => rfl
  | cons hunk rest ih =>
    have header := startsWith_renderHeader hunk.short hunk.heading
      (oldBefore + hunk.gap.length) (olds hunk.body).length (newBefore + hunk.gap.length)
      (news hunk.body).length
    -- The next hunk begins with a header, which ends the body of this one.
    have ends : (renderDiffHunks (oldBefore + hunk.old.length) (newBefore + hunk.new.length)
        rest).takeWhile inBody = [] := by
      cases rest with
      | nil => rfl
      | cons next others =>
        rw [renderDiffHunks, List.cons_append, List.takeWhile_cons_of_neg]
        rw [inBody, DiffHunk.header, startsWith_renderHeader, Bool.true_or, Bool.true_or]
        decide
    have noHunk : ∀ line ∈ hunk.body.flatMap DiffLine.render, startsWith line "@@ " = false := by
      intro line member
      obtain ⟨diffLine, _, member⟩ := List.mem_flatMap.mp member
      exact startsWith_hunk_of_mem_render line member
    rw [renderDiffHunks, List.cons_append, hunksOf, DiffHunk.header, if_pos header,
      takeWhile_body _ ends,
      hunksOf_append noHunk, ih, readHunks, DiffHunk.header]

/-- A diff is read as its hunks. -/
theorem patchHunks_render (diff : TextDiff) :
    patchHunks diff.render = readHunks 0 0 diff.hunks := by
  -- What is in front of the hunks is passed over.
  have noHunk : ∀ line ∈ diff.preamble.map Line.chars, startsWith line "@@ " = false := by
    intro line member
    obtain ⟨preamble, inside, rfl⟩ := List.mem_map.mp member
    have other := diff.noHunk preamble inside
    rw [← List.isPrefixOf_iff_prefix] at other
    exact Bool.eq_false_iff.mpr other
  rw [patchHunks, diff.splitInclusive_render, TextDiff.lines, hunksOf_append noHunk,
    hunksOf_renderDiffHunks]

/-- A body line is shown on its sides with an end, and a remark is on neither side. -/
theorem sides_render (diffLine : DiffLine) :
    diffLine.render.filterMap oldSide = diffLine.old.map (fun line => line.withEnd.chars) ∧
      diffLine.render.filterMap newSide = diffLine.new.map fun line => line.withEnd.chars := by
  -- The remark has no tag, and the end is put behind the line in any case.
  have noOld : (if diffLine.line.ended then [] else [DiffLine.remark]).filterMap oldSide = [] := by
    split <;> rfl
  have noNew : (if diffLine.line.ended then [] else [DiffLine.remark]).filterMap newSide = [] := by
    split <;> rfl
  rw [DiffLine.render, filterMap_cons_eq, filterMap_cons_eq, noOld, noNew, List.append_nil,
    List.append_nil]
  cases diffLine <;> exact ⟨rfl, rfl⟩

/-- The old side of a body, as it is shown. -/
theorem filterMap_oldSide (body : List DiffLine) :
    (body.flatMap DiffLine.render).filterMap oldSide =
      (olds body).map fun line => line.withEnd.chars := by
  rw [List.filterMap_flatMap, olds, List.map_flatMap]
  exact List.flatMap_congr fun diffLine _ => (sides_render diffLine).1

/-- The new side of a body, as it is shown. -/
theorem filterMap_newSide (body : List DiffLine) :
    (body.flatMap DiffLine.render).filterMap newSide =
      (news body).map fun line => line.withEnd.chars := by
  rw [List.filterMap_flatMap, news, List.map_flatMap]
  exact List.flatMap_congr fun diffLine _ => (sides_render diffLine).2

/-- Every line of a body has a tag or is a remark. -/
theorem tagged_render (body : List DiffLine) : ∀ line ∈ body.flatMap DiffLine.render,
    isRemark line = true ∨ isTagged line = true := by
  -- A line of a body is shown as one line and at most one remark.
  intro line member
  obtain ⟨diffLine, _, member⟩ := List.mem_flatMap.mp member
  rcases List.mem_cons.mp member with rfl | member
  · exact .inr (by cases diffLine <;> rfl)
  · split at member
    · cases member
    · rw [List.mem_singleton.mp member]
      exact .inl rfl

/-- A line is shown as it is exactly if it has an end. -/
theorem withEnd_eq_self {line : TextLine} : line.withEnd = line ↔ line.ended = true := by
  -- Only the flag is changed.
  constructor
  · intro same
    rw [← same]
    rfl
  · intro ended
    cases line
    simp_all [TextLine.withEnd]

/-- Lines are the first of others, shown with ends, exactly if they have ends themselves. -/
theorem shown_isPrefix {lines : List TextLine} (behind : List TextLine) :
    (lines.map fun line => line.withEnd.chars) <+: (lines ++ behind).map TextLine.chars ↔
      ∀ line ∈ lines, line.ended = true := by
  -- Lines are compared one by one with what they are shown as.
  induction lines with
  | nil => simp
  | cons first rest ih =>
    rw [List.map_cons, List.cons_append, List.map_cons, List.cons_prefix_cons, ih,
      List.forall_mem_cons, TextLine.chars_injective.eq_iff, withEnd_eq_self]

/-- The first lines of a body are in front of the others in the old text. -/
theorem olds_split (body : List DiffLine) :
    olds body = olds (appliedLines body) ++ olds (ignoredLines body) := by
  rw [olds, olds, olds, ← List.flatMap_append, appliedLines, ignoredLines,
    List.takeWhile_append_dropWhile]

/-- A hunk as it is read from a diff. -/
def readHunk (hunk : DiffHunk) (oldBefore newBefore : Nat) : PatchHunk where
  header := hunk.header oldBefore newBefore
  body := (appliedLines hunk.body).flatMap DiffLine.render

/-- A hunk that only inserts is taken to start one line too early. -/
theorem readHunk_start (hunk : DiffHunk) {oldBefore : Nat} (newBefore : Nat)
    (fits : oldBefore + (olds hunk.body).length < 2 ^ 64) :
    (∃ range, parseHunkHeader (readHunk hunk oldBefore newBefore).header = .ok range) ∧
      (readHunk hunk oldBefore newBefore).start =
        if olds hunk.body = [] then oldBefore - 1 else oldBefore := by
  -- The count that is read is not used, so only the first number matters.
  obtain ⟨count, parsed⟩ := parseHunkHeader_renderHeader hunk.short hunk.heading newBefore
    (news hunk.body).length fits
  refine ⟨⟨_, parsed⟩, ?_⟩
  have start : (readHunk hunk oldBefore newBefore).start =
      (if (olds hunk.body).length = 0 then oldBefore else oldBefore + 1) - 1 := by
    rw [PatchHunk.start, show parseHunkHeader (readHunk hunk oldBefore newBefore).header = _ from
      parsed]
  rw [start]
  simp only [List.length_eq_zero_iff]
  split <;> rfl

/-- A hunk that is read behind some lines fits there exactly if the lines it names have ends. -/
theorem readHunk_fitsAt {hunk : DiffHunk} {oldBefore newBefore : Nat}
    (fits : oldBefore + (olds hunk.body).length < 2 ^ 64) {front copied behind : List TextLine}
    (start : (readHunk hunk oldBefore newBefore).start = (front ++ copied).length) :
    ((readHunk hunk oldBefore newBefore).FitsAt
        ((front ++ copied ++ (olds (appliedLines hunk.body) ++ behind)).map TextLine.chars)
        front.length ↔ ∀ line ∈ olds (appliedLines hunk.body), line.ended = true) ∧
      (((front ++ copied ++ (olds (appliedLines hunk.body) ++ behind)).map TextLine.chars).take
          (readHunk hunk oldBefore newBefore).start).drop front.length =
        copied.map TextLine.chars ∧
      (readHunk hunk oldBefore newBefore).start + (readHunk hunk oldBefore newBefore).old.length =
        (front ++ copied ++ olds (appliedLines hunk.body)).length := by
  -- The old side of the hunk is compared with the text behind the lines that are copied.
  have old : (readHunk hunk oldBefore newBefore).old =
      (olds (appliedLines hunk.body)).map fun line => line.withEnd.chars :=
    filterMap_oldSide _
  have place : ((front ++ copied ++ (olds (appliedLines hunk.body) ++ behind)).map
      TextLine.chars).drop (readHunk hunk oldBefore newBefore).start =
      (olds (appliedLines hunk.body) ++ behind).map TextLine.chars := by
    rw [start, List.map_append, List.drop_left' (by simp)]
  refine ⟨⟨?_, ?_⟩, ?_, ?_⟩
  · intro fitsAt
    have same := fitsAt.same
    rw [place, old, shown_isPrefix] at same
    exact same
  · intro ended
    refine ⟨(readHunk_start hunk newBefore fits).1, ?_, ?_, tagged_render _, ?_⟩
    · rw [start, List.length_append]
      omega
    · rw [start]
      simp only [List.length_map, List.length_append]
      omega
    · rw [place, old, shown_isPrefix]
      exact ended
  · rw [start, List.map_append, List.take_left' (by simp), List.map_append,
      List.drop_left' (by simp)]
  · rw [start, old]
    simp only [List.length_append, List.length_map]

/-- The characters of lines that are shown with ends. -/
theorem flatten_shown (lines : List TextLine) :
    (lines.map fun line => line.withEnd.chars).flatten = textOf (lines.map TextLine.withEnd) := by
  rw [textOf, List.map_map]
  rfl

/--
The hunks of a diff, read behind some lines of which the last ones are pending, fit the text
exactly if the old lines that they get to have ends, and make of it what they are misread as.
-/
def ReadAsMisread (hunks : List DiffHunk) (tail front pending : List TextLine) (newBefore : Nat) :
    Prop :=
  let lines := (front ++ pending ++ (hunks.flatMap DiffHunk.old ++ tail)).map TextLine.chars
  let read := readHunks (front ++ pending).length newBefore hunks
  (Fits lines front.length read ↔
      ∀ hunk ∈ hunks, ∀ line ∈ olds (appliedLines hunk.body), line.ended = true) ∧
    (pieces lines front.length read).flatten =
      textOf (pending ++ (hunks.flatMap misreadHunk ++ tail))

/-- One hunk more in front, which copies some lines and leaves some of its own pending. -/
theorem ReadAsMisread.cons {hunk : DiffHunk} {rest : List DiffHunk}
    {tail front pending copied left : List TextLine} {newBefore : Nat}
    (others : ReadAsMisread rest tail (front ++ copied ++ olds (appliedLines hunk.body)) left
      (newBefore + hunk.new.length))
    (fits : (front ++ pending ++ hunk.old).length < 2 ^ 64)
    (shape : front ++ pending ++ hunk.old =
      front ++ copied ++ olds (appliedLines hunk.body) ++ left)
    (start : (readHunk hunk ((front ++ pending).length + hunk.gap.length)
      (newBefore + hunk.gap.length)).start = (front ++ copied).length)
    (written : pending ++ misreadHunk hunk =
      copied ++ ((news (appliedLines hunk.body)).map TextLine.withEnd ++ left)) :
    ReadAsMisread (hunk :: rest) tail front pending newBefore := by
  obtain ⟨othersFit, made⟩ := others
  have count : (front ++ pending).length + hunk.old.length =
      (front ++ copied ++ olds (appliedLines hunk.body) ++ left).length := by
    rw [← shape, @List.length_append _ _ hunk.old]
  have room : (front ++ pending).length + hunk.gap.length + (olds hunk.body).length < 2 ^ 64 := by
    simp only [DiffHunk.old, List.length_append] at fits ⊢
    omega
  -- The text, as it looks from the hunk and from behind it.
  have text : front ++ pending ++ ((hunk :: rest).flatMap DiffHunk.old ++ tail) =
      front ++ copied ++ olds (appliedLines hunk.body) ++ left ++
        (rest.flatMap DiffHunk.old ++ tail) := by
    rw [← shape, List.flatMap_cons]
    simp only [List.append_assoc]
  have regroup : front ++ copied ++ olds (appliedLines hunk.body) ++ left ++
      (rest.flatMap DiffHunk.old ++ tail) = front ++ copied ++
        (olds (appliedLines hunk.body) ++ (left ++ (rest.flatMap DiffHunk.old ++ tail))) := by
    simp only [List.append_assoc]
  have read : readHunks (front ++ pending).length newBefore (hunk :: rest) =
      readHunk hunk ((front ++ pending).length + hunk.gap.length) (newBefore + hunk.gap.length) ::
        readHunks (front ++ copied ++ olds (appliedLines hunk.body) ++ left).length
          (newBefore + hunk.new.length) rest := by
    rw [readHunks, count]
    rfl
  have new : (readHunk hunk ((front ++ pending).length + hunk.gap.length)
      (newBefore + hunk.gap.length)).new =
      (news (appliedLines hunk.body)).map fun line => line.withEnd.chars := filterMap_newSide _
  obtain ⟨fitsAt, slice, reached⟩ :=
    @readHunk_fitsAt _ _ _ room front copied (left ++ (rest.flatMap DiffHunk.old ++ tail)) start
  rw [← regroup] at fitsAt slice
  rw [ReadAsMisread, read, text]
  refine ⟨?_, ?_⟩
  · rw [Fits, fitsAt, reached, othersFit]
    simp only [List.forall_mem_cons]
  · rw [pieces, slice, reached, new, List.flatten_append, List.flatten_append, made,
      flatten_shown, List.flatMap_cons, List.append_assoc, ← List.append_assoc pending, written]
    simp only [textOf_append, List.append_assoc]
    rfl

/-- The hunks of a diff are read as what they are misread as. -/
theorem readAsMisread (hunks : List DiffHunk) (tail : List TextLine) (newBefore : Nat)
    (front pending : List TextLine)
    (apart : ∀ hunk ∈ hunks.tail, olds hunk.body = [] → hunk.gap ≠ [])
    (first : ∀ hunk, hunks.head? = some hunk → olds hunk.body = [] →
      hunk.gap ≠ [] ∨ front ++ pending = [])
    (fits : (front ++ pending ++ (hunks.flatMap DiffHunk.old ++ tail)).length < 2 ^ 64) :
    ReadAsMisread hunks tail front pending newBefore := by
  -- A hunk copies the pending lines and its gap, and leaves the old lines that it ignores pending.
  induction hunks generalizing newBefore front pending with
  | nil =>
    refine ⟨by simp [readHunks, Fits], ?_⟩
    rw [readHunks, pieces, List.append_assoc, List.map_append, List.drop_left' (by simp)]
    rfl
  | cons hunk rest ih =>
    have room : (front ++ pending ++ hunk.old).length < 2 ^ 64 := by
      simp only [List.flatMap_cons, List.length_append] at fits ⊢
      omega
    -- The rest is read from wherever the hunk leads to.
    have behind : ∀ copied left, front ++ pending ++ hunk.old =
        front ++ copied ++ olds (appliedLines hunk.body) ++ left →
        ReadAsMisread rest tail (front ++ copied ++ olds (appliedLines hunk.body)) left
          (newBefore + hunk.new.length) := by
      intro copied left shape
      refine ih _ _ _ (fun hunk member => apart hunk (List.mem_of_mem_tail member))
        (fun next head inserts => .inl (apart next (List.mem_of_mem_head? head) inserts)) ?_
      rw [← shape]
      simp only [List.flatMap_cons, List.append_assoc] at fits ⊢
      exact fits
    obtain ⟨_, starts⟩ := @readHunk_start hunk ((front ++ pending).length + hunk.gap.length)
      (newBefore + hunk.gap.length) (by
        simp only [DiffHunk.old, List.length_append] at room ⊢
        omega)
    by_cases inserts : olds hunk.body = []
    · have noOld : olds (appliedLines hunk.body) = [] := by
        have split := olds_split hunk.body
        rw [inserts] at split
        exact (List.append_eq_nil_iff.mp split.symm).1
      rw [if_pos inserts] at starts
      rcases List.eq_nil_or_concat hunk.gap with gap | ⟨gap, last, gapIs⟩
      · -- Nothing is in front of the hunk, so it cannot be taken to be any earlier.
        have nothing := (first hunk rfl inserts).resolve_left (fun some_line => some_line gap)
        obtain ⟨rfl, rfl⟩ := List.append_eq_nil_iff.mp nothing
        have shape : [] ++ [] ++ hunk.old = [] ++ [] ++ olds (appliedLines hunk.body) ++ [] := by
          simp [DiffHunk.old, gap, inserts, noOld]
        refine (behind [] [] shape).cons room shape ?_ ?_
        · rw [starts]
          simp [gap]
        · simp [misreadHunk, inserts, gap]
      · -- The last line of the gap is pending behind the lines that are inserted.
        rw [List.concat_eq_append] at gapIs
        have shape : front ++ pending ++ hunk.old =
            front ++ (pending ++ gap) ++ olds (appliedLines hunk.body) ++ [last] := by
          simp [DiffHunk.old, gapIs, inserts, noOld]
        refine (behind _ _ shape).cons room shape ?_ ?_
        · rw [starts]
          simp only [gapIs, List.length_append, List.length_singleton]
          omega
        · simp [misreadHunk, inserts, gapIs]
    · have shape : front ++ pending ++ hunk.old = front ++ (pending ++ hunk.gap) ++
          olds (appliedLines hunk.body) ++ olds (ignoredLines hunk.body) := by
        rw [DiffHunk.old, olds_split hunk.body]
        simp only [List.append_assoc]
      rw [if_neg inserts] at starts
      refine (behind _ _ shape).cons room shape ?_ ?_
      · rw [starts]
        simp only [List.length_append]
        omega
      · rw [misreadHunk, if_neg inserts]
        simp only [List.append_assoc]

/-- No old line that a hunk gets to is without its end. -/
def OldLinesEnded (diff : TextDiff) : Prop :=
  ∀ hunk ∈ diff.hunks, ∀ line ∈ olds (appliedLines hunk.body), line.ended = true

/-- Applied to the text it starts from, a diff leads to what it is misread as, or to an error. -/
theorem applyUnifiedPatch_textDiff {diff : TextDiff} (fits : diff.old.length < 2 ^ 64)
    {out : List Char} :
    applyUnifiedPatch (textOf diff.old) diff.render = .ok out ↔
      diff.hunks ≠ [] ∧ OldLinesEnded diff ∧ out = textOf (misread diff) := by
  -- Nothing is in front of the first hunk, and nothing is pending there.
  obtain ⟨ended, made⟩ := readAsMisread diff.hunks diff.tail 0 [] [] diff.apart
    (fun _ _ _ => .inr rfl) fits
  have some_hunk : patchHunks diff.render ≠ [] ↔ diff.hunks ≠ [] := by
    rw [patchHunks_render]
    cases diff.hunks with
    | nil => simp [readHunks]
    | cons hunk rest => simp [readHunks]
  have text : splitInclusive '\n' (textOf diff.old) = diff.old.map TextLine.chars :=
    splitInclusive_textOf diff.oldText
  have whole : (pieces (diff.old.map TextLine.chars) 0 (readHunks 0 0 diff.hunks)).flatten =
      textOf (misread diff) := made
  rw [applyUnifiedPatch_eq_ok, some_hunk, text, patchHunks_render, whole]
  exact and_congr_right fun _ => and_congr_left fun _ => ended

/-- No line of a hunk looks like a file header. -/
def NoFileLike (diff : TextDiff) : Prop :=
  ∀ hunk ∈ diff.hunks, ∀ line ∈ hunk.body, fileLike line = false

/-- No line of a hunk is without its end. -/
def BodiesEnded (diff : TextDiff) : Prop :=
  ∀ hunk ∈ diff.hunks, ∀ line ∈ hunk.body, line.line.ended = true

/-- What is only inserted behind a line repeats that line. -/
def InsertsRepeat (diff : TextDiff) : Prop :=
  ∀ hunk ∈ diff.hunks, olds hunk.body = [] → ∀ last ∈ hunk.gap.getLast?,
    ∀ line ∈ news hunk.body, line = last

/-- A line in front of others is the same as behind them exactly if they all repeat it. -/
theorem cons_eq_concat_iff {α : Type} {last : α} {lines : List α} :
    lines ++ [last] = last :: lines ↔ ∀ line ∈ lines, line = last := by
  -- The first line changes places with the last one.
  induction lines with
  | nil => simp
  | cons first rest ih =>
    rw [List.cons_append, List.cons.injEq, List.forall_mem_cons]
    refine and_congr_right fun same => ?_
    rw [same, ih]

/-- Parts of the same lengths that come to the same whole are the same. -/
theorem eq_of_flatMap_eq {α β : Type} {f g : α → List β} {parts : List α} {rest rest' : List β}
    (lengths : ∀ part ∈ parts, (f part).length = (g part).length)
    (same : parts.flatMap f ++ rest = parts.flatMap g ++ rest') :
    ∀ part ∈ parts, f part = g part := by
  -- The first part is as long as the other first part, so both end at one place.
  induction parts with
  | nil => simp
  | cons first others ih =>
    rw [List.forall_mem_cons] at lengths ⊢
    simp only [List.flatMap_cons, List.append_assoc] at same
    obtain ⟨here, behind⟩ := List.append_inj same lengths.1
    exact ⟨here, ih lengths.2 behind⟩

section
variable {diff : TextDiff}

/-- A hunk without lines like file headers is applied whole. -/
theorem misreadHunk_of_noFileLike {hunk : DiffHunk}
    (plain : ∀ line ∈ hunk.body, fileLike line = false) :
    appliedLines hunk.body = hunk.body ∧
      misreadHunk hunk =
        if olds hunk.body = [] then
          hunk.gap.dropLast ++ (news hunk.body).map TextLine.withEnd ++ hunk.gap.getLast?.toList
        else hunk.gap ++ (news hunk.body).map TextLine.withEnd := by
  -- Without such lines, nothing is ignored.
  have whole : appliedLines hunk.body = hunk.body :=
    List.takeWhile_eq_self_iff.mpr fun line inside => by simp [plain line inside]
  have none_left : ignoredLines hunk.body = [] :=
    List.dropWhile_eq_nil_iff.mpr fun line inside => by simp [plain line inside]
  refine ⟨whole, ?_⟩
  rw [misreadHunk, whole, none_left, show olds [] = [] from rfl, List.append_nil]

/-- The last of some lines, if there is one, is the only line that is missing without it. -/
theorem dropLast_append_getLast? {α : Type} (lines : List α) :
    lines.dropLast ++ lines.getLast?.toList = lines := by
  rcases List.eq_nil_or_concat lines with rfl | ⟨others, last, rfl⟩
  · rfl
  · simp

/-- Every line that a hunk adds is taken to have an end. -/
theorem countP_misreadHunk {hunk : DiffHunk} (plain : ∀ line ∈ hunk.body, fileLike line = false) :
    (misreadHunk hunk).countP (fun line => line.ended) =
      hunk.gap.countP (fun line => line.ended) + (news hunk.body).length := by
  -- The line that changes places is counted all the same.
  have all : ((news hunk.body).map TextLine.withEnd).countP (fun line => line.ended) =
      (news hunk.body).length := by
    rw [List.countP_map]
    exact List.countP_eq_length.mpr fun _ _ => rfl
  have gap := congrArg (List.countP fun line : TextLine => line.ended)
    (dropLast_append_getLast? hunk.gap)
  rw [List.countP_append] at gap
  rw [(misreadHunk_of_noFileLike plain).2]
  split
  · simp only [List.countP_append, all]
    omega
  · rw [List.countP_append, all]

/-- A diff that is misread as the new text leaves no added line without its end. -/
theorem news_ended (plain : NoFileLike diff) (same : textOf (misread diff) = textOf diff.new) :
    ∀ hunk ∈ diff.hunks, ∀ line ∈ news hunk.body, line.ended = true := by
  by_contra open_
  simp only [not_forall] at open_
  obtain ⟨hunk, member, line, inside, unended⟩ := open_
  -- An end that is put behind an added line would be one more in the text.
  have fewer : ∀ hunk : DiffHunk, hunk.new.countP (fun line => line.ended) =
      hunk.gap.countP (fun line => line.ended) +
        (news hunk.body).countP (fun line => line.ended) := by
    intro hunk
    rw [DiffHunk.new, List.countP_append]
  have less : (diff.hunks.map fun hunk => hunk.new.countP fun line => line.ended).sum <
      (diff.hunks.map fun hunk => (misreadHunk hunk).countP fun line => line.ended).sum := by
    apply List.sum_lt_sum
    · intro other within
      rw [fewer, countP_misreadHunk (plain other within)]
      exact Nat.add_le_add_left List.countP_le_length _
    · refine ⟨hunk, member, ?_⟩
      rw [fewer, countP_misreadHunk (plain hunk member)]
      refine Nat.add_lt_add_left (Nat.lt_of_le_of_ne List.countP_le_length fun all => ?_) _
      exact unended (List.countP_eq_length.mp all line inside)
  have count := congrArg (List.count '\n') same
  rw [count_textOf, count_textOf, misread, TextDiff.new, List.countP_append, List.countP_append,
    List.countP_flatMap, List.countP_flatMap] at count
  simp only [Function.comp_def] at count
  omega

/-- A line of a body is one of the old text or of the new one. -/
theorem mem_olds_or_news {body : List DiffLine} {line : DiffLine} (member : line ∈ body) :
    line.line ∈ olds body ∨ line.line ∈ news body := by
  cases line with
  | context own => exact .inl (List.mem_flatMap.mpr ⟨_, member, List.mem_singleton_self _⟩)
  | removed own => exact .inl (List.mem_flatMap.mpr ⟨_, member, List.mem_singleton_self _⟩)
  | added own => exact .inr (List.mem_flatMap.mpr ⟨_, member, List.mem_singleton_self _⟩)

/-- The lines of a body's sides are lines of the body. -/
theorem ended_of_bodies {body : List DiffLine} (ended : ∀ line ∈ body, line.line.ended = true) :
    (∀ line ∈ olds body, line.ended = true) ∧ ∀ line ∈ news body, line.ended = true := by
  -- Either side is made of lines of the body.
  refine ⟨?_, ?_⟩
  · intro line member
    obtain ⟨diffLine, inside, own⟩ := List.mem_flatMap.mp member
    have has := ended diffLine inside
    cases diffLine with
    | context other => rwa [List.mem_singleton.mp own]
    | removed other => rwa [List.mem_singleton.mp own]
    | added other => cases own
  · intro line member
    obtain ⟨diffLine, inside, own⟩ := List.mem_flatMap.mp member
    have has := ended diffLine inside
    cases diffLine with
    | context other => rwa [List.mem_singleton.mp own]
    | removed other => cases own
    | added other => rwa [List.mem_singleton.mp own]

/-- Something follows the gap of a hunk in the old text or in the new one. -/
theorem gaps_ended (diff : TextDiff) :
    ∀ hunk ∈ diff.hunks, ∀ line ∈ hunk.gap, line.ended = true := by
  -- A hunk has a line in one of the texts, and the gap is in front of it there.
  intro hunk member
  obtain ⟨before, behind, split⟩ := List.append_of_mem member
  obtain ⟨some_line, inside⟩ := List.exists_mem_of_ne_nil _ hunk.someLine
  rcases mem_olds_or_news inside with own | own
  · -- The text, parted behind the gap.
    have text := diff.oldText
    rw [split, List.flatMap_append, List.flatMap_cons, DiffHunk.old, List.append_assoc,
      List.append_assoc, List.append_assoc, ← List.append_assoc] at text
    have nonempty : olds hunk.body ++ (behind.flatMap DiffHunk.old ++ diff.tail) ≠ [] :=
      List.append_ne_nil_of_left_ne_nil (List.ne_nil_of_mem own) _
    exact fun line at_ => text.ended_of_append nonempty line (List.mem_append_right _ at_)
  · have text := diff.newText
    rw [split, List.flatMap_append, List.flatMap_cons, DiffHunk.new, List.append_assoc,
      List.append_assoc, List.append_assoc, ← List.append_assoc] at text
    have nonempty : news hunk.body ++ (behind.flatMap DiffHunk.new ++ diff.tail) ≠ [] :=
      List.append_ne_nil_of_left_ne_nil (List.ne_nil_of_mem own) _
    exact fun line at_ => text.ended_of_append nonempty line (List.mem_append_right _ at_)

/-- Lines that all have ends are shown as they are. -/
theorem map_withEnd {lines : List TextLine} (ended : ∀ line ∈ lines, line.ended = true) :
    lines.map TextLine.withEnd = lines := by
  have same : lines.map TextLine.withEnd = lines.map id :=
    List.map_congr_left fun line member => withEnd_eq_self.mpr (ended line member)
  rw [same, List.map_id]

/-- A hunk of lines with ends is misread only where it repeats no line. -/
theorem misreadHunk_eq_new_iff {hunk : DiffHunk}
    (plain : ∀ line ∈ hunk.body, fileLike line = false)
    (ended : ∀ line ∈ hunk.body, line.line.ended = true) :
    misreadHunk hunk = hunk.new ↔
      (olds hunk.body = [] → ∀ last ∈ hunk.gap.getLast?, ∀ line ∈ news hunk.body, line = last) := by
  -- With ends on all lines, only the place of what is inserted can be wrong.
  rw [(misreadHunk_of_noFileLike plain).2, map_withEnd (ended_of_bodies ended).2, DiffHunk.new]
  by_cases inserts : olds hunk.body = []
  · rw [if_pos inserts]
    rcases List.eq_nil_or_concat hunk.gap with gap | ⟨gap, last, gapIs⟩
    · simp [gap]
    · -- The last line of the gap comes behind the others instead of in front of them.
      simp only [gapIs, List.concat_eq_append, List.dropLast_concat, List.getLast?_concat,
        Option.toList_some, List.append_assoc, List.append_cancel_left_eq, List.singleton_append,
        Option.mem_some_iff, cons_eq_concat_iff, inserts, forall_const, forall_eq']
  · rw [if_neg inserts]
    simp [inserts]

/-- Without lines like file headers, a diff is read as it is meant under these two conditions. -/
theorem misread_iff (plain : NoFileLike diff) :
    OldLinesEnded diff ∧ textOf (misread diff) = textOf diff.new ↔
      BodiesEnded diff ∧ InsertsRepeat diff := by
  have whole : ∀ hunk ∈ diff.hunks, appliedLines hunk.body = hunk.body :=
    fun hunk member => (misreadHunk_of_noFileLike (plain hunk member)).1
  have condition : ∀ ended : BodiesEnded diff,
      (∀ hunk ∈ diff.hunks, misreadHunk hunk = hunk.new) ↔ InsertsRepeat diff := by
    intro ended
    exact forall₂_congr fun hunk member =>
      misreadHunk_eq_new_iff (plain hunk member) (ended hunk member)
  constructor
  · intro both
    obtain ⟨oldsEnded, same⟩ := both
    have added := news_ended plain same
    have ended : BodiesEnded diff := by
      intro hunk member line inside
      rcases mem_olds_or_news inside with own | own
      · exact oldsEnded hunk member _ (by rwa [whole hunk member])
      · exact added hunk member _ own
    refine ⟨ended, (condition ended).mp ?_⟩
    -- Both are texts with as many lines in each hunk, so they are the same hunk by hunk.
    have sameNews : ∀ hunk ∈ diff.hunks,
        (news hunk.body).map TextLine.withEnd = news hunk.body :=
      fun hunk member => map_withEnd (added hunk member)
    have text : IsText (misread diff) := by
      apply IsText.append _ diff.newText.of_append
      intro line member
      obtain ⟨hunk, within, inside⟩ := List.mem_flatMap.mp member
      rw [(misreadHunk_of_noFileLike (plain hunk within)).2, sameNews hunk within] at inside
      have gap := gaps_ended diff hunk within
      split at inside
      · simp only [List.mem_append, Option.mem_toList] at inside
        rcases inside with (early | own) | last
        · exact gap line (List.dropLast_subset _ early)
        · exact added hunk within line own
        · exact gap line (List.mem_of_getLast? last)
      · rcases List.mem_append.mp inside with front | own
        · exact gap line front
        · exact added hunk within line own
    apply eq_of_flatMap_eq _ ((textOf_inj text diff.newText).mp same)
    intro hunk member
    have gap := congrArg List.length (dropLast_append_getLast? hunk.gap)
    rw [List.length_append] at gap
    rw [(misreadHunk_of_noFileLike (plain hunk member)).2, sameNews hunk member, DiffHunk.new]
    split
    · simp only [List.length_append]
      omega
    · rfl
  · intro both
    obtain ⟨ended, repeats⟩ := both
    refine ⟨?_, ?_⟩
    · intro hunk member line inside
      rw [whole hunk member] at inside
      exact (ended_of_bodies (ended hunk member)).1 line inside
    · rw [misread, TextDiff.new, List.flatMap_congr ((condition ended).mpr repeats)]

end

end McpCli
