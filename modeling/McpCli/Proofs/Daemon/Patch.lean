import McpCli.Proofs.Daemon.PatchDiff

/-! When applying a unified diff from one text to another gives the other text. -/

namespace McpCli

open Text

/-- What a hunk leads to when its changes from the first line like a file header on are not made. -/
def cutHunk (hunk : DiffHunk) : List TextLine :=
  -- What is not removed stays, and what is not added is missing.
  hunk.gap ++ news (appliedLines hunk.body) ++ olds (ignoredLines hunk.body)

/-- The text a diff leads to when every hunk is cut at its first line like a file header. -/
def cutDiff (diff : TextDiff) : List TextLine := diff.hunks.flatMap cutHunk ++ diff.tail

/-- Between texts whose lines all have ends, no line of a hunk is without its end. -/
theorem bodiesEnded_of_terminated {diff : TextDiff} (ends : Terminated (textOf diff.old))
    (ends' : Terminated (textOf diff.new)) : BodiesEnded diff := by
  intro hunk member line inside
  -- The line is one of the old text or of the new one.
  rcases mem_olds_or_news inside with own | own
  · exact diff.oldText.ended ends _ (List.mem_append_left _
      (List.mem_flatMap.mpr ⟨hunk, member, List.mem_append_right _ own⟩))
  · exact diff.newText.ended ends' _ (List.mem_append_left _
      (List.mem_flatMap.mpr ⟨hunk, member, List.mem_append_right _ own⟩))

/-- Where no line of a hunk is without its end, no old line is. -/
theorem oldLinesEnded_of_bodies {diff : TextDiff} (bodies : BodiesEnded diff) :
    OldLinesEnded diff := by
  intro hunk member line inside
  obtain ⟨shown, within, own⟩ := List.mem_flatMap.mp inside
  have whole : ∀ line ∈ hunk.body, line.line.ended = true := bodies hunk member
  exact (ended_of_bodies whole).1 line
    (List.mem_flatMap.mpr ⟨shown, (List.takeWhile_subset _) within, own⟩)

/-- Applied between texts whose lines all have ends, a diff leads to what it is misread as. -/
theorem applyUnifiedPatch_terminated {diff : TextDiff} (ends : Terminated (textOf diff.old))
    (ends' : Terminated (textOf diff.new)) (fits : diff.old.length < 2 ^ 64) {out : List Char} :
    applyUnifiedPatch (textOf diff.old) diff.render = .ok out ↔
      diff.hunks ≠ [] ∧ textOf (misread diff) = out := by
  have oldsEnded := oldLinesEnded_of_bodies (bodiesEnded_of_terminated ends ends')
  rw [applyUnifiedPatch_textDiff fits, @eq_comm _ out]
  exact and_congr_right fun _ => and_iff_right oldsEnded

/-- A diff of lines with ends whose hunks have old lines is misread as its hunks are cut. -/
theorem misread_eq_cutDiff {diff : TextDiff} (bodies : BodiesEnded diff)
    (anchored : ∀ hunk ∈ diff.hunks, olds hunk.body ≠ []) : misread diff = cutDiff diff := by
  rw [misread, cutDiff]
  refine congrArg (· ++ diff.tail) (List.flatMap_congr fun hunk member => ?_)
  -- The lines that are added have ends already.
  have ended : ∀ line ∈ appliedLines hunk.body, line.line.ended = true :=
    fun line inside => bodies hunk member line (List.takeWhile_subset _ inside)
  rw [misreadHunk, if_neg (anchored hunk member), map_withEnd (ended_of_bodies ended).2, cutHunk]

/-- A diff none of whose changes looks like a file header loses nothing by cutting its hunks. -/
theorem cutDiff_eq_new {diff : TextDiff} (plain : NoFileLike diff) : cutDiff diff = diff.new := by
  rw [cutDiff, TextDiff.new]
  refine congrArg (· ++ diff.tail) (List.flatMap_congr fun hunk member => ?_)
  -- In every hunk the whole body is applied.
  have all : appliedLines hunk.body = hunk.body :=
    (misreadHunk_of_noFileLike (plain hunk member)).1
  have none_left : ignoredLines hunk.body = [] :=
    List.dropWhile_eq_nil_iff.mpr fun line inside => by simp [plain hunk member line inside]
  rw [cutHunk, all, none_left, show olds [] = [] from rfl, List.append_nil, DiffHunk.new]

/--
Applying a unified diff from one text to another, whose hunks all show a line of the old text, gives
the other text exactly if there is a hunk, and the diff still leads there when in every hunk the
changes from the first line on that looks like a file header are not made.
-/
theorem applyUnifiedPatch_eq_ok_iff {a b : List Char} {diff : TextDiff}
    (source : textOf diff.old = a) (target : textOf diff.new = b) (ends : Terminated a)
    (ends' : Terminated b) (anchored : ∀ hunk ∈ diff.hunks, olds hunk.body ≠ [])
    (fits : diff.old.length < 2 ^ 64) :
    applyUnifiedPatch a diff.render = .ok b ↔ diff.hunks ≠ [] ∧ textOf (cutDiff diff) = b := by
  subst source target
  rw [applyUnifiedPatch_terminated ends ends' fits,
    misread_eq_cutDiff (bodiesEnded_of_terminated ends ends') anchored]

/-- A diff that replaces one line between two others. -/
def replaceMiddle : TextDiff :=
  { preamble := [.of "--- a/x" (by decide), .of "+++ b/x" (by decide)]
    hunks := [
      { gap := [.of "one" (by decide)]
        body := [
          .context (.of "two" (by decide)),
          .removed (.of "three" (by decide)),
          .added (.of "3" (by decide))]
        short := false
        heading := " fn f()".toList
        someLine := List.cons_ne_nil _ _
        oneLine := by decide }]
    tail := [.of "four" (by decide)]
    noHunk := by decide
    apart := by decide
    oldText := by unfold IsText; decide
    newText := by unfold IsText; decide }

/-- The middle line is replaced. -/
theorem applyUnifiedPatch_replaceMiddle :
    applyUnifiedPatch "one\ntwo\nthree\nfour\n".toList replaceMiddle.render =
      .ok "one\ntwo\n3\nfour\n".toList :=
  (applyUnifiedPatch_eq_ok_iff (by decide) (by decide) (by decide) (by decide) (by decide)
    (by decide)).mpr ⟨List.cons_ne_nil _ _, by decide⟩

/-- A diff that removes an SQL comment. -/
def removeComment : TextDiff :=
  { preamble := []
    hunks := [
      { gap := []
        body := [
          .removed (.of "-- all rows" (by decide)),
          .context (.of "SELECT * FROM t;" (by decide))]
        short := false
        heading := []
        someLine := List.cons_ne_nil _ _
        oneLine := by decide }]
    tail := []
    noHunk := by simp
    apart := by decide
    oldText := by unfold IsText; decide
    newText := by unfold IsText; decide }

/-- The removed comment shows as a line that looks like a file header, and stays in the file. -/
theorem applyUnifiedPatch_removeComment :
    textOf removeComment.old = "-- all rows\nSELECT * FROM t;\n".toList ∧
    textOf removeComment.new = "SELECT * FROM t;\n".toList ∧
    applyUnifiedPatch (textOf removeComment.old) removeComment.render =
      .ok (textOf removeComment.old) := by
  refine ⟨by decide, by decide, by decide⟩

/--
A diff between texts whose lines all have ends, with any number of context lines or with none,
applies exactly if it has hunks and is read as it is meant.
Where no line looks like a file header, that is if what is only inserted behind a line repeats it.
-/
theorem applyUnifiedPatch_insertions_iff {a b : List Char} {diff : TextDiff}
    (source : textOf diff.old = a) (target : textOf diff.new = b)
    (ends : Terminated a) (ends' : Terminated b) (fits : diff.old.length < 2 ^ 64) :
    (applyUnifiedPatch a diff.render = .ok b ↔ diff.hunks ≠ [] ∧ textOf (misread diff) = b) ∧
    (NoFileLike diff →
      (applyUnifiedPatch a diff.render = .ok b ↔ diff.hunks ≠ [] ∧ InsertsRepeat diff)) := by
  subst source target
  have bodies := bodiesEnded_of_terminated ends ends'
  have applies : applyUnifiedPatch (textOf diff.old) diff.render = .ok (textOf diff.new) ↔
      diff.hunks ≠ [] ∧ textOf (misread diff) = textOf diff.new :=
    applyUnifiedPatch_terminated ends ends' fits
  refine ⟨applies, fun plain => ?_⟩
  -- No line is without its end, so only the places of the insertions are left to see to.
  have reads := misread_iff plain
  have oldsEnded : OldLinesEnded diff := oldLinesEnded_of_bodies bodies
  rw [and_iff_right oldsEnded, and_iff_right bodies] at reads
  rw [applies, reads]

/-- A diff without context that inserts in front of the text and replaces its last line. -/
def insertFirst : TextDiff :=
  { preamble := []
    hunks := [
      { gap := []
        body := [.added (.of "zero" (by decide))]
        short := true
        heading := []
        someLine := List.cons_ne_nil _ _
        oneLine := by decide },
      { gap := [.of "one" (by decide)]
        body := [.removed (.of "two" (by decide)), .added (.of "2" (by decide))]
        short := true
        heading := []
        someLine := List.cons_ne_nil _ _
        oneLine := by decide }]
    tail := []
    noHunk := by simp
    apart := by decide
    oldText := by unfold IsText; decide
    newText := by unfold IsText; decide }

/-- What is inserted in front of the text gets there. -/
theorem applyUnifiedPatch_insertFirst :
    insertFirst.render = "@@ -0,0 +1 @@\n+zero\n@@ -2 +3 @@\n-two\n+2\n".toList ∧
    applyUnifiedPatch "one\ntwo\n".toList insertFirst.render = .ok "zero\none\n2\n".toList :=
  ⟨by decide, ((applyUnifiedPatch_insertions_iff (by decide) (by decide)
    (by decide) (by decide) (by decide)).2
    (by unfold NoFileLike; decide)).mpr
    ⟨List.cons_ne_nil _ _, by unfold InsertsRepeat; decide⟩⟩

/-- A diff without context that inserts a line behind the first one. -/
def insertSecond : TextDiff :=
  { preamble := []
    hunks := [
      { gap := [.of "one" (by decide)]
        body := [.added (.of "new" (by decide))]
        short := true
        heading := []
        someLine := List.cons_ne_nil _ _
        oneLine := by decide }]
    tail := [.of "two" (by decide)]
    noHunk := by simp
    apart := by decide
    oldText := by unfold IsText; decide
    newText := by unfold IsText; decide }

/-- The line gets in front of the first one. -/
theorem applyUnifiedPatch_insertSecond :
    textOf insertSecond.old = "one\ntwo\n".toList ∧
    textOf insertSecond.new = "one\nnew\ntwo\n".toList ∧
    insertSecond.render = "@@ -1,0 +2 @@\n+new\n".toList ∧
    applyUnifiedPatch (textOf insertSecond.old) insertSecond.render =
      .ok "new\none\ntwo\n".toList := by
  refine ⟨by decide, by decide, by decide, by decide⟩

/--
A diff between any two texts applies exactly if it has hunks, no old line that it shows is without
its end, and it is read as it is meant.
Where no line looks like a file header, that is if no line that it shows is without its end,
and what is only inserted behind a line repeats it.
-/
theorem applyUnifiedPatch_endings_iff {a b : List Char} {diff : TextDiff}
    (source : textOf diff.old = a) (target : textOf diff.new = b)
    (fits : diff.old.length < 2 ^ 64) :
    (applyUnifiedPatch a diff.render = .ok b ↔
      diff.hunks ≠ [] ∧ OldLinesEnded diff ∧ textOf (misread diff) = b) ∧
    (NoFileLike diff →
      (applyUnifiedPatch a diff.render = .ok b ↔
        diff.hunks ≠ [] ∧ BodiesEnded diff ∧ InsertsRepeat diff)) := by
  subst source target
  have applies : applyUnifiedPatch (textOf diff.old) diff.render = .ok (textOf diff.new) ↔
      diff.hunks ≠ [] ∧ OldLinesEnded diff ∧ textOf (misread diff) = textOf diff.new := by
    -- What comes out is the text that the diff is misread as.
    rw [applyUnifiedPatch_textDiff fits, @eq_comm _ (textOf diff.new)]
  refine ⟨applies, fun plain => ?_⟩
  rw [applies, misread_iff plain]

/-- A diff that changes the first line of a text whose last line has no end. -/
def changeFirst : TextDiff :=
  { preamble := []
    hunks := [
      { gap := []
        body := [
          .removed (.of "one" (by decide)),
          .added (.of "1" (by decide)),
          .context (.of "two" (by decide))]
        short := false
        heading := []
        someLine := List.cons_ne_nil _ _
        oneLine := by decide }]
    tail := [.last "three" (by decide) (by decide)]
    noHunk := by simp
    apart := by decide
    oldText := by unfold IsText; decide
    newText := by unfold IsText; decide }

/-- The last line stays without its end. -/
theorem applyUnifiedPatch_changeFirst :
    applyUnifiedPatch "one\ntwo\nthree".toList changeFirst.render = .ok "1\ntwo\nthree".toList :=
  ((applyUnifiedPatch_endings_iff (by decide) (by decide) (by decide)).2
    (by unfold NoFileLike; decide)).mpr
    ⟨List.cons_ne_nil _ _, by unfold BodiesEnded; decide, by unfold InsertsRepeat; decide⟩

/-- A diff that adds a last line without an end. -/
def addOpenLine : TextDiff :=
  { preamble := []
    hunks := [
      { gap := []
        body := [
          .context (.of "one" (by decide)),
          .added (.last "two" (by decide) (by decide))]
        short := false
        heading := []
        someLine := List.cons_ne_nil _ _
        oneLine := by decide }]
    tail := []
    noHunk := by simp
    apart := by decide
    oldText := by unfold IsText; decide
    newText := by unfold IsText; decide }

/-- A diff that replaces a last line without an end by another one. -/
def replaceOpenLine : TextDiff :=
  { addOpenLine with
    hunks := [
      { gap := []
        body := [
          .removed (.last "x" (by decide) (by decide)),
          .added (.last "y" (by decide) (by decide))]
        short := true
        heading := []
        someLine := List.cons_ne_nil _ _
        oneLine := by decide }]
    apart := by decide
    oldText := by unfold IsText; decide
    newText := by unfold IsText; decide }

/-- The new last line gets an end, and the old one is not found. -/
theorem applyUnifiedPatch_openLines :
    (textOf addOpenLine.old = "one\n".toList ∧ textOf addOpenLine.new = "one\ntwo".toList ∧
      addOpenLine.render =
        "@@ -1,1 +1,2 @@\n one\n+two\n\\ No newline at end of file\n".toList ∧
      applyUnifiedPatch (textOf addOpenLine.old) addOpenLine.render = .ok "one\ntwo\n".toList) ∧
    (textOf replaceOpenLine.old = "x".toList ∧ textOf replaceOpenLine.new = "y".toList ∧
      applyUnifiedPatch (textOf replaceOpenLine.old) replaceOpenLine.render =
        .error (.rpc (patchError "patch removal mismatch"))) := by
  refine ⟨⟨by decide, by decide, by decide, by decide⟩, by decide, by decide, by decide⟩

end McpCli
