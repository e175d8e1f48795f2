import McpCli.Daemon.GitDiff
import McpCli.Proofs.Daemon.PatchDiff

/-! What `git.diff` answers, and what `fs.apply_patch` makes of it. -/

namespace McpCli

open Text

/-- The characters by which the library tells the lines that belong to no text. -/
structure Origins where
  file : Char
  hunk : Char
  /-- For what is printed behind a line without an end. -/
  ending : DiffLine → Char
  silentFile : file ∉ ['+', '-', ' ']
  silentHunk : hunk ∉ ['+', '-', ' ']
  silentEnd : ∀ line, ending line ∉ ['+', '-', ' ']

/-- What is printed for a line of a hunk. -/
def printedBody (origins : Origins) (line : DiffLine) : List PrintedLine :=
  ⟨line.tag, encodeUtf8 line.line.chars⟩ ::
    if line.line.ended then [] else [⟨origins.ending line, encodeUtf8 ('\n' :: DiffLine.remark)⟩]

/-- What is printed for the hunks behind so many lines of either text. -/
def printedHunks (origins : Origins) : (oldBefore newBefore : Nat) → List DiffHunk →
    List PrintedLine
  | _, _, [] => []
  | oldBefore, newBefore, hunk :: rest =>
    let header := hunk.header (oldBefore + hunk.gap.length) (newBefore + hunk.gap.length)
    ⟨origins.hunk, encodeUtf8 header⟩ :: hunk.body.flatMap (printedBody origins) ++
      printedHunks origins (oldBefore + hunk.old.length) (newBefore + hunk.new.length) rest

/-- What the library prints for a diff of a file. -/
def printedDiff (origins : Origins) (diff : TextDiff) : List PrintedLine :=
  ⟨origins.file, encodeUtf8 (diff.preamble.map Line.chars).flatten⟩ ::
    printedHunks origins 0 0 diff.hunks

variable {origins : Origins}

/-- A line of which nothing is shown but its content. -/
theorem text_silent {origin : Char} (silent : origin ∉ ['+', '-', ' ']) (content : List Char) :
    PrintedLine.text ⟨origin, encodeUtf8 content⟩ = content := by
  have other : ¬ (origin = '+' ∨ origin = '-' ∨ origin = ' ') := by simpa using silent
  rw [PrintedLine.text, if_neg other, decodeUtf8_encodeUtf8, Option.getD_some, List.nil_append]

/-- A line of a hunk is shown behind its tag. -/
theorem text_tag (line : DiffLine) (content : List Char) :
    PrintedLine.text ⟨line.tag, encodeUtf8 content⟩ = line.tag :: content := by
  have own : line.tag = '+' ∨ line.tag = '-' ∨ line.tag = ' ' := by
    cases line with
    | context line => exact .inr (.inr rfl)
    | removed line => exact .inr (.inl rfl)
    | added line => exact .inl rfl
  rw [PrintedLine.text, if_pos own, decodeUtf8_encodeUtf8, Option.getD_some, List.singleton_append]

/-- A line of a hunk comes out as a diff shows it. -/
theorem text_printedBody (line : DiffLine) :
    (printedBody origins line).flatMap PrintedLine.text = line.render.flatten := by
  rw [printedBody, List.flatMap_cons, text_tag, DiffLine.render, TextLine.chars]
  -- What is missing at the end of the line is printed behind it.
  split
  · rfl
  · rw [List.flatMap_singleton, text_silent (origins.silentEnd line)]
    simp

/-- So do the lines of a hunk. -/
theorem text_printedBodies (body : List DiffLine) :
    (body.flatMap (printedBody origins)).flatMap PrintedLine.text =
      (body.flatMap DiffLine.render).flatten := by
  induction body with
  | nil => rfl
  | cons line rest ih =>
    rw [List.flatMap_cons, List.flatMap_append, text_printedBody, ih, List.flatMap_cons,
      List.flatten_append]

/-- The hunks come out one after the other. -/
theorem text_printedHunks (hunks : List DiffHunk) (oldBefore newBefore : Nat) :
    (printedHunks origins oldBefore newBefore hunks).flatMap PrintedLine.text =
      (renderDiffHunks oldBefore newBefore hunks).flatten := by
  -- The numbers of the lines before are those of the hunks that are done.
  induction hunks generalizing oldBefore newBefore with
  | nil => rfl
  | cons hunk rest ih =>
    rw [printedHunks, renderDiffHunks, List.cons_append, List.flatMap_cons, List.flatMap_append,
      text_silent origins.silentHunk, text_printedBodies, ih, List.cons_append, List.flatten_cons,
      List.flatten_append]

/-- What is put together is the diff. -/
theorem text_printedDiff (origins : Origins) (diff : TextDiff) :
    (printedDiff origins diff).flatMap PrintedLine.text = diff.render := by
  rw [printedDiff, List.flatMap_cons, text_silent origins.silentFile, text_printedHunks,
    TextDiff.render, TextDiff.lines, List.flatten_append]

section

variable {Object Tree Diff : Type}

/--
The diff of a file, as `git.diff` answers it, leads `fs.apply_patch` from the old text of the file
to the new one exactly if there is any difference and all lines that it shows have their ends, given
that the diff has lines around its changes and that no line of it looks like a file header.
-/
theorem git_diff_applies (calls : DiffCalls Object Tree Diff) (root : AbsPath)
    (params : GitDiffParams) (origins : Origins) (diff : TextDiff)
    (prints : calls.printed root params = .ok (printedDiff origins diff))
    (fits : diff.old.length < 2 ^ 64) (plain : NoFileLike diff)
    (around : ∀ hunk ∈ diff.hunks, olds hunk.body = [] → hunk.gap = []) :
    gitDiff calls root params = .ok { diff := diff.render } ∧
      (applyUnifiedPatch (textOf diff.old) diff.render = .ok (textOf diff.new) ↔
        diff.hunks ≠ [] ∧ BodiesEnded diff) := by
  constructor
  · rw [gitDiff, prints]
    simp only [text_printedDiff]
  · -- What is only inserted is inserted in front of the text, behind no line to be repeated.
    have inserts : InsertsRepeat diff := by
      intro hunk member only last ends
      rw [around hunk member only] at ends
      cases ends
    -- What is left of what an application may go wrong about is the ends of the lines.
    rw [applyUnifiedPatch_textDiff fits, @eq_comm _ (textOf diff.new), misread_iff plain,
      and_iff_left inserts]

end

/-- How the library in use tells its lines. -/
def letters : Origins where
  file := 'F'
  hunk := 'H'
  ending _ := '='
  silentFile := by decide
  silentHunk := by decide
  silentEnd _ := by decide

/-- A diff that changes the first one of two lines. -/
def renameFirst : TextDiff :=
  { preamble := [.of "--- a/lib.rs" (by decide), .of "+++ b/lib.rs" (by decide)]
    hunks := [
      { gap := []
        body := [
          .removed (.of "let n = 1;" (by decide)),
          .added (.of "let m = 1;" (by decide)),
          .context (.of "done" (by decide))]
        short := false
        heading := " mod m".toList
        someLine := List.cons_ne_nil _ _
        oneLine := by decide }]
    tail := []
    noHunk := by decide
    apart := by simp
    oldText := by unfold IsText; decide
    newText := by unfold IsText; decide }

/-- A repository with this difference. -/
def printsFirst : DiffCalls Unit Unit Unit where
  resolveWithin _ := .ok []
  discover _ := .ok
    { revparseSingle := fun _ => .ok ()
      peelToTree := fun _ => .ok ()
      diffTreeToTree := fun _ _ _ => .ok ()
      diffTreeToWorkdirWithIndex := fun _ _ => .ok ()
      print := fun _ => .ok (printedDiff letters renameFirst) }

/-- The changed line is changed by the patch. -/
theorem git_diff_applies_first :
    gitDiff printsFirst [] { repo := none, base := none, target := none, path := none } =
        .ok { diff := renameFirst.render } ∧
      applyUnifiedPatch "let n = 1;\ndone\n".toList renameFirst.render =
        .ok "let m = 1;\ndone\n".toList := by
  -- No line of the diff looks like a header, and all lines of its hunks are ended.
  have plain : NoFileLike renameFirst := by
    unfold NoFileLike
    decide
  have ended : BodiesEnded renameFirst := by
    unfold BodiesEnded
    decide
  obtain ⟨answered, applies⟩ := git_diff_applies printsFirst []
    { repo := none, base := none, target := none, path := none } letters renameFirst rfl (by decide)
    plain (by decide)
  exact ⟨answered, applies.mpr ⟨List.cons_ne_nil _ _, ended⟩⟩

/-- Of a line that is no text, not even the end is left, and the next one gets lost in it. -/
example : [PrintedLine.mk '-' [0xE9, 0x0A], PrintedLine.mk '+' (encodeUtf8 "e\n".toList)].flatMap
    PrintedLine.text = "-+e\n".toList := by
  decide +kernel

end McpCli
