import McpCli.Text.Lines
import McpCli.Text.Words

/-! Unified diffs between any two texts, whose last lines may have no ends. -/

namespace Text

/-- A line with its end. -/
structure Line where
  chars : List Char
  isLine : IsLine '\n' chars

/-- The line with the given characters in front of its end. -/
def Line.of (body : String) (inside : '\n' ∉ body.toList) : Line :=
  ⟨body.toList ++ ['\n'], body.toList, inside, rfl⟩

/-- A line of a text, where only the last one may be without its end. -/
structure TextLine where
  body : List Char
  ended : Bool
  inside : '\n' ∉ body
  someChar : ended = false → body ≠ []
  deriving DecidableEq

namespace TextLine

/-- The line with its end, if it has one. -/
def chars (line : TextLine) : List Char := line.body ++ if line.ended then ['\n'] else []

/-- The line with an end, whether it has one or not. -/
def withEnd (line : TextLine) : TextLine := { line with ended := true, someChar := by simp }

/-- The line with the given characters in front of its end. -/
def of (body : String) (inside : '\n' ∉ body.toList) : TextLine :=
  { body := body.toList, ended := true, inside, someChar := by simp }

/-- The last line of a text that does not end in one. -/
def last (body : String) (inside : '\n' ∉ body.toList) (someChar : body.toList ≠ []) : TextLine :=
  { body := body.toList, ended := false, inside, someChar := fun _ => someChar }

end TextLine

/-- The lines make up a text: all but the last one have their ends. -/
def IsText (lines : List TextLine) : Prop := ∀ line ∈ lines.dropLast, line.ended = true

/-- The characters of the lines of a text. -/
def textOf (lines : List TextLine) : List Char := (lines.map TextLine.chars).flatten

/-- A line in the body of a hunk. -/
inductive DiffLine where
  | context (line : TextLine)
  | removed (line : TextLine)
  | added (line : TextLine)

namespace DiffLine

/-- What the line is in the old text. -/
def old : DiffLine → List TextLine
  | .context line => [line]
  | .removed line => [line]
  | .added _ => []

/-- What the line is in the new text. -/
def new : DiffLine → List TextLine
  | .context line => [line]
  | .removed _ => []
  | .added line => [line]

/-- The line of the text, or of both. -/
def line : DiffLine → TextLine
  | .context line => line
  | .removed line => line
  | .added line => line

/-- The character that says where the line belongs. -/
def tag : DiffLine → Char
  | .context _ => ' '
  | .removed _ => '-'
  | .added _ => '+'

/-- The line of the diff that says that the line in front of it has no end. -/
def remark : List Char := "\\ No newline at end of file\n".toList

/-- The line as the diff shows it. -/
def render (diffLine : DiffLine) : List (List Char) :=
  (diffLine.tag :: (diffLine.line.body ++ ['\n'])) ::
    if diffLine.line.ended then [] else [remark]

end DiffLine

/-- The lines of a body in the old text. -/
def olds (body : List DiffLine) : List TextLine := body.flatMap DiffLine.old

/-- The lines of a body in the new text. -/
def news (body : List DiffLine) : List TextLine := body.flatMap DiffLine.new

/-- A hunk, which may have no old lines, with the unchanged lines that are left out before it. -/
structure DiffHunk where
  gap : List TextLine
  body : List DiffLine
  /-- A count of one is left out of the header. -/
  short : Bool
  /-- What follows the ranges in the header. -/
  heading : List Char
  someLine : body ≠ []
  oneLine : '\n' ∉ heading

/-- A range of lines in a hunk header, counted from one, or an empty one behind a line. -/
def renderRange (short : Bool) (before count : Nat) : List Char :=
  let start := if count = 0 then before else before + 1
  decimal start ++ if short ∧ count = 1 then [] else ',' :: decimal count

/-- A hunk header, for ranges behind so many lines of either text. -/
def renderHeader (short : Bool) (heading : List Char)
    (oldBefore oldCount newBefore newCount : Nat) : List Char :=
  "@@ -".toList ++ renderRange short oldBefore oldCount ++
    " +".toList ++ renderRange short newBefore newCount ++
    " @@".toList ++ heading ++ ['\n']

namespace DiffHunk

/-- The header of a hunk, behind so many lines of either text. -/
def header (hunk : DiffHunk) (oldBefore newBefore : Nat) : List Char :=
  renderHeader hunk.short hunk.heading oldBefore (olds hunk.body).length newBefore
    (news hunk.body).length

/-- The lines of the old text up to the end of the hunk. -/
def old (hunk : DiffHunk) : List TextLine := hunk.gap ++ olds hunk.body

/-- The lines of the new text up to the end of the hunk. -/
def new (hunk : DiffHunk) : List TextLine := hunk.gap ++ news hunk.body

end DiffHunk

/-- A unified diff with any number of context lines, or with none at all. -/
structure TextDiff where
  /-- File headers and whatever else stands in front of the first hunk. -/
  preamble : List Line
  hunks : List DiffHunk
  tail : List TextLine
  noHunk : ∀ line ∈ preamble, ¬ "@@ ".toList <+: line.chars
  /-- What is inserted right behind a hunk belongs to that hunk. -/
  apart : ∀ hunk ∈ hunks.tail, olds hunk.body = [] → hunk.gap ≠ []
  oldText : IsText (hunks.flatMap DiffHunk.old ++ tail)
  newText : IsText (hunks.flatMap DiffHunk.new ++ tail)

/-- The lines of a diff's hunks, behind so many lines of either text. -/
def renderDiffHunks : (oldBefore newBefore : Nat) → List DiffHunk → List (List Char)
  | _, _, [] => []
  | oldBefore, newBefore, hunk :: rest =>
    (hunk.header (oldBefore + hunk.gap.length) (newBefore + hunk.gap.length) ::
        hunk.body.flatMap DiffLine.render) ++
      renderDiffHunks (oldBefore + hunk.old.length) (newBefore + hunk.new.length) rest

namespace TextDiff

/-- The text that the diff starts from. -/
def old (diff : TextDiff) : List TextLine := diff.hunks.flatMap DiffHunk.old ++ diff.tail

/-- The text that the diff leads to. -/
def new (diff : TextDiff) : List TextLine := diff.hunks.flatMap DiffHunk.new ++ diff.tail

/-- The lines of the diff. -/
def lines (diff : TextDiff) : List (List Char) :=
  diff.preamble.map Line.chars ++ renderDiffHunks 0 0 diff.hunks

/-- The diff as a text. -/
def render (diff : TextDiff) : List Char := diff.lines.flatten

end TextDiff

/-- The characters of joined lines are those of the parts. -/
@[simp] theorem textOf_append (first second : List TextLine) :
    textOf (first ++ second) = textOf first ++ textOf second := by
  simp [textOf]

/-- A line with its end is one line. -/
theorem TextLine.isLine {line : TextLine} (ended : line.ended = true) :
    IsLine '\n' line.chars := by
  refine ⟨line.body, line.inside, ?_⟩
  rw [chars, if_pos ended]

/-- The characters of the lines of a text cut up again are the lines. -/
theorem splitInclusive_textOf {lines : List TextLine} (text : IsText lines) :
    splitInclusive '\n' (textOf lines) = lines.map TextLine.chars := by
  induction lines with
  | nil => rfl
  | cons line rest ih =>
    cases rest with
    | nil =>
      -- The last line has an end behind it or not.
      rw [show textOf [line] = line.chars by simp [textOf]]
      cases ended : line.ended with
      | true =>
        have alone := splitInclusive_line_append (TextLine.isLine ended) []
        rw [List.append_nil] at alone
        rw [alone]
        rfl
      | false =>
        have bare : line.chars = line.body := by simp [TextLine.chars, ended]
        rw [bare, splitInclusive_open line.inside (line.someChar ended)]
        simp [bare]
    | cons next others =>
      have ended : line.ended = true := text line (by simp)
      have behind : IsText (next :: others) := by
        intro other member
        exact text other (by rw [List.dropLast_cons_of_ne_nil (List.cons_ne_nil _ _)]; exact
          List.mem_cons_of_mem _ member)
      have shape : textOf (line :: next :: others) = line.chars ++ textOf (next :: others) := rfl
      rw [shape, splitInclusive_line_append (TextLine.isLine ended), ih behind]
      rfl

/-- Lines are told by their characters. -/
theorem TextLine.chars_injective : Function.Injective TextLine.chars := by
  -- An end is seen, because there is none in the body.
  intro line other same
  have count := congrArg (List.count '\n') same
  simp only [chars, List.count_append, List.count_eq_zero_of_not_mem line.inside,
    List.count_eq_zero_of_not_mem other.inside] at count
  have ended : line.ended = other.ended := by
    cases first : line.ended <;> cases second : other.ended <;> simp [first, second] at count
    · rfl
    · rfl
  have body : line.body = other.body := by
    simp only [chars, ended] at same
    exact List.append_cancel_right same
  cases line
  cases other
  simp_all

/-- Two texts are the same only if their lines are. -/
theorem textOf_inj {lines others : List TextLine} (text : IsText lines) (text' : IsText others) :
    textOf lines = textOf others ↔ lines = others := by
  -- A text is cut into its lines in one way only.
  constructor
  · intro same
    have cut := congrArg (splitInclusive '\n') same
    rw [splitInclusive_textOf text, splitInclusive_textOf text'] at cut
    exact List.map_injective_iff.mpr TextLine.chars_injective cut
  · intro same
    rw [same]

/-- A number has no line end inside. -/
theorem newline_not_mem_decimal (n : Nat) : '\n' ∉ decimal n := by
  intro member
  cases isDigit_of_mem_decimal member

/-- A range has no line end inside. -/
theorem newline_not_mem_renderRange (short : Bool) (before count : Nat) :
    '\n' ∉ renderRange short before count := by
  simp only [renderRange, List.mem_append, not_or]
  refine ⟨newline_not_mem_decimal _, ?_⟩
  split
  · simp
  · simp [newline_not_mem_decimal]

/-- A header is one line. -/
theorem renderHeader_isLine {heading : List Char} (oneLine : '\n' ∉ heading) (short : Bool)
    (oldBefore oldCount newBefore newCount : Nat) :
    IsLine '\n' (renderHeader short heading oldBefore oldCount newBefore newCount) := by
  refine ⟨_, ?_, rfl⟩
  simp [newline_not_mem_renderRange, oneLine]

/-- A body line is shown as lines. -/
theorem DiffLine.render_areLines (diffLine : DiffLine) :
    ∀ line ∈ diffLine.render, IsLine '\n' line := by
  intro line member
  rcases List.mem_cons.mp member with rfl | member
  · -- The tag is no line end.
    refine ⟨diffLine.tag :: diffLine.line.body, ?_, rfl⟩
    rw [List.mem_cons, not_or]
    exact ⟨by cases diffLine <;> simp [DiffLine.tag], diffLine.line.inside⟩
  · split at member
    · cases member
    · rw [List.mem_singleton.mp member]
      exact ⟨"\\ No newline at end of file".toList, by decide, by decide⟩

/-- All lines of the hunks are lines. -/
theorem renderDiffHunks_areLines (hunks : List DiffHunk) (oldBefore newBefore : Nat) :
    ∀ line ∈ renderDiffHunks oldBefore newBefore hunks, IsLine '\n' line := by
  -- Each hunk is a header and its body lines.
  induction hunks generalizing oldBefore newBefore with
  | nil => simp [renderDiffHunks]
  | cons hunk rest ih =>
    intro line member
    simp only [renderDiffHunks, List.mem_append, List.mem_cons, List.mem_flatMap] at member
    rcases member with (rfl | ⟨diffLine, _, member⟩) | member
    · exact renderHeader_isLine hunk.oneLine _ _ _ _ _
    · exact diffLine.render_areLines line member
    · exact ih _ _ line member

/-- A diff cut up again gives its lines. -/
theorem TextDiff.splitInclusive_render (diff : TextDiff) :
    splitInclusive '\n' diff.render = diff.lines := by
  -- The file headers and the hunks are lines.
  apply splitInclusive_lines
  intro line member
  simp only [lines, List.mem_append, List.mem_map] at member
  rcases member with ⟨header, _, rfl⟩ | member
  · exact header.isLine
  · exact renderDiffHunks_areLines _ _ _ line member

/-- In front of other lines of a text, all lines have their ends. -/
theorem IsText.ended_of_append {lines others : List TextLine} (text : IsText (lines ++ others))
    (some_line : others ≠ []) : ∀ line ∈ lines, line.ended = true := by
  -- Lines in front of others are not the last ones.
  intro line member
  apply text
  rw [List.dropLast_append_of_ne_nil some_line]
  exact List.mem_append_left _ member

/-- The last lines of a text are a text. -/
theorem IsText.of_append {lines others : List TextLine} (text : IsText (lines ++ others)) :
    IsText others := by
  intro line member
  -- The last line of the whole is the last one of them.
  cases others with
  | nil => cases member
  | cons first rest =>
    apply text
    rw [List.dropLast_append_of_ne_nil (List.cons_ne_nil _ _)]
    exact List.mem_append_right _ member

/-- Lines with ends in front of a text make up a text with it. -/
theorem IsText.append {lines others : List TextLine} (ended : ∀ line ∈ lines, line.ended = true)
    (text : IsText others) : IsText (lines ++ others) := by
  intro line member
  -- With nothing behind them, all lines still have their ends.
  cases others with
  | nil =>
    rw [List.append_nil] at member
    exact ended line (List.dropLast_subset _ member)
  | cons first rest =>
    rw [List.dropLast_append_of_ne_nil (List.cons_ne_nil _ _)] at member
    rcases List.mem_append.mp member with inside | inside
    · exact ended line inside
    · exact text line inside

/-- There are as many line ends in a text as lines that have one. -/
theorem count_textOf (lines : List TextLine) :
    (textOf lines).count '\n' = lines.countP fun line => line.ended := by
  -- No line has a line end within it.
  induction lines with
  | nil => rfl
  | cons line rest ih =>
    have shape : textOf (line :: rest) = line.chars ++ textOf rest := rfl
    rw [shape, List.count_append, ih, TextLine.chars, List.count_append,
      List.count_eq_zero_of_not_mem line.inside, List.countP_cons]
    cases line.ended <;> simp [Nat.add_comm]

/-- All lines of a text that does not end within one have ends. -/
theorem IsText.ended {lines : List TextLine} (text : IsText lines)
    (terminated : Terminated (textOf lines)) : ∀ line ∈ lines, line.ended = true := by
  rcases List.eq_nil_or_concat lines with rfl | ⟨others, last, rfl⟩
  · intro line member
    cases member
  · rw [List.concat_eq_append] at text terminated ⊢
    -- Without an end, the last line would end the text with one of its own characters.
    have lastEnded : last.ended = true := by
      cases ended : last.ended with
      | true => rfl
      | false =>
        have bare : textOf [last] = last.body := by simp [textOf, TextLine.chars, ended]
        have some_char := last.someChar ended
        have final : (textOf (others ++ [last])).getLast? = some (last.body.getLast some_char) := by
          rw [textOf_append, bare, List.getLast?_append_of_ne_nil _ some_char,
            List.getLast?_eq_getLast_of_ne_nil some_char]
        have newline := terminated _ final
        exact absurd (newline ▸ List.getLast_mem some_char) last.inside
    intro line member
    rcases List.mem_append.mp member with inside | inside
    · exact text.ended_of_append (List.cons_ne_nil _ _) line inside
    · rw [List.mem_singleton.mp inside]
      exact lastEnded

end Text
