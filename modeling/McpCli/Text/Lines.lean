import Mathlib.Data.List.Basic

/-! Texts as sequences of lines that keep their ends. -/

namespace Text

variable {α : Type*}

/-- A line with its end, and no other end inside. -/
def IsLine (sep : α) (line : List α) : Prop :=
  ∃ body, sep ∉ body ∧ line = body ++ [sep]

/-- Putting something other than a line end in front of a line gives a line. -/
theorem IsLine.cons {sep c : α} {line : List α} (isLine : IsLine sep line) (other : c ≠ sep) :
    IsLine sep (c :: line) := by
  obtain ⟨body, inside, rfl⟩ := isLine
  refine ⟨c :: body, ?_, rfl⟩
  simp [Ne.symm other, inside]

/-- A line is told by its last element, which is nowhere else in it. -/
theorem isLine_iff {sep : α} {line : List α} :
    IsLine sep line ↔ line.getLast? = some sep ∧ sep ∉ line.dropLast := by
  -- A line is its body and the separator.
  constructor
  · intro isLine
    obtain ⟨body, inside, rfl⟩ := isLine
    rw [List.getLast?_concat, List.dropLast_concat]
    exact ⟨rfl, inside⟩
  · intro both
    exact ⟨line.dropLast, both.2, (List.dropLast_append_getLast? sep both.1).symm⟩

variable [DecidableEq α]

instance (sep : α) (line : List α) : Decidable (IsLine sep line) := decidable_of_iff' _ isLine_iff

/-- Cut a text behind every line end. A last line without an end is kept as it is. -/
def splitInclusive (sep : α) : List α → List (List α)
  | [] => []
  | c :: rest =>
    if c = sep then [c] :: splitInclusive sep rest
    else
      -- Nothing behind it means that the text ends without a line end.
      match splitInclusive sep rest with
      | [] => [[c]]
      | line :: lines => (c :: line) :: lines

/-- A line in front of a text is the first piece. -/
theorem splitInclusive_line_append {sep : α} {line : List α} (isLine : IsLine sep line)
    (text : List α) : splitInclusive sep (line ++ text) = line :: splitInclusive sep text := by
  obtain ⟨body, inside, rfl⟩ := isLine
  -- The induction walks through the line up to its end.
  induction body with
  | nil => simp [splitInclusive]
  | cons c body ih =>
    have outside : sep ∉ body := fun member => inside (List.mem_cons_of_mem c member)
    have other : c ≠ sep := by
      intro same
      subst same
      exact inside List.mem_cons_self
    have later := ih outside
    simp only [List.cons_append, splitInclusive, if_neg other]
    rw [later]

/-- Cutting a text made of lines gives back the lines. -/
theorem splitInclusive_lines {sep : α} {lines : List (List α)}
    (areLines : ∀ line ∈ lines, IsLine sep line) :
    splitInclusive sep lines.flatten = lines := by
  induction lines with
  | nil => rfl
  | cons line rest ih =>
    have first := areLines line List.mem_cons_self
    have others : ∀ line ∈ rest, IsLine sep line :=
      fun line member => areLines line (List.mem_cons_of_mem _ member)
    -- The first line is cut off whole, and the induction is on the lines behind it.
    rw [List.flatten_cons, splitInclusive_line_append first, ih others]

/-- A text without a line end in it is one piece. -/
theorem splitInclusive_open {sep : α} {body : List α}
    (inside : sep ∉ body) (someChar : body ≠ []) : splitInclusive sep body = [body] := by
  -- Every character is put in front of the piece that the others are.
  induction body with
  | nil => exact absurd rfl someChar
  | cons c rest ih =>
    have other : c ≠ sep := fun same => inside (same ▸ List.mem_cons_self)
    have outside : sep ∉ rest := fun member => inside (List.mem_cons_of_mem c member)
    rw [splitInclusive, if_neg other]
    cases rest with
    | nil => rfl
    | cons next others => rw [ih outside (List.cons_ne_nil _ _)]

/-- The text does not end within a line. -/
def Terminated (text : List Char) : Prop := ∀ c ∈ text.getLast?, c = '\n'

instance : DecidablePred Terminated := fun text =>
  decidable_of_iff (text.getLast?.all (· = '\n') = true) (by simp [Terminated, Option.all_eq_true])

/-- A line without its end, which may be of one character or of two. -/
def stripLineEnd (line : List Char) : List Char :=
  if line.getLast? = some '\n' then
    if line.dropLast.getLast? = some '\r' then line.dropLast.dropLast else line.dropLast
  else line

/-- Of a line, only its end is left out. -/
theorem stripLineEnd_sublist (line : List Char) : (stripLineEnd line).Sublist line := by
  unfold stripLineEnd
  split
  · split
    · exact (List.dropLast_sublist _).trans (List.dropLast_sublist _)
    · exact List.dropLast_sublist _
  · exact List.Sublist.refl _

/-- The lines of a text without their ends. -/
def lines (text : List Char) : List (List Char) := (splitInclusive '\n' text).map stripLineEnd

end Text
