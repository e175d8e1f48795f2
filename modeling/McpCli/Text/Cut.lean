import McpCli.Text.Lines

/-! The lines that a text is cut into, and what edits make of them. -/

namespace Text

variable {α : Type*}

/-- Lines that a text can be cut into: only the last one may be without its end. -/
def Cut (sep : α) : List (List α) → Prop
  | [] => True
  | line :: rest => IsLine sep line ∧ Cut sep rest ∨ rest = [] ∧ line ≠ [] ∧ sep ∉ line

/-- A line is either without an end or not a whole one. -/
theorem IsLine.mem {sep : α} {line : List α} (isLine : IsLine sep line) : sep ∈ line := by
  obtain ⟨body, _, rfl⟩ := isLine
  simp

/-- Whole lines are lines that a text can be cut into. -/
theorem Cut.of_lines {sep : α} {lines : List (List α)} (areLines : ∀ line ∈ lines, IsLine sep line) :
    Cut sep lines := by
  -- Each line has its end, whatever is behind it.
  induction lines with
  | nil => trivial
  | cons line rest ih =>
    rw [List.forall_mem_cons] at areLines
    exact .inl ⟨areLines.1, ih areLines.2⟩

/-- Each line has an end or is a beginning of one. -/
theorem Cut.mem {sep : α} {lines : List (List α)} (cut : Cut sep lines) :
    ∀ line ∈ lines, IsLine sep line ∨ line ≠ [] ∧ sep ∉ line := by
  -- Only the last line can be without its end.
  induction lines with
  | nil => exact fun _ member => nomatch member
  | cons first rest ih =>
    rw [List.forall_mem_cons]
    rcases cut with ⟨isLine, others⟩ | ⟨rfl, open_⟩
    · exact ⟨.inl isLine, ih others⟩
    · exact ⟨.inr open_, fun _ member => nomatch member⟩

/-- No line is empty. -/
theorem Cut.ne_nil {sep : α} {lines : List (List α)} (cut : Cut sep lines) {line : List α}
    (member : line ∈ lines) : line ≠ [] := by
  rcases cut.mem line member with isLine | open_
  · exact List.ne_nil_of_mem isLine.mem
  · exact open_.1

/-- In front of other lines, all lines have their ends. -/
theorem cut_append_iff {sep : α} {lines others : List (List α)} (some_line : others ≠ []) :
    Cut sep (lines ++ others) ↔ (∀ line ∈ lines, IsLine sep line) ∧ Cut sep others := by
  -- No line of the front is the last one.
  induction lines with
  | nil => simp
  | cons first rest ih =>
    rw [List.cons_append, Cut, ih, List.forall_mem_cons]
    have nonempty : rest ++ others ≠ [] := List.append_ne_nil_of_right_ne_nil _ some_line
    simp only [nonempty, false_and, or_false]
    exact and_assoc.symm

/-- The first lines of a cut text are one. -/
theorem Cut.left {sep : α} {lines others : List (List α)} (cut : Cut sep (lines ++ others)) :
    Cut sep lines := by
  cases others with
  | nil => rwa [List.append_nil] at cut
  | cons first rest => exact .of_lines ((cut_append_iff (List.cons_ne_nil _ _)).mp cut).1

/-- The last lines of a cut text are one. -/
theorem Cut.right {sep : α} {lines others : List (List α)} (cut : Cut sep (lines ++ others)) :
    Cut sep others := by
  cases others with
  | nil => trivial
  | cons first rest => exact ((cut_append_iff (List.cons_ne_nil _ _)).mp cut).2

/-- If some of the last lines all have ends, all lines do. -/
theorem Cut.ended {sep : α} {lines others : List (List α)} (cut : Cut sep (lines ++ others))
    (some_line : others ≠ []) (ended : ∀ line ∈ others, IsLine sep line) :
    ∀ line ∈ lines ++ others, IsLine sep line := by
  -- The lines in front are not the last ones.
  have front := ((cut_append_iff some_line).mp cut).1
  intro line member
  rcases List.mem_append.mp member with inside | inside
  · exact front line inside
  · exact ended line inside

/-- The same lines in another order that come to the same text are in the same way a cut of it. -/
theorem Cut.of_perm {sep : α} {lines others : List (List α)} (cut : Cut sep lines)
    (perm : others.Perm lines) (same : others.flatten = lines.flatten) : Cut sep others := by
  -- Only the last line matters, which may be without its end.
  rcases List.eq_nil_or_concat lines with rfl | ⟨front, last, rfl⟩
  · rw [perm.eq_nil]
    trivial
  rw [List.concat_eq_append] at cut perm same
  obtain ⟨areLines, final⟩ := (cut_append_iff (List.cons_ne_nil _ _)).mp cut
  rcases final with ⟨isLine, _⟩ | ⟨_, nonempty, outside⟩
  · -- All lines have ends, in whatever order.
    apply Cut.of_lines
    intro line member
    rcases List.mem_append.mp (perm.mem_iff.mp member) with inside | inside
    · exact areLines line inside
    · rwa [List.mem_singleton.mp inside]
  · -- The text ends in the line without an end, so that line is the last one in any order.
    rcases List.eq_nil_or_concat others with rfl | ⟨front', last', rfl⟩
    · trivial
    rw [List.concat_eq_append] at perm same ⊢
    have member : last' ∈ front ++ [last] :=
      perm.mem_iff.mp (List.mem_append_right _ List.mem_cons_self)
    have isLast : last' = last := by
      rcases List.mem_append.mp member with inside | inside
      · obtain ⟨body, _, rfl⟩ := areLines last' inside
        have ends := congrArg List.getLast? same
        simp only [List.flatten_append, List.flatten_singleton, ← List.append_assoc,
          List.getLast?_concat] at ends
        rw [List.getLast?_append_of_ne_nil _ nonempty] at ends
        exact absurd (List.mem_of_getLast? ends.symm) outside
      · exact List.mem_singleton.mp inside
    subst isLast
    have rest : front'.Perm front := (List.perm_append_right_iff _).mp perm
    refine (cut_append_iff (List.cons_ne_nil _ _)).mpr ⟨?_, .inr ⟨rfl, nonempty, outside⟩⟩
    exact fun line inside => areLines line (rest.mem_iff.mp inside)

/--
Edits of some lines, each with its old side and its new one.
The old sides are found one behind the other, and replaced where they are found.
-/
inductive Replaces : List α → List (List α × List α) → List α → Prop
  | nil (rest : List α) : Replaces rest [] rest
  | edit {rest out : List α} {edits : List (List α × List α)} (gap old new : List α)
      (others : Replaces rest edits out) :
      Replaces (gap ++ old ++ rest) ((old, new) :: edits) (gap ++ new ++ out)

/-- Wherever they are found, edits take away the same lines and add the same. -/
theorem Replaces.perm {lines out : List α} {edits : List (List α × List α)}
    (replaces : Replaces lines edits out) :
    (out ++ edits.flatMap Prod.fst).Perm (lines ++ edits.flatMap Prod.snd) := by
  -- The lines between the edits are on both sides, whatever they are.
  induction replaces with
  | nil rest => exact .refl _
  | @edit rest out edits gap old new others ih =>
    simp only [List.flatMap_cons, List.append_assoc]
    refine .append_left gap ?_
    calc (new ++ (out ++ (old ++ edits.flatMap Prod.fst))).Perm
          (new ++ (old ++ (out ++ edits.flatMap Prod.fst))) :=
        .append_left new (List.perm_append_comm_assoc _ _ _)
      List.Perm _ (new ++ (old ++ (rest ++ edits.flatMap Prod.snd))) :=
        .append_left new (.append_left old ih)
      List.Perm _ (old ++ (new ++ (rest ++ edits.flatMap Prod.snd))) :=
        List.perm_append_comm_assoc _ _ _
      List.Perm _ (old ++ (rest ++ (new ++ edits.flatMap Prod.snd))) :=
        .append_left old (List.perm_append_comm_assoc _ _ _)

variable [DecidableEq α]

/-- A text is cut into such lines, which come to it again. -/
theorem splitInclusive_spec (sep : α) (text : List α) :
    Cut sep (splitInclusive sep text) ∧ (splitInclusive sep text).flatten = text := by
  -- Every character is put in front of the line that begins behind it.
  induction text with
  | nil => exact ⟨trivial, rfl⟩
  | cons c rest ih =>
    obtain ⟨cut, whole⟩ := ih
    rw [splitInclusive]
    split
    · rename_i same
      subst same
      exact ⟨.inl ⟨⟨[], by simp, rfl⟩, cut⟩, by rw [List.flatten_cons, whole]; rfl⟩
    · rename_i other
      split
      · rename_i none_left
        rw [none_left] at whole
        refine ⟨.inr ⟨rfl, List.cons_ne_nil _ _, ?_⟩, by rw [← whole]; rfl⟩
        rw [List.mem_singleton]
        exact Ne.symm other
      · rename_i line lines split_
        rw [split_] at cut whole
        refine ⟨?_, by rw [← whole]; rfl⟩
        rcases cut with ⟨isLine, others⟩ | ⟨rfl, nonempty, outside⟩
        · exact .inl ⟨isLine.cons other, others⟩
        · refine .inr ⟨rfl, List.cons_ne_nil _ _, ?_⟩
          rw [List.mem_cons, not_or]
          exact ⟨Ne.symm other, outside⟩

/-- Of a text, only the ends of its lines are left out. -/
theorem lines_flatten_sublist (text : List Char) : (lines text).flatten.Sublist text := by
  have ends (pieces : List (List Char)) :
      (pieces.map stripLineEnd).flatten.Sublist pieces.flatten := by
    -- Each line loses its own end only.
    induction pieces with
    | nil => exact List.Sublist.refl _
    | cons line rest ih => exact (stripLineEnd_sublist line).append ih
  have whole := ends (splitInclusive '\n' text)
  rwa [(splitInclusive_spec '\n' text).2] at whole

/-- Lines come out of cutting the text that they make up exactly if it can be cut into them. -/
theorem splitInclusive_flatten_iff {sep : α} {lines : List (List α)} :
    splitInclusive sep lines.flatten = lines ↔ Cut sep lines := by
  -- Cutting gives such lines, and such lines are where the text is cut.
  constructor
  · intro same
    rw [← same]
    exact (splitInclusive_spec sep _).1
  · intro cut
    induction lines with
    | nil => rfl
    | cons first rest ih =>
      rcases cut with ⟨isLine, others⟩ | ⟨rfl, nonempty, outside⟩
      · rw [List.flatten_cons, splitInclusive_line_append isLine, ih others]
      · rw [List.flatten_singleton, splitInclusive_open outside nonempty]

/-- A text does not end within a line exactly if all its lines have ends. -/
theorem terminated_iff {text : List Char} :
    Terminated text ↔ ∀ line ∈ splitInclusive '\n' text, IsLine '\n' line := by
  -- The last character of the text is the last one of its last line.
  obtain ⟨cut, whole⟩ := splitInclusive_spec '\n' text
  generalize splitInclusive '\n' text = lines at cut whole
  subst whole
  rcases List.eq_nil_or_concat lines with rfl | ⟨front, last, rfl⟩
  · simp [Terminated]
  rw [List.concat_eq_append] at cut ⊢
  obtain ⟨areLines, final⟩ := (cut_append_iff (List.cons_ne_nil _ _)).mp cut
  have nonempty : last ≠ [] := cut.ne_nil (List.mem_append_right _ List.mem_cons_self)
  have ends : (front ++ [last]).flatten.getLast? = last.getLast? := by
    rw [List.flatten_append, List.flatten_singleton, List.getLast?_append_of_ne_nil _ nonempty]
  rw [Terminated, ends]
  rcases final with ⟨isLine, _⟩ | ⟨_, _, outside⟩
  · -- The last line has its end.
    refine iff_of_true ?_ (cut.ended (List.cons_ne_nil _ _) ?_)
    · obtain ⟨body, _, rfl⟩ := isLine
      simp
    · intro line member
      rwa [List.mem_singleton.mp member]
  · -- The last line has none.
    refine iff_of_false ?_ ?_
    · intro newline
      rw [List.getLast?_eq_some_getLast nonempty] at newline
      exact outside (newline _ rfl ▸ List.getLast_mem nonempty)
    · intro all
      exact outside (all last (List.mem_append_right _ List.mem_cons_self)).mem

end Text
