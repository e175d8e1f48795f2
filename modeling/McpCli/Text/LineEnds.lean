import Mathlib.Data.List.Infix
import McpCli.Text.Cut

/-! The lines of a text put together again, with one kind of line end. -/

namespace Text

/-- The lines of a text with one line end between them, and one at the end if the text has one. -/
def rejoin (text : List Char) : List Char :=
  let joined := ['\n'].intercalate (lines text)
  if text.getLast? = some '\n' then joined ++ ['\n'] else joined

/-- A text has a line end of two characters somewhere. -/
def HasCrLf (text : List Char) : Prop := ['\r', '\n'] <:+: text

instance (text : List Char) : Decidable (HasCrLf text) :=
  inferInstanceAs (Decidable (_ <:+: _))

/-- A line in front of other ones keeps an end of one character. -/
theorem rejoin_line_append {line : List Char} (isLine : IsLine '\n' line) (rest : List Char) :
    rejoin (line ++ rest) = stripLineEnd line ++ ['\n'] ++ rejoin rest := by
  -- The first line is cut off by itself.
  have cut : lines (line ++ rest) = stripLineEnd line :: lines rest := by
    rw [lines, splitInclusive_line_append isLine, List.map_cons, lines]
  unfold rejoin
  rw [cut]
  cases rest with
  | nil =>
    obtain ⟨body, -, rfl⟩ := isLine
    simp [lines, splitInclusive]
  | cons c rest =>
    -- Something is behind the line, which the last line and its end belong to.
    have last : (line ++ c :: rest).getLast? = (c :: rest).getLast? :=
      List.getLast?_append_of_ne_nil _ (List.cons_ne_nil _ _)
    have more : lines (c :: rest) ≠ [] := by
      obtain ⟨-, whole⟩ := splitInclusive_spec '\n' (c :: rest)
      intro none_left
      rw [List.map_eq_nil_iff.mp none_left] at whole
      cases whole
    rw [last, List.intercalate_cons_of_ne_nil more]
    split
    · simp
    · rfl

/-- A last line without an end stays as it is. -/
theorem rejoin_open {body : List Char} (inside : '\n' ∉ body) (someChar : body ≠ []) :
    rejoin body = body := by
  have last : body.getLast? ≠ some '\n' := fun ended => inside (List.mem_of_getLast? ended)
  simp [rejoin, lines, splitInclusive_open inside someChar, stripLineEnd, last]

/-- A whole line without its end, and whether its end has two characters. -/
theorem stripLineEnd_concat (body : List Char) :
    stripLineEnd (body ++ ['\n']) = if body.getLast? = some '\r' then body.dropLast else body := by
  simp [stripLineEnd]

/-- No line gets longer. -/
theorem length_rejoin_le (text : List Char) : (rejoin text).length ≤ text.length := by
  obtain ⟨cut, whole⟩ := splitInclusive_spec '\n' text
  generalize splitInclusive '\n' text = pieces at cut whole
  subst whole
  -- The induction takes the lines one after another; each of them loses a character or stays.
  induction pieces with
  | nil => exact Nat.le_refl 0
  | cons line rest ih =>
    rcases cut with ⟨isLine, others⟩ | ⟨rfl, nonempty, outside⟩
    · have behind := ih others
      rw [List.flatten_cons, rejoin_line_append isLine]
      obtain ⟨body, -, rfl⟩ := isLine
      rw [stripLineEnd_concat]
      split
      · simp only [List.length_append, List.length_dropLast, List.length_singleton]
        omega
      · simp only [List.length_append, List.length_singleton]
        omega
    · exact Nat.le_of_eq (by rw [List.flatten_singleton, rejoin_open outside nonempty])

/-- A line end of two characters is at the end of the first line or behind it. -/
theorem hasCrLf_line_append {body : List Char} (inside : '\n' ∉ body) (rest : List Char) :
    HasCrLf (body ++ '\n' :: rest) ↔ body.getLast? = some '\r' ∨ HasCrLf rest := by
  -- The induction goes through the line, in which no line end begins before its last character.
  induction body with
  | nil =>
    rw [List.nil_append, HasCrLf, List.infix_cons_iff]
    simp [HasCrLf]
  | cons c body ih =>
    have outside : '\n' ∉ body := fun mem => inside (List.mem_cons_of_mem c mem)
    rw [HasCrLf, List.cons_append, List.infix_cons_iff]
    have later := ih outside
    rw [HasCrLf] at later
    rw [later]
    cases body with
    | nil => simp [eq_comm]
    | cons d body =>
      have other : d ≠ '\n' := fun same => outside (same ▸ List.mem_cons_self)
      simp [List.cons_prefix_cons, Ne.symm other]

/-- A text comes out of its lines again exactly if no line end has two characters. -/
theorem rejoin_eq_iff (text : List Char) : rejoin text = text ↔ ¬ HasCrLf text := by
  obtain ⟨cut, whole⟩ := splitInclusive_spec '\n' text
  generalize splitInclusive '\n' text = pieces at cut whole
  subst whole
  -- The induction takes the lines one after another, each with its end.
  induction pieces with
  | nil =>
    refine iff_of_true rfl fun has => ?_
    have short := has.length_le
    cases short
  | cons line rest ih =>
    rcases cut with ⟨isLine, others⟩ | ⟨rfl, nonempty, outside⟩
    · have behind := ih others
      have shorter := length_rejoin_le rest.flatten
      rw [List.flatten_cons, rejoin_line_append isLine]
      obtain ⟨body, inside, rfl⟩ := isLine
      rw [stripLineEnd_concat, List.append_assoc body, List.singleton_append,
        hasCrLf_line_append inside]
      split
      · -- The first of the two characters is lost, and nothing behind the line makes up for it.
        rename_i returns
        refine iff_of_false (fun same => ?_) (fun free => free (.inl returns))
        have lengths := congrArg List.length same
        have nonempty : 0 < body.length := by
          rw [List.length_pos_iff]
          rintro rfl
          cases returns
        simp only [List.length_append, List.length_dropLast, List.length_cons,
          List.length_nil] at lengths
        omega
      · rename_i single
        rw [List.append_assoc, List.singleton_append, List.append_cancel_left_eq, List.cons_eq_cons,
          and_iff_right rfl, behind, or_iff_right single]
    · rw [List.flatten_singleton, rejoin_open outside nonempty]
      refine iff_of_true rfl fun has => outside ?_
      exact has.subset (by simp)

end Text
