import Mathlib.Data.List.Infix
import McpCli.Text.Replace

/-! Where a text occurs in others that are joined by a separator. -/

namespace Text

variable {α : Type*} {search : List α} {sep : α}

/-- A text that is found in another one is a part of it. -/
theorem contains_iff [DecidableEq α] {text : List α} :
    contains search text = true ↔ search <:+: text := by
  rw [contains, List.any_eq_true]
  -- A part begins with one of the ends of the text.
  constructor
  · rintro ⟨rest, ends, found⟩
    exact (List.isPrefixOf_iff_prefix.mp found).isInfix.trans ((List.mem_tails _ _).mp ends).isInfix
  · rintro ⟨front, rest, rfl⟩
    refine ⟨search ++ rest, (List.mem_tails _ _).mpr ⟨front, ?_⟩, ?_⟩
    · rw [List.append_assoc]
    · exact List.isPrefixOf_iff_prefix.mpr ⟨rest, rfl⟩

/-- A text without the separator does not go beyond it. -/
theorem infix_append_sep {front rest : List α} (solid : sep ∉ search) (some_ : search ≠ []) :
    search <:+: front ++ sep :: rest ↔ search <:+: front ∨ search <:+: rest := by
  rw [List.infix_append_iff, List.infix_cons_iff]
  have beyond (text : List α) (begins : text <+: sep :: rest) (apart : sep ∉ text) : text = [] := by
    cases text with
    | nil => rfl
    | cons first text =>
      rw [(List.cons_prefix_cons.mp begins).1] at apart
      exact absurd List.mem_cons_self apart
  constructor
  · rintro (within | (begins | later) | ⟨one, other, rfl, ends, begins⟩)
    · exact .inl within
    · exact absurd (beyond search begins solid) some_
    · exact .inr later
    · -- What would be behind the separator is nothing.
      have nothing := beyond other begins fun member => solid (List.mem_append_right _ member)
      rw [nothing, List.append_nil]
      exact .inl ends.isInfix
  · rintro (within | later)
    · exact .inl within
    · exact .inr (.inl (.inr later))

/-- A text without the separator that is found in joined ones is found in one of them. -/
theorem infix_intercalate (solid : sep ∉ search) (some_ : search ≠ []) (parts : List (List α)) :
    search <:+: [sep].intercalate parts ↔ ∃ part ∈ parts, search <:+: part := by
  induction parts with
  | nil => simp [List.intercalate, some_]
  | cons part rest ih =>
    cases rest with
    | nil => simp [List.intercalate]
    | cons other rest =>
      -- What is found is found on one side of the first separator.
      have joined : [sep].intercalate (part :: other :: rest) =
          part ++ sep :: [sep].intercalate (other :: rest) := by
        simp [List.intercalate]
      rw [joined, infix_append_sep solid some_, ih]
      simp only [List.mem_cons, or_and_right, exists_or, exists_eq_left]

end Text
