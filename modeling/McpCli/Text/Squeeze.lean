import McpCli.Text.Words

/-! Texts whose words stand apart by one blank each, and what such a text begins with. -/

namespace Text

/-- The words of a text with one blank between two of them. -/
def squeeze (text : List Char) : List Char := [' '].intercalate (splitWhitespace text)

/-- A word has a character, and no white space. -/
def IsWord (word : List Char) : Prop := word ≠ [] ∧ ∀ c ∈ word, isWhitespace c = false

/-- What stands between two places where a text is split has no separator in it. -/
theorem splitOnP_solid {α : Type*} {p : α → Bool} (text : List α) :
    ∀ part ∈ text.splitOnP p, ∀ c ∈ part, p c = false := by
  induction text with
  | nil =>
    intro part member c inside
    rw [List.splitOnP_nil, List.mem_singleton] at member
    rw [member] at inside
    cases inside
  | cons first rest ih =>
    intro part member c inside
    rw [List.splitOnP_cons_eq_if_modifyHead] at member
    split at member
    · rcases List.mem_cons.mp member with rfl | later
      · cases inside
      · exact ih part later c inside
    · -- The first character belongs to the first part.
      rename_i solid
      cases parts : rest.splitOnP p with
      | nil => exact absurd parts (List.splitOnP_ne_nil p rest)
      | cons head tail =>
        rw [parts] at member ih
        rw [List.modifyHead_cons] at member
        rcases List.mem_cons.mp member with rfl | later
        · rcases List.mem_cons.mp inside with rfl | further
          · exact Bool.eq_false_iff.mpr solid
          · exact ih head List.mem_cons_self c further
        · exact ih part (List.mem_cons_of_mem head later) c inside

/-- The words of a text are words. -/
theorem isWord_of_mem_splitWhitespace {text word : List Char}
    (member : word ∈ splitWhitespace text) : IsWord word := by
  obtain ⟨part, some_⟩ := List.mem_filter.mp member
  exact ⟨by simpa using some_, splitOnP_solid text word part⟩

/-- A word is its only word. -/
theorem splitWhitespace_of_isWord {word : List Char} (isWord : IsWord word) :
    splitWhitespace word = [word] := by
  rw [splitWhitespace, List.splitOnP_eq_singleton isWord.2,
    List.filter_cons_of_pos (by simpa using isWord.1), List.filter_nil]

/-- Words that are joined by blanks are the words of what they are joined to. -/
theorem splitWhitespace_intercalate {words : List (List Char)} (all : ∀ word ∈ words, IsWord word) :
    splitWhitespace ([' '].intercalate words) = words := by
  -- Words have no blank in them, so each one ends at the blank behind it.
  induction words with
  | nil => rfl
  | cons word rest ih =>
    have first := all word List.mem_cons_self
    have later := ih fun other member => all other (List.mem_cons_of_mem word member)
    cases rest with
    | nil => rw [List.intercalate_singleton, splitWhitespace_of_isWord first]
    | cons other rest =>
      rw [List.intercalate_cons_cons, List.append_assoc, List.singleton_append,
        splitWhitespace_word first.1 first.2 (by decide), later]

/-- A text of joined words is squeezed already. -/
theorem squeeze_intercalate {words : List (List Char)} (all : ∀ word ∈ words, IsWord word) :
    squeeze ([' '].intercalate words) = [' '].intercalate words := by
  rw [squeeze, splitWhitespace_intercalate all]

/-- The only white space in joined words are the blanks. -/
theorem white_of_mem_intercalate {words : List (List Char)} (all : ∀ word ∈ words, IsWord word)
    {c : Char} (member : c ∈ [' '].intercalate words) (white : isWhitespace c = true) :
    c = ' ' := by
  -- A character is in a word, which has no white space, or it is a blank between two.
  induction words with
  | nil => cases member
  | cons word rest ih =>
    have solid (inside : c ∈ word) : c = ' ' := by
      rw [(all word List.mem_cons_self).2 c inside] at white
      cases white
    cases rest with
    | nil =>
      rw [List.intercalate_singleton] at member
      exact solid member
    | cons other rest =>
      rw [List.intercalate_cons_cons, List.mem_append, List.mem_append] at member
      rcases member with (inside | blank) | later
      · exact solid inside
      · exact List.mem_singleton.mp blank
      · exact ih (fun other member => all other (List.mem_cons_of_mem word member)) later

/-- Joined words do not end in a blank. -/
theorem solid_of_getLast?_intercalate {words : List (List Char)}
    (all : ∀ word ∈ words, IsWord word) {last : Char}
    (ends : last ∈ ([' '].intercalate words).getLast?) : isWhitespace last = false := by
  induction words with
  | nil => cases ends
  | cons word rest ih =>
    cases rest with
    | nil =>
      rw [List.intercalate_singleton] at ends
      exact (all word List.mem_cons_self).2 last (List.mem_of_getLast? ends)
    | cons other rest =>
      have later : ∀ word ∈ other :: rest, IsWord word :=
        fun other member => all other (List.mem_cons_of_mem word member)
      refine ih later ?_
      rw [Option.mem_def, List.intercalate_cons_cons, List.getLast?_append] at ends
      cases found : ([' '].intercalate (other :: rest)).getLast? with
      | some final =>
        rw [found, Option.some_or] at ends
        exact ends
      | none =>
        -- Nothing but no words is joined to nothing.
        have same := splitWhitespace_intercalate later
        rw [List.getLast?_eq_none_iff.mp found] at same
        cases same

/-- What joined words begin with are words, too, if it does not end in a blank. -/
theorem intercalate_of_prefix {words : List (List Char)} (all : ∀ word ∈ words, IsWord word)
    {front : List Char} (begins : front <+: [' '].intercalate words)
    (solid : ∀ last ∈ front.getLast?, isWhitespace last = false) :
    ∃ parts, (∀ part ∈ parts, IsWord part) ∧ front = [' '].intercalate parts := by
  induction words generalizing front with
  | nil => exact ⟨[], nofun, List.prefix_nil.mp begins⟩
  | cons word rest ih =>
    have first := all word List.mem_cons_self
    -- The front ends in the first word, or behind it.
    have within (part : front <+: word) :
        ∃ parts, (∀ part ∈ parts, IsWord part) ∧ front = [' '].intercalate parts := by
      by_cases empty : front = []
      · exact ⟨[], nofun, empty⟩
      · refine ⟨[front], fun other member => ?_, List.intercalate_singleton.symm⟩
        rw [List.mem_singleton.mp member]
        exact ⟨empty, fun c inside => first.2 c (part.subset inside)⟩
    cases rest with
    | nil =>
      rw [List.intercalate_singleton] at begins
      exact within begins
    | cons other rest =>
      rw [List.intercalate_cons_cons, List.append_assoc, List.singleton_append] at begins
      rcases List.prefix_or_prefix_of_prefix begins (List.prefix_append _ _) with short | long
      · exact within short
      · obtain ⟨behind, rfl⟩ := long
        rw [List.prefix_append_right_inj] at begins
        cases behind with
        | nil =>
          rw [List.append_nil] at within ⊢
          exact within (List.prefix_refl word)
        | cons blank behind =>
          obtain ⟨rfl, further⟩ := List.cons_prefix_cons.mp begins
          have some_ : behind ≠ [] := by
            rintro rfl
            have white := solid ' ' (by simp)
            exact absurd white (by decide)
          obtain ⟨parts, areWords, rfl⟩ :=
            ih (fun other member => all other (List.mem_cons_of_mem word member)) further
              fun last ends => solid last (by
                rw [Option.mem_def] at ends ⊢
                rw [List.getLast?_append, List.getLast?_cons, ends]
                rfl)
          cases parts with
          | nil => exact absurd rfl some_
          | cons part parts =>
            refine ⟨word :: part :: parts, fun other member => ?_, ?_⟩
            · rcases List.mem_cons.mp member with rfl | later
              · exact first
              · exact areWords other later
            · rw [List.intercalate_cons_cons, List.append_assoc, List.singleton_append]

end Text
