import Mathlib.Data.List.DropRight
import McpCli.Text.Lines

/-! Texts that are put together from pieces, and then cut into lines. -/

namespace Text

variable {α β : Type*}

/-- Cut a text behind every element of a kind. A last line without such an end is kept as it is. -/
def splitBehind (ends : α → Bool) : List α → List (List α)
  | [] => []
  | c :: rest =>
    if ends c then [c] :: splitBehind ends rest
    else
      match splitBehind ends rest with
      | [] => [[c]]
      | line :: lines => (c :: line) :: lines

/-- Cutting behind a separator is a case of it. -/
theorem splitInclusive_eq_splitBehind [DecidableEq α] (sep : α) (text : List α) :
    splitInclusive sep text = splitBehind (· = sep) text := by
  induction text with
  | nil => rfl
  | cons c rest ih =>
    by_cases ended : c = sep
    · simp [splitInclusive, splitBehind, ended, ih]
    · -- An element that ends no line is put in front of the first line behind it, if there is one.
      cases behind : splitBehind (· = sep) rest with
      | nil => simp [splitInclusive, splitBehind, ended, ih, behind]
      | cons line lines => simp [splitInclusive, splitBehind, ended, ih, behind]

/-- A text is cut in the same places if its elements are replaced by others of their kind. -/
theorem splitBehind_map {ends : α → Bool} (f : β → α) (text : List β) :
    splitBehind ends (text.map f) = (splitBehind (fun c => ends (f c)) text).map (List.map f) := by
  -- An element ends a line before it is replaced exactly if it does so afterwards.
  induction text with
  | nil => rfl
  | cons c rest ih =>
    rw [List.map_cons, splitBehind, splitBehind, ih]
    split
    · rfl
    · cases splitBehind (fun c => ends (f c)) rest <;> rfl

section

variable {ends : α → Bool}

/-- The lines come to the text again. -/
theorem flatten_splitBehind (ends : α → Bool) (text : List α) :
    (splitBehind ends text).flatten = text := by
  -- Every element is put in front of the line that begins behind it.
  induction text with
  | nil => rfl
  | cons c rest ih =>
    rw [splitBehind]
    split
    · rw [List.flatten_cons, ih]
      rfl
    · cases cut : splitBehind ends rest with
      | nil =>
        rw [cut] at ih
        rw [← ih]
        rfl
      | cons line lines =>
        rw [cut] at ih
        rw [← ih]
        rfl

/-- Where there is some text, there is a line. -/
theorem exists_splitBehind (ends : α → Bool) {text : List α} (nonempty : text ≠ []) :
    ∃ line lines, splitBehind ends text = line :: lines := by
  rw [← List.ne_nil_iff_exists_cons]
  intro none_left
  have whole := flatten_splitBehind ends text
  rw [none_left] at whole
  exact nonempty whole.symm

/-- An element that does not end a line is in front of the first line behind it. -/
theorem splitBehind_cons {c : α} (inside : ends c = false) (text : List α) :
    splitBehind ends (c :: text) =
      (c :: (splitBehind ends text).headD []) :: (splitBehind ends text).tail := by
  rw [splitBehind, if_neg (by simp [inside])]
  cases splitBehind ends text <;> rfl

/-- The beginning of a line is in front of the first line behind it. -/
theorem splitBehind_open {line : List α} (inside : ∀ c ∈ line, ends c = false)
    (nonempty : line ≠ []) (text : List α) :
    splitBehind ends (line ++ text) =
      (line ++ (splitBehind ends text).headD []) :: (splitBehind ends text).tail := by
  -- Each element is put in front of what the others come to.
  induction line with
  | nil => exact absurd rfl nonempty
  | cons c rest ih =>
    rw [List.forall_mem_cons] at inside
    rw [List.cons_append, splitBehind_cons inside.1]
    rcases eq_or_ne rest [] with rfl | more
    · rfl
    · rw [ih inside.2 more]
      rfl

/-- Behind the end of a line, cutting starts again. -/
theorem splitBehind_append {front : List α} (ended : ∀ c ∈ front.getLast?, ends c = true)
    (text : List α) :
    splitBehind ends (front ++ text) = splitBehind ends front ++ splitBehind ends text := by
  -- The front ends as what is behind its first element does.
  induction front with
  | nil => rfl
  | cons c rest ih =>
    cases rest with
    | nil =>
      have ending : ends c = true := ended c rfl
      simp [splitBehind, ending]
    | cons next others =>
      rw [List.getLast?_cons_cons] at ended
      rw [List.cons_append, splitBehind, splitBehind, ih ended]
      obtain ⟨line, lines, cut⟩ := exists_splitBehind ends (List.cons_ne_nil next others)
      rw [cut]
      split <;> rfl

/-- There are as many lines as ends of lines. -/
theorem length_splitBehind {front : List α} (ended : ∀ c ∈ front.getLast?, ends c = true) :
    (splitBehind ends front).length = front.countP ends := by
  induction front with
  | nil => rfl
  | cons c rest ih =>
    cases rest with
    | nil =>
      have ending : ends c = true := ended c rfl
      simp [splitBehind, ending]
    | cons next others =>
      rw [List.getLast?_cons_cons] at ended
      have later := ih ended
      obtain ⟨line, lines, cut⟩ := exists_splitBehind ends (List.cons_ne_nil next others)
      -- An element that ends no line is on the one behind it.
      rw [splitBehind, List.countP_cons, ← later, cut]
      split <;> rfl

/-- The part of a text behind its last whole line. -/
def openLine (ends : α → Bool) (text : List α) : List α := text.rtakeWhile fun c => !ends c

/-- The whole lines of a text. -/
def wholeLines (ends : α → Bool) (text : List α) : List α := text.rdropWhile fun c => !ends c

/-- A text is its whole lines and what is behind them. -/
theorem wholeLines_append_openLine (ends : α → Bool) (text : List α) :
    wholeLines ends text ++ openLine ends text = text :=
  List.rdropWhile_append_rtakeWhile

/-- The whole lines have their ends. -/
theorem ended_wholeLines (ends : α → Bool) (text : List α) :
    ∀ c ∈ (wholeLines ends text).getLast?, ends c = true := by
  intro c last
  have nonempty : wholeLines ends text ≠ [] := by
    rintro none_left
    rw [none_left] at last
    cases last
  rw [List.getLast?_eq_getLast_of_ne_nil nonempty, Option.mem_some_iff] at last
  subst last
  -- What the open line was taken from stops at the last element that ends a line.
  have stops := List.rdropWhile_last_not (fun c => !ends c) text nonempty
  unfold wholeLines
  simpa using stops

/-- Behind the whole lines, no line ends. -/
theorem inside_openLine {text : List α} : ∀ c ∈ openLine ends text, ends c = false := by
  intro c member
  simpa using List.mem_rtakeWhile_imp member

/-- Without the end of a line, a text is on the line that is open in front of it. -/
theorem openLine_append_of_inside (front : List α) {text : List α}
    (inside : ∀ c ∈ text, ends c = false) :
    openLine ends (front ++ text) = openLine ends front ++ text ∧
      wholeLines ends (front ++ text) = wholeLines ends front := by
  -- The text is taken from the end, element by element.
  induction text using List.reverseRecOn with
  | nil => simp
  | append_singleton text c ih =>
    rw [List.forall_mem_append, List.forall_mem_singleton] at inside
    obtain ⟨opened, whole⟩ := ih inside.1
    unfold openLine wholeLines at *
    rw [← List.append_assoc, List.rtakeWhile_concat, List.rdropWhile_concat, inside.2]
    simp [opened, whole]

/-- What is in front of the end of a line does not count for the line behind it. -/
theorem openLine_append_of_ended (front : List α) {text : List α}
    (ended : wholeLines ends text ≠ []) :
    openLine ends (front ++ text) = openLine ends text ∧
      wholeLines ends (front ++ text) = front ++ wholeLines ends text := by
  -- The text is taken from the end, up to its last end of a line.
  induction text using List.reverseRecOn with
  | nil => simp [wholeLines] at ended
  | append_singleton text c ih =>
    unfold openLine wholeLines at *
    rw [← List.append_assoc]
    simp only [List.rtakeWhile_concat, List.rdropWhile_concat] at ended ⊢
    split
    · rename_i inside
      rw [if_pos inside] at ended
      rw [(ih ended).1, (ih ended).2]
      exact ⟨rfl, rfl⟩
    · exact ⟨rfl, List.append_assoc _ _ _⟩

/-- A text with no whole line has no end of a line. -/
theorem wholeLines_eq_nil {text : List α} :
    wholeLines ends text = [] ↔ ∀ c ∈ text, ends c = false := by
  simp [wholeLines, List.rdropWhile_eq_nil_iff]

end

/-- The elements of some texts one behind the other, each with the number of its text. -/
def numberedFrom (first : Nat) : List (List α) → List (Nat × α)
  | [] => []
  | text :: rest => text.map (first, ·) ++ numberedFrom (first + 1) rest

/-- The numbers are only added to the texts. -/
theorem numberedFrom_map_snd (first : Nat) (texts : List (List α)) :
    (numberedFrom first texts).map Prod.snd = texts.flatten := by
  induction texts generalizing first with
  | nil => rfl
  | cons text rest ih => simp [numberedFrom, ih, Function.comp_def]

/-- The texts are numbered one behind the other. -/
theorem numberedFrom_append (first : Nat) (texts others : List (List α)) :
    numberedFrom first (texts ++ others) =
      numberedFrom first texts ++ numberedFrom (first + texts.length) others := by
  induction texts generalizing first with
  | nil => simp [numberedFrom]
  | cons text rest ih =>
    rw [List.cons_append, numberedFrom, numberedFrom, ih, List.append_assoc, List.length_cons]
    rw [show first + 1 + rest.length = first + (rest.length + 1) by omega]

/-- The numbers are those of the texts. -/
theorem numberedFrom_bounds {first : Nat} {texts : List (List α)} {c : Nat × α}
    (member : c ∈ numberedFrom first texts) : first ≤ c.1 ∧ c.1 < first + texts.length := by
  -- The first text has the first number, and the others have higher ones.
  induction texts generalizing first with
  | nil => cases member
  | cons text rest ih =>
    rw [numberedFrom, List.mem_append, List.mem_map] at member
    rw [List.length_cons]
    rcases member with ⟨_, _, rfl⟩ | later
    · simp
    · have bounds := ih later
      omega

/-- The numbers never get smaller. -/
theorem numberedFrom_sorted (first : Nat) (texts : List (List α)) :
    (numberedFrom first texts).Pairwise fun a b => a.1 ≤ b.1 := by
  induction texts generalizing first with
  | nil => exact .nil
  | cons text rest ih =>
    refine List.pairwise_append.mpr ⟨?_, ih _, ?_⟩
    · -- All of the first text has one number.
      rw [List.pairwise_map]
      exact List.pairwise_of_forall fun _ _ => Nat.le_refl _
    · intro a inFirst b later
      obtain ⟨_, _, rfl⟩ := List.mem_map.mp inFirst
      have bounds := (numberedFrom_bounds later).1
      simp only
      omega

end Text
