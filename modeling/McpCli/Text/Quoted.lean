import Mathlib.Data.List.Basic

/-! Texts in quotes, in which the characters that need it are escaped. -/

namespace Text

/-- A digit of a number in the base sixteen. -/
def hexDigit (value : Nat) : Char :=
  Char.ofNat (if value < 10 then 0x30 + value else 0x61 + (value - 10))

/-- What a digit in the base sixteen is worth. -/
def hexValue (digit : Char) : Nat :=
  if digit.toNat < 0x61 then digit.toNat - 0x30 else digit.toNat - 0x61 + 10

/-- The letters behind a backslash, and what they stand for. -/
def shortEscapes : List (Char × Char) :=
  [('"', '"'), ('\\', '\\'), ('b', '\x08'), ('t', '\t'), ('n', '\n'), ('f', '\x0c'), ('r', '\r')]

/-- A character inside of quotes. -/
def escape (c : Char) : List Char :=
  match shortEscapes.find? fun entry => entry.2 = c with
  | some (letter, _) => ['\\', letter]
  | none =>
    if c.toNat < 0x20 then
      ['\\', 'u', '0', '0', hexDigit (c.toNat / 16), hexDigit (c.toNat % 16)]
    else [c]

/-- A text in quotes. -/
def quoted (text : List Char) : List Char := '"' :: text.flatMap escape ++ ['"']

/-- The first character inside of quotes, and what is behind it. -/
def unescape : List Char → Option (Char × List Char)
  | [] => none
  | c :: rest =>
    if c ≠ '\\' then some (c, rest)
    else
      match rest with
      | [] => none
      | letter :: rest =>
        match shortEscapes.find? fun entry => entry.1 = letter with
        | some (_, c) => some (c, rest)
        | none =>
          match rest with
          | _ :: _ :: high :: low :: rest =>
            some (Char.ofNat (16 * hexValue high + hexValue low), rest)
          | _ => none

/-- A digit is worth its value. -/
theorem hexValue_hexDigit : ∀ value < 16, hexValue (hexDigit value) = value := by
  decide

/-- A character that is escaped is the one that is read. -/
theorem unescape_escape (c : Char) (rest : List Char) :
    unescape (escape c ++ rest) = some (c, rest) := by
  -- The letters, the values and what else is escaped are told apart by what is behind the backslash.
  unfold escape
  cases short : shortEscapes.find? fun entry => entry.2 = c with
  | some entry =>
    obtain ⟨letter, own⟩ := entry
    have member := List.mem_of_find?_eq_some short
    have same : own = c := by simpa using List.find?_some short
    subst same
    simp only [shortEscapes, List.mem_cons, Prod.mk.injEq, List.not_mem_nil, or_false] at member
    rcases member with ⟨rfl, rfl⟩ | ⟨rfl, rfl⟩ | ⟨rfl, rfl⟩ | ⟨rfl, rfl⟩ | ⟨rfl, rfl⟩ | ⟨rfl, rfl⟩ |
      ⟨rfl, rfl⟩
    all_goals rfl
  | none =>
    simp only
    split
    · rename_i control
      have high := hexValue_hexDigit (c.toNat / 16) (by omega)
      have low := hexValue_hexDigit (c.toNat % 16) (by omega)
      have back : 16 * (c.toNat / 16) + c.toNat % 16 = c.toNat := by omega
      have unknown : (shortEscapes.find? fun entry => entry.1 = 'u') = none := by decide
      simp only [List.cons_append, List.nil_append, unescape, ne_eq, not_true_eq_false, if_false,
        unknown, high, low, back, Char.ofNat_toNat]
    · have plain : c ≠ '\\' := by
        rintro rfl
        cases short
      simp only [List.singleton_append, unescape, plain, ne_eq, not_false_eq_true, if_true]

/-- No character begins with a quote inside of quotes. -/
theorem escape_ne_quote (c : Char) (rest others : List Char) : escape c ++ rest ≠ '"' :: others := by
  intro same
  have read := unescape_escape c rest
  have direct : unescape ('"' :: others) = some ('"', others) := rfl
  rw [same, direct, Option.some.injEq, Prod.mk.injEq] at read
  -- What would be read is the quote, which is escaped.
  rw [← read.1] at same
  cases same

/-- A text in quotes ends where its last quote is. -/
theorem flatMap_escape_inj {text other rest behind : List Char}
    (same : text.flatMap escape ++ '"' :: rest = other.flatMap escape ++ '"' :: behind) :
    text = other ∧ rest = behind := by
  induction text generalizing other with
  | nil =>
    cases other with
    | nil => exact ⟨rfl, (List.cons.inj same).2⟩
    | cons d other =>
      rw [List.flatMap_cons, List.append_assoc] at same
      exact absurd same.symm (escape_ne_quote d _ _)
  | cons c text ih =>
    cases other with
    | nil =>
      rw [List.flatMap_cons, List.append_assoc] at same
      exact absurd same (escape_ne_quote c _ _)
    | cons d other =>
      -- The first characters are read alike.
      have read := congrArg unescape same
      rw [List.flatMap_cons, List.flatMap_cons, List.append_assoc, List.append_assoc,
        unescape_escape, unescape_escape, Option.some.injEq, Prod.mk.injEq] at read
      obtain ⟨rfl, later⟩ := read
      obtain ⟨rfl, behind⟩ := ih later
      exact ⟨rfl, behind⟩

/-- Texts in quotes are the same if they look the same, whatever is behind them. -/
theorem quoted_append_inj {text other rest behind : List Char}
    (same : quoted text ++ rest = quoted other ++ behind) : text = other ∧ rest = behind := by
  simp only [quoted, List.cons_append, List.append_assoc, List.cons.injEq, true_and,
    List.nil_append] at same
  exact flatMap_escape_inj same

end Text
