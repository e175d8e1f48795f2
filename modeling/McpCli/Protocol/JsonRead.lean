import McpCli.Protocol.JsonText

/-! A reader of JSON values whose numbers are whole, and that it reads what is written. -/

namespace McpCli

open Text

/-- The text up to the closing quote, read with so many turns, and what is behind it. -/
def readQuoted : Nat → List Char → Option (List Char × List Char)
  | 0, _ => none
  | _ + 1, '"' :: rest => some ([], rest)
  | fuel + 1, text => do
    let (c, rest) ← unescape text
    let (chars, rest) ← readQuoted fuel rest
    some (c :: chars, rest)

/-- Whether a number is whole, written in its only way, and of 64 bits with or without a sign. -/
def isWhole (text : List Char) : Bool :=
  match text with
  | '-' :: digits => (parseUsize digits).any fun n => 0 < n && n ≤ 2 ^ 63 && decimal n = digits
  | digits => (parseUsize digits).any fun n => decimal n = digits

/-- The number that a text begins with, if it is whole. -/
def readNumber (text : List Char) : Option (Json × List Char) :=
  let digits := text.takeWhile isNumeric
  if isWhole digits then some (.number (String.ofList digits), text.drop digits.length) else none

/-- The word for `true` or `false` that a text begins with. -/
def readBool (text : List Char) : Option (Json × List Char) :=
  match Text.stripPrefix "true".toList text with
  | some rest => some (.bool true, rest)
  | none => (Text.stripPrefix "false".toList text).map fun rest => (.bool false, rest)

mutual

/-- The value that a text begins with, read with so many turns, and what is behind it. -/
def readValue : Nat → List Char → Option (Json × List Char)
  | 0, _ | _ + 1, [] => none
  | fuel + 1, c :: rest =>
    match leads c with
    | none => none
    | some .null => (Text.stripPrefix "null".toList (c :: rest)).map fun rest => (.null, rest)
    | some .bool => readBool (c :: rest)
    | some .number => readNumber (c :: rest)
    | some .string =>
      (readQuoted fuel rest).map fun (chars, rest) => (.string (String.ofList chars), rest)
    | some .array =>
      if rest.head? = some ']' then some (.array [], rest.tail)
      else do
        let (item, rest) ← readValue fuel rest
        let (items, rest) ← readItems fuel rest
        some (.array (item :: items), rest)
    | some .object =>
      if rest.head? = some '\x7d' then some (.object [], rest.tail)
      else do
        let (member, rest) ← readMember fuel rest
        let (members, rest) ← readMembers fuel rest
        some (.object (member :: members), rest)

/-- The items behind the first one, up to the end of the array. -/
def readItems : Nat → List Char → Option (List Json × List Char)
  | _ + 1, ']' :: rest => some ([], rest)
  | fuel + 1, ',' :: rest => do
    let (item, rest) ← readValue fuel rest
    let (items, rest) ← readItems fuel rest
    some (item :: items, rest)
  | _, _ => none

/-- A key and its value. -/
def readMember : Nat → List Char → Option ((String × Json) × List Char)
  | fuel + 1, '"' :: rest => do
    let (key, rest) ← readQuoted fuel rest
    match rest with
    | ':' :: rest => (readValue fuel rest).map fun (value, rest) =>
        ((String.ofList key, value), rest)
    | _ => none
  | _, _ => none

/-- The members behind the first one, up to the end of the object. -/
def readMembers : Nat → List Char → Option (List (String × Json) × List Char)
  | _ + 1, '\x7d' :: rest => some ([], rest)
  | fuel + 1, ',' :: rest => do
    let (member, rest) ← readMember fuel rest
    let (members, rest) ← readMembers fuel rest
    some (member :: members, rest)
  | _, _ => none

end

/-- The value that a whole text is. -/
def readJson (text : List Char) : Option Json :=
  match readValue (text.length + 1) text with
  | some (value, []) => some value
  | _ => none

mutual

/-- All numbers in the value are whole. -/
def Json.Whole : Json → Prop
  | .number text => (Json.number text).Formed ∧ isWhole text.toList = true
  | .array items => Json.WholeItems items
  | .object members => Json.WholeMembers members
  | _ => True

/-- And so are those in some items. -/
def Json.WholeItems : List Json → Prop
  | [] => True
  | item :: rest => item.Whole ∧ Json.WholeItems rest

/-- And those in some members. -/
def Json.WholeMembers : List (String × Json) → Prop
  | [] => True
  | (_, value) :: rest => value.Whole ∧ Json.WholeMembers rest

end

/-- A text in quotes is read up to its last quote. -/
theorem readQuoted_flatMap_escape {text : List Char} {fuel : Nat} (enough : text.length < fuel)
    (rest : List Char) :
    readQuoted fuel (text.flatMap escape ++ '"' :: rest) = some (text, rest) := by
  -- Each turn reads one character.
  induction text generalizing fuel with
  | nil =>
    obtain ⟨fuel, rfl⟩ := Nat.exists_eq_add_one.mpr enough
    rfl
  | cons c text ih =>
    obtain ⟨fuel, rfl⟩ := Nat.exists_eq_add_one_of_ne_zero (Nat.ne_zero_of_lt enough)
    have later := ih (Nat.lt_of_succ_lt_succ enough)
    rw [List.flatMap_cons, List.append_assoc]
    unfold readQuoted
    split
    · rename_i none_left
      cases none_left
    · rename_i closed
      exact absurd closed (escape_ne_quote c _ _)
    · rename_i same _
      cases same
      simp [unescape_escape, later]

mutual

/-- Whole numbers look like numbers. -/
theorem Json.Whole.formed : ∀ {value : Json}, value.Whole → value.Formed
  | .null, _ | .bool _, _ | .string _, _ => trivial
  | .number _, whole => whole.1
  | .array _, whole => Json.WholeItems.formed whole
  | .object _, whole => Json.WholeMembers.formed whole

/-- And so they do in some items. -/
theorem Json.WholeItems.formed :
    ∀ {items : List Json}, Json.WholeItems items → Json.FormedItems items
  | [], _ => trivial
  | _ :: _, whole => ⟨whole.1.formed, Json.WholeItems.formed whole.2⟩

/-- And in some members. -/
theorem Json.WholeMembers.formed :
    ∀ {members : List (String × Json)}, Json.WholeMembers members → Json.FormedMembers members
  | [], _ => trivial
  | (_, _) :: _, whole => ⟨whole.1.formed, Json.WholeMembers.formed whole.2⟩

end

/-- A whole number is read up to its end. -/
theorem readNumber_append {text rest : List Char} (numeric : ∀ c ∈ text, isNumeric c)
    (whole : isWhole text = true) (ends : Ends rest) :
    readNumber (text ++ rest) = some (.number (String.ofList text), rest) := by
  simp [readNumber, takeWhile_isNumeric numeric ends, whole]

/-- A character takes one character at least. -/
theorem length_quoted (text : List Char) : text.length + 2 ≤ (quoted text).length := by
  -- No character is escaped to nothing, or it could not be read back.
  have longer : text.length ≤ (text.flatMap escape).length := by
    induction text with
    | nil => exact Nat.le_refl 0
    | cons c text ih =>
      have some_ : escape c ≠ [] := by
        intro nothing
        have read := unescape_escape c []
        rw [nothing] at read
        cases read
      have first := List.length_pos_iff.mpr some_
      rw [List.flatMap_cons, List.length_append, List.length_cons]
      omega
  simp only [quoted, List.length_append, List.length_cons, List.length_nil]
  omega

/-- A text in quotes is read up to its last quote. -/
theorem readQuoted_quoted {text : List Char} {fuel : Nat} (enough : (quoted text).length ≤ fuel)
    (rest : List Char) : ∃ behind, quoted text ++ rest = '"' :: behind ∧
      readQuoted fuel behind = some (text, rest) := by
  have longer := length_quoted text
  refine ⟨text.flatMap escape ++ '"' :: rest, by simp [quoted], ?_⟩
  exact readQuoted_flatMap_escape (by omega) rest

mutual

/-- A value is read up to its end, if it is no number that goes on. -/
theorem readValue_write {rest : List Char} (ends : Ends rest) :
    ∀ {value : Json} {fuel : Nat}, value.Whole → value.write.length < fuel →
      readValue fuel (value.write ++ rest) = some (value, rest)
  | value, 0, _, enough => absurd enough (Nat.not_lt_zero _)
  | .null, _ + 1, _, _ => rfl
  | .bool true, _ + 1, _, _ => rfl
  | .bool false, _ + 1, _, _ => rfl
  | .number text, fuel + 1, whole, _ => by
    obtain ⟨c, more, chars, kind⟩ := Json.write_head whole.formed
    have number := readNumber_append whole.1.2 whole.2 ends
    rw [Json.write] at chars ⊢
    rw [chars, List.cons_append] at number ⊢
    -- The first character tells that it is a number, which is read as far as it goes.
    rw [readValue, kind]
    simp only [Json.kind]
    rw [number, ← chars, String.ofList_toList]
  | .string text, fuel + 1, _, enough => by
    rw [Json.write] at enough ⊢
    obtain ⟨behind, same, read⟩ := readQuoted_quoted (Nat.le_of_lt_succ enough) rest
    have quote : leads '"' = some .string := by decide
    rw [same, readValue, quote]
    simp [read]
  | .array [], _ + 1, _, _ => rfl
  | .array (item :: items), fuel + 1, whole, enough => by
    rw [Json.write, List.cons_append, List.length_cons, List.length_append] at enough
    have bracket : leads '[' = some .array := by decide
    rw [Json.write, List.cons_append, List.cons_append, List.append_assoc, readValue, bracket]
    simp only
    -- An array with items does not end at once.
    have open_ : (item.write ++ (Json.writeItems items ++ rest)).head? ≠ some ']' := by
      intro closed
      obtain ⟨behind, same⟩ := List.head?_eq_some_iff.mp closed
      exact Json.write_ne_close whole.1.formed _ _ same
    have first : readValue fuel (item.write ++ (Json.writeItems items ++ rest)) =
        some (item, Json.writeItems items ++ rest) :=
      readValue_write (ends_writeItems items rest) whole.1 (by omega)
    have others : readItems fuel (Json.writeItems items ++ rest) = some (items, rest) :=
      readItems_writeItems whole.2 (by omega)
    rw [if_neg open_, first]
    simp [others]
  | .object [], _ + 1, _, _ => rfl
  | .object ((key, value) :: members), fuel + 1, whole, enough => by
    simp only [Json.write, List.cons_append, List.length_cons, List.length_append] at enough
    have brace : leads '\x7b' = some .object := by decide
    -- There is fuel for every character that is left, so the members have enough of it.
    have first : readMember fuel (quoted key.toList ++ ':' :: value.write ++
        (Json.writeMembers members ++ rest)) =
        some ((key, value), Json.writeMembers members ++ rest) := by
      refine readMember_write (ends_writeMembers members rest) whole.1 ?_
      rw [List.length_append, List.length_cons]
      omega
    have others : readMembers fuel (Json.writeMembers members ++ rest) = some (members, rest) :=
      readMembers_writeMembers whole.2 (by omega)
    simp only [Json.write, List.cons_append, List.append_assoc] at first ⊢
    rw [readValue, brace]
    simp only
    rw [if_neg, first]
    · simp [others]
    · simp [quoted]

/-- So are the items behind the first one. -/
theorem readItems_writeItems {rest : List Char} :
    ∀ {items : List Json} {fuel : Nat}, Json.WholeItems items →
      (Json.writeItems items).length < fuel →
      readItems fuel (Json.writeItems items ++ rest) = some (items, rest)
  | _, 0, _, enough => absurd enough (Nat.not_lt_zero _)
  | [], _ + 1, _, _ => rfl
  | item :: items, fuel + 1, whole, enough => by
    simp only [Json.writeItems, List.length_cons, List.cons_append, List.length_append] at enough
    -- What is behind an item is a comma or the bracket, so no number goes on there.
    have first : readValue fuel (item.write ++ (Json.writeItems items ++ rest)) =
        some (item, Json.writeItems items ++ rest) :=
      readValue_write (ends_writeItems items rest) whole.1 (by omega)
    have others : readItems fuel (Json.writeItems items ++ rest) = some (items, rest) :=
      readItems_writeItems whole.2 (by omega)
    rw [Json.writeItems, List.cons_append, List.cons_append, List.append_assoc, readItems, first]
    simp [others]

/-- So is a key with its value. -/
theorem readMember_write {key : String} {rest : List Char} (ends : Ends rest) :
    ∀ {value : Json} {fuel : Nat}, value.Whole →
      (quoted key.toList ++ ':' :: value.write).length < fuel →
      readMember fuel (quoted key.toList ++ ':' :: value.write ++ rest) = some ((key, value), rest)
  | _, 0, _, enough => absurd enough (Nat.not_lt_zero _)
  | value, fuel + 1, whole, enough => by
    rw [List.length_append, List.length_cons] at enough
    have short : (quoted key.toList).length ≤ fuel := by omega
    obtain ⟨behind, same, read⟩ := readQuoted_quoted short (':' :: value.write ++ rest)
    have first : readValue fuel (value.write ++ rest) = some (value, rest) :=
      readValue_write ends whole (by omega)
    rw [List.append_assoc, same, readMember, read]
    simp [first]

/-- And the members behind the first one. -/
theorem readMembers_writeMembers {rest : List Char} :
    ∀ {members : List (String × Json)} {fuel : Nat}, Json.WholeMembers members →
      (Json.writeMembers members).length < fuel →
      readMembers fuel (Json.writeMembers members ++ rest) = some (members, rest)
  | _, 0, _, enough => absurd enough (Nat.not_lt_zero _)
  | [], _ + 1, _, _ => rfl
  | (key, value) :: members, fuel + 1, whole, enough => by
    simp only [Json.writeMembers, List.cons_append, List.length_cons, List.length_append] at enough
    -- A member is followed by a comma or the brace, as an item is by its bracket.
    have first : readMember fuel (quoted key.toList ++ ':' :: value.write ++
        (Json.writeMembers members ++ rest)) =
        some ((key, value), Json.writeMembers members ++ rest) := by
      refine readMember_write (ends_writeMembers members rest) whole.1 ?_
      rw [List.length_append, List.length_cons]
      omega
    have others : readMembers fuel (Json.writeMembers members ++ rest) = some (members, rest) :=
      readMembers_writeMembers whole.2 (by omega)
    simp only [Json.writeMembers, List.cons_append, List.append_assoc] at first ⊢
    rw [readMembers, first]
    simp [others]

end

/-- A value with whole numbers only is read from its text. -/
theorem readJson_write {value : Json} (whole : value.Whole) :
    readJson value.write = some value := by
  have none_behind : Ends [] := fun c first => by cases first
  have read := readValue_write none_behind whole (Nat.lt_succ_self _)
  rw [List.append_nil] at read
  rw [readJson, read]

/-- What is read is of the kind that its first character tells. -/
theorem leads_of_readValue {fuel : Nat} {c : Char} {rest behind : List Char} {value : Json}
    (read : readValue (fuel + 1) (c :: rest) = some (value, behind)) :
    leads c = some value.kind := by
  rw [readValue] at read
  split at read
  case h_1 => cases read
  case h_2 kind =>
    obtain ⟨_, _, same⟩ := Option.map_eq_some_iff.mp read
    cases same
    exact kind
  case h_3 kind =>
    unfold readBool at read
    split at read
    · cases read
      exact kind
    · obtain ⟨_, _, same⟩ := Option.map_eq_some_iff.mp read
      cases same
      exact kind
  case h_4 kind =>
    simp only [readNumber] at read
    split at read
    · cases read
      exact kind
    · cases read
  case h_5 kind =>
    obtain ⟨_, _, same⟩ := Option.map_eq_some_iff.mp read
    cases same
    exact kind
  case h_6 kind =>
    split at read
    · cases read
      exact kind
    · -- There is a first item, and then the others.
      obtain ⟨_, _, read⟩ := Option.bind_eq_some_iff.mp read
      obtain ⟨_, _, read⟩ := Option.bind_eq_some_iff.mp read
      cases read
      exact kind
  case h_7 kind =>
    split at read
    · cases read
      exact kind
    · obtain ⟨_, _, read⟩ := Option.bind_eq_some_iff.mp read
      obtain ⟨_, _, read⟩ := Option.bind_eq_some_iff.mp read
      cases read
      exact kind

/-- A number that is read is whole. -/
theorem isWhole_of_readJson {chars : List Char} {text : String}
    (read : readJson chars = some (.number text)) : isWhole text.toList = true := by
  unfold readJson at read
  -- What is read as a number has passed the test, whatever the first character was.
  split at read
  · rename_i value same
    cases read
    cases chars with
    | nil => cases same
    | cons c rest =>
      rw [readValue, leads_of_readValue same] at same
      simp only [Json.kind, readNumber] at same
      split at same
      · rename_i whole
        simp only [Option.some.injEq, Prod.mk.injEq, Json.number.injEq] at same
        rwa [← same.1, String.toList_ofList]
      · cases same
  · cases read

/-- Digits of a number of 64 bits are a whole number. -/
theorem isWhole_decimal {n : Nat} (fits : n < 2 ^ 64) : isWhole (decimal n) = true := by
  unfold isWhole
  split
  · rename_i digits same
    -- Digits have no sign in front of them.
    have digit := isDigit_of_mem_decimal (same ▸ List.mem_cons_self : '-' ∈ decimal n)
    cases digit
  · simp [parseUsize_decimal fits]

/-- So they are behind a sign, if the number is no larger than the smallest one of 64 bits. -/
theorem isWhole_negative {n : Nat} (above : 0 < n) (below : n ≤ 2 ^ 63) :
    isWhole ('-' :: decimal n) = true := by
  have fits : n < 2 ^ 64 := by omega
  have small : decide (n ≤ 2 ^ 63) = true := decide_eq_true below
  simp only [isWhole, parseUsize_decimal fits, Option.any_some, small, above, decide_true,
    Bool.and_self]

end McpCli
