import McpCli.Protocol.Json
import McpCli.Text.Quoted
import McpCli.Text.Words

/-! JSON values as texts without white space, and that a text belongs to one value only. -/

namespace McpCli

mutual

/-- A JSON value as a text. -/
def Json.write : Json → List Char
  | .null => "null".toList
  | .bool true => "true".toList
  | .bool false => "false".toList
  | .number text => text.toList
  | .string text => Text.quoted text.toList
  | .array [] => ['[', ']']
  | .array (item :: rest) => '[' :: item.write ++ Json.writeItems rest
  | .object [] => ['\x7b', '\x7d']
  | .object ((key, value) :: rest) =>
    '\x7b' :: Text.quoted key.toList ++ ':' :: value.write ++ Json.writeMembers rest

/-- The items behind the first one, and the end of the array. -/
def Json.writeItems : List Json → List Char
  | [] => [']']
  | item :: rest => ',' :: item.write ++ Json.writeItems rest

/-- The members behind the first one, and the end of the object. -/
def Json.writeMembers : List (String × Json) → List Char
  | [] => ['\x7d']
  | (key, value) :: rest =>
    ',' :: Text.quoted key.toList ++ ':' :: value.write ++ Json.writeMembers rest

end

/-- A character that can be part of a number. -/
def isNumeric (c : Char) : Bool := c.isDigit || c ∈ ['-', '+', '.', 'e', 'E']

mutual

/-- All numbers in the value look like numbers. -/
def Json.Formed : Json → Prop
  | .number text => (∃ c ∈ text.toList.head?, c.isDigit ∨ c = '-') ∧ ∀ c ∈ text.toList, isNumeric c
  | .array items => Json.FormedItems items
  | .object members => Json.FormedMembers members
  | _ => True

/-- And so do those in some items. -/
def Json.FormedItems : List Json → Prop
  | [] => True
  | item :: rest => item.Formed ∧ Json.FormedItems rest

/-- And those in some members. -/
def Json.FormedMembers : List (String × Json) → Prop
  | [] => True
  | (_, value) :: rest => value.Formed ∧ Json.FormedMembers rest

end

/-- No number goes on here. -/
def Ends (rest : List Char) : Prop := ∀ c ∈ rest.head?, isNumeric c = false

/-- The kinds of values, as they are told apart by the first character. -/
inductive JsonKind where
  | null
  | bool
  | number
  | string
  | array
  | object
  deriving DecidableEq

/-- The kind of a value. -/
def Json.kind : Json → JsonKind
  | .null => .null
  | .bool _ => .bool
  | .number _ => .number
  | .string _ => .string
  | .array _ => .array
  | .object _ => .object

/-- The kind of a value that begins with a character, if any does. -/
def leads (c : Char) : Option JsonKind :=
  if c.isDigit ∨ c = '-' then some .number
  else if c = 'n' then some .null
  else if c = 't' ∨ c = 'f' then some .bool
  else if c = '"' then some .string
  else if c = '[' then some .array
  else if c = '\x7b' then some .object
  else none

/-- The first character of a value tells its kind. -/
theorem Json.write_head {value : Json} (formed : value.Formed) :
    ∃ c rest, value.write = c :: rest ∧ leads c = some value.kind := by
  cases value with
  | null => exact ⟨_, _, rfl, show leads 'n' = some .null by decide⟩
  | bool value =>
    cases value with
    | true => exact ⟨_, _, rfl, show leads 't' = some .bool by decide⟩
    | false => exact ⟨_, _, rfl, show leads 'f' = some .bool by decide⟩
  | number text =>
    rw [Json.Formed] at formed
    obtain ⟨⟨c, first, digit⟩, _⟩ := formed
    rw [Json.write]
    cases chars : text.toList with
    | nil => rw [chars] at first; cases first
    | cons head rest =>
      rw [chars] at first
      cases first
      -- A number is known by a digit or a sign, which its text begins with.
      exact ⟨c, rest, rfl, if_pos digit⟩
  | string text =>
    rw [Json.write]
    exact ⟨_, _, rfl, show leads '"' = some .string by decide⟩
  | array items =>
    cases items with
    | nil => exact ⟨_, _, rfl, show leads '[' = some .array by decide⟩
    | cons item rest =>
      rw [Json.write]
      exact ⟨_, _, rfl, show leads '[' = some .array by decide⟩
  | object members =>
    cases members with
    | nil => exact ⟨_, _, rfl, show leads '\x7b' = some .object by decide⟩
    | cons member rest =>
      rw [Json.write]
      exact ⟨_, _, rfl, show leads '\x7b' = some .object by decide⟩

/-- No value begins with what ends an array. -/
theorem Json.write_ne_close {value : Json} (formed : value.Formed) (rest others : List Char) :
    value.write ++ rest ≠ ']' :: others := by
  intro same
  obtain ⟨c, more, text, kind⟩ := Json.write_head formed
  rw [text] at same
  obtain rfl : c = ']' := (List.cons.inj same).1
  cases kind

/-- What is behind an item is no number. -/
theorem ends_writeItems (items : List Json) (rest : List Char) :
    Ends (Json.writeItems items ++ rest) := by
  intro c first
  -- It is a bracket or a comma.
  cases items with
  | nil =>
    rw [Json.writeItems] at first
    cases first
    decide
  | cons item others =>
    rw [Json.writeItems] at first
    cases first
    decide

/-- Nor is what is behind a member. -/
theorem ends_writeMembers (members : List (String × Json)) (rest : List Char) :
    Ends (Json.writeMembers members ++ rest) := by
  intro c first
  -- It is a brace or a comma.
  cases members with
  | nil =>
    rw [Json.writeMembers] at first
    cases first
    decide
  | cons member others =>
    rw [Json.writeMembers] at first
    cases first
    decide

/-- A number goes up to where it ends. -/
theorem takeWhile_isNumeric {digits rest : List Char} (numeric : ∀ c ∈ digits, isNumeric c)
    (ends : Ends rest) : (digits ++ rest).takeWhile isNumeric = digits := by
  rw [List.takeWhile_append_of_pos numeric]
  cases rest with
  | nil => simp
  | cons c rest =>
    have stops : isNumeric c = false := ends c rfl
    simp [stops]

/-- Numbers that end are the same if they look the same. -/
theorem numeric_append_inj {digits others rest behind : List Char}
    (numeric : ∀ c ∈ digits, isNumeric c) (numeric' : ∀ c ∈ others, isNumeric c)
    (ends : Ends rest) (ends' : Ends behind) (same : digits ++ rest = others ++ behind) :
    digits = others ∧ rest = behind := by
  -- The longer one of them would go on where the shorter one ends.
  have first := takeWhile_isNumeric numeric ends
  rw [same, takeWhile_isNumeric numeric' ends'] at first
  subst first
  exact ⟨rfl, List.append_cancel_left same⟩

mutual

/-- Values are the same if they look the same, whatever is behind them that is no number. -/
theorem Json.write_append_inj {rest behind : List Char} (ends : Ends rest) (ends' : Ends behind) :
    ∀ {value other : Json}, value.Formed → other.Formed →
      value.write ++ rest = other.write ++ behind → value = other ∧ rest = behind
  | value, other, formed, formed', same => by
    -- The first characters are the same, so both are values of one kind.
    have kinds : value.kind = other.kind := by
      obtain ⟨c, more, text, kind⟩ := Json.write_head formed
      obtain ⟨d, more', text', kind'⟩ := Json.write_head formed'
      rw [text, text'] at same
      obtain rfl : c = d := (List.cons.inj same).1
      rw [kind] at kind'
      exact Option.some.inj kind'
    match value, other with
    | .null, .null => exact ⟨rfl, List.append_cancel_left same⟩
    | .bool true, .bool true => exact ⟨rfl, List.append_cancel_left same⟩
    | .bool false, .bool false => exact ⟨rfl, List.append_cancel_left same⟩
    | .bool true, .bool false => cases same
    | .bool false, .bool true => cases same
    | .number text, .number text' =>
      rw [Json.Formed] at formed formed'
      rw [Json.write, Json.write] at same
      obtain ⟨digits, behind⟩ := numeric_append_inj formed.2 formed'.2 ends ends' same
      exact ⟨congrArg Json.number (String.toList_inj.mp digits), behind⟩
    | .string text, .string text' =>
      rw [Json.write, Json.write] at same
      obtain ⟨chars, behind⟩ := Text.quoted_append_inj same
      exact ⟨congrArg Json.string (String.toList_inj.mp chars), behind⟩
    | .array [], .array [] => exact ⟨rfl, List.append_cancel_left same⟩
    | .array [], .array (item :: items) =>
      rw [Json.Formed, Json.FormedItems] at formed'
      simp only [Json.write, List.cons_append, List.append_assoc] at same
      exact absurd (List.cons.inj same).2.symm (Json.write_ne_close formed'.1 _ _)
    | .array (item :: items), .array [] =>
      rw [Json.Formed, Json.FormedItems] at formed
      simp only [Json.write, List.cons_append, List.append_assoc] at same
      exact absurd (List.cons.inj same).2 (Json.write_ne_close formed.1 _ _)
    | .array (item :: items), .array (item' :: items') =>
      rw [Json.Formed, Json.FormedItems] at formed formed'
      rw [Json.write, Json.write, List.cons_append, List.cons_append, List.append_assoc,
        List.append_assoc] at same
      obtain ⟨first, later⟩ := Json.write_append_inj (ends_writeItems items rest)
        (ends_writeItems items' behind) formed.1 formed'.1 (List.cons.inj same).2
      obtain ⟨others, behind⟩ := Json.writeItems_append_inj formed.2 formed'.2 later
      exact ⟨by rw [first, others], behind⟩
    | .object [], .object [] => exact ⟨rfl, List.append_cancel_left same⟩
    | .object [], .object ((key, value) :: members) =>
      rw [Json.write, Json.write] at same
      cases same
    | .object ((key, value) :: members), .object [] =>
      rw [Json.write, Json.write] at same
      cases same
    | .object ((key, value) :: members), .object ((key', value') :: members') =>
      rw [Json.Formed, Json.FormedMembers] at formed formed'
      simp only [Json.write, List.cons_append, List.append_assoc, List.cons.injEq,
        true_and] at same
      obtain ⟨keys, later⟩ := Text.quoted_append_inj same
      obtain ⟨first, later⟩ := Json.write_append_inj (ends_writeMembers members rest)
        (ends_writeMembers members' behind) formed.1 formed'.1 (List.cons.inj later).2
      obtain ⟨others, behind⟩ := Json.writeMembers_append_inj formed.2 formed'.2 later
      exact ⟨by rw [String.toList_inj.mp keys, first, others], behind⟩

/-- And so are the items behind the first one. -/
theorem Json.writeItems_append_inj {rest behind : List Char} :
    ∀ {items others : List Json}, Json.FormedItems items → Json.FormedItems others →
      Json.writeItems items ++ rest = Json.writeItems others ++ behind →
      items = others ∧ rest = behind
  | [], [], _, _, same => ⟨rfl, List.append_cancel_left same⟩
  | [], item :: items, _, _, same => by
    rw [Json.writeItems, Json.writeItems] at same
    cases same
  | item :: items, [], _, _, same => by
    rw [Json.writeItems, Json.writeItems] at same
    cases same
  | item :: items, item' :: items', formed, formed', same => by
    rw [Json.FormedItems] at formed formed'
    rw [Json.writeItems, Json.writeItems, List.cons_append, List.cons_append, List.append_assoc,
      List.append_assoc] at same
    -- An item ends where no number could go on, so that the first ones are told apart.
    obtain ⟨first, later⟩ := Json.write_append_inj (ends_writeItems items rest)
      (ends_writeItems items' behind) formed.1 formed'.1 (List.cons.inj same).2
    obtain ⟨others, behind⟩ := Json.writeItems_append_inj formed.2 formed'.2 later
    exact ⟨by rw [first, others], behind⟩

/-- And the members behind the first one. -/
theorem Json.writeMembers_append_inj {rest behind : List Char} :
    ∀ {members others : List (String × Json)}, Json.FormedMembers members →
      Json.FormedMembers others →
      Json.writeMembers members ++ rest = Json.writeMembers others ++ behind →
      members = others ∧ rest = behind
  | [], [], _, _, same => ⟨rfl, List.append_cancel_left same⟩
  | [], (key, value) :: members, _, _, same => by
    rw [Json.writeMembers, Json.writeMembers] at same
    cases same
  | (key, value) :: members, [], _, _, same => by
    rw [Json.writeMembers, Json.writeMembers] at same
    cases same
  | (key, value) :: members, (key', value') :: members', formed, formed', same => by
    rw [Json.FormedMembers] at formed formed'
    simp only [Json.writeMembers, List.cons_append, List.append_assoc, List.cons.injEq,
      true_and] at same
    -- A key ends with its quote, and its value where no number could go on.
    obtain ⟨keys, later⟩ := Text.quoted_append_inj same
    obtain ⟨first, later⟩ := Json.write_append_inj (ends_writeMembers members rest)
      (ends_writeMembers members' behind) formed.1 formed'.1 (List.cons.inj later).2
    obtain ⟨others, behind⟩ := Json.writeMembers_append_inj formed.2 formed'.2 later
    exact ⟨by rw [String.toList_inj.mp keys, first, others], behind⟩

end

/-- A text belongs to one value at most. -/
theorem Json.write_inj {value other : Json} (formed : value.Formed) (formed' : other.Formed)
    (same : value.write = other.write) : value = other := by
  have none_behind : Ends [] := fun c first => by cases first
  have joined : value.write ++ [] = other.write ++ [] := congrArg (· ++ []) same
  exact (Json.write_append_inj none_behind none_behind formed formed' joined).1

end McpCli
