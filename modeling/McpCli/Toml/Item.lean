import Mathlib.Data.List.Basic

/-! Tables of TOML, nested in each other, and what is found in them along a path of keys. -/

namespace Toml

/-- A value that is no table. -/
inductive Leaf where
  | string (text : List Char)
  | boolean (value : Bool)
  /-- The items as they are written. -/
  | array (items : List String)
  /-- A number, a date, or whatever else there is, as it is written. -/
  | other (text : String)
  deriving DecidableEq, Repr

/-- How a table is written. -/
inductive Form where
  /-- Under a header of its own. -/
  | standard
  /-- By keys with dots in them. -/
  | dotted
  /-- Between braces, as a value. -/
  | inline
  deriving DecidableEq, Repr

/-- What a key stands for. -/
inductive Item where
  | leaf (value : Leaf)
  | table (form : Form) (entries : List (String × Item))
  deriving Repr

/-- The entries of a table, in their order. -/
abbrev Table := List (String × Item)

/-- What is found at the end of a path, the entries of a table apart. -/
inductive Node where
  | leaf (value : Leaf)
  | table
  deriving DecidableEq, Repr

/-- An item without the entries that it may have. -/
def Item.node : Item → Node
  | .leaf value => .leaf value
  | .table _ _ => .table

/-- The text of an item that is a string. -/
def Item.asStr : Item → Option (List Char)
  | .leaf (.string text) => some text
  | _ => none

/-- The value of an item that is a boolean. -/
def Item.asBool : Item → Option Bool
  | .leaf (.boolean value) => some value
  | _ => none

/-- The entries of an item that is a table, unless it is written as a value. -/
def Item.asTable : Item → Option (Form × Table)
  | .leaf _ | .table .inline _ => none
  | .table form entries => some (form, entries)

namespace Table

/-- The item of a key. -/
def get : Table → String → Option Item
  | [], _ => none
  | (other, item) :: rest, key => if other = key then some item else get rest key

/-- Whether there is such a key. -/
def containsKey (t : Table) (key : String) : Bool := (t.get key).isSome

/-- Give a key an item, in the place of its old one if it has one. -/
def insert : Table → String → Item → Table
  | [], key, item => [(key, item)]
  | (other, old) :: rest, key, item =>
    if other = key then (key, item) :: rest else (other, old) :: insert rest key item

/-- Take a key away. It is there once at most. -/
def remove (t : Table) (key : String) : Table := t.filter fun entry => entry.1 ≠ key

end Table

/-- What is found in an item along a path. -/
def Item.find : List String → Item → Option Item
  | [], item => some item
  | _ :: _, .leaf _ => none
  | key :: rest, .table _ entries => (Table.get entries key).bind (Item.find rest)

/-- What is found in a table along a path. -/
def Table.find (t : Table) (path : List String) : Option Item := Item.find path (.table .standard t)

/-- What there is in a table at the end of a path, in whatever form it is written. -/
def Table.look (t : Table) (path : List String) : Option Node := (t.find path).map Item.node

namespace Table

variable {t : Table} {key other : String} {item : Item}

@[simp] theorem get_nil (key : String) : get [] key = none := rfl

/-- A key has the item that it has been given. -/
@[simp] theorem get_insert_self (t : Table) (key : String) (item : Item) :
    (t.insert key item).get key = some item := by
  -- The key is looked for in one entry after the other, as it was when it was inserted.
  induction t with
  | nil => simp [insert, get]
  | cons entry rest ih =>
    rw [insert]
    split
    · rw [get, if_pos rfl]
    · rename_i apart
      rw [get, if_neg apart, ih]

/-- Other keys keep their items. -/
theorem get_insert_ne (apart : other ≠ key) (t : Table) (item : Item) :
    (t.insert key item).get other = t.get other := by
  -- What is inserted stands in the way of its own key only.
  induction t with
  | nil => exact if_neg apart.symm
  | cons entry rest ih =>
    rw [insert]
    split
    · rename_i same
      rw [get, if_neg apart.symm, get, if_neg (same.symm ▸ apart.symm)]
    · rw [get, get, ih]

/-- Nothing changes if a key is given the item that it has. -/
theorem insert_get (found : t.get key = some item) : t.insert key item = t := by
  -- The item is put where it was found, behind the entries of other keys.
  induction t with
  | nil => cases found
  | cons entry rest ih =>
    obtain ⟨name, old⟩ := entry
    rw [get] at found
    rw [insert]
    split
    · rename_i same
      rw [if_pos same, Option.some.injEq] at found
      rw [same, found]
    · rename_i apart
      rw [if_neg apart] at found
      rw [ih found]

/-- A key that has been taken away is not there. -/
@[simp] theorem get_remove_self (t : Table) (key : String) : (t.remove key).get key = none := by
  induction t with
  | nil => rfl
  | cons entry rest ih =>
    obtain ⟨name, old⟩ := entry
    rw [remove, List.filter_cons]
    split
    · -- Entries that stay have other keys.
      rename_i apart
      rw [get, if_neg (of_decide_eq_true apart)]
      exact ih
    · exact ih

/-- Other keys stay when one is taken away. -/
theorem get_remove_ne (apart : other ≠ key) (t : Table) : (t.remove key).get other = t.get other := by
  induction t with
  | nil => rfl
  | cons entry rest ih =>
    obtain ⟨name, old⟩ := entry
    rw [remove, List.filter_cons]
    split
    · rw [get, get]
      split
      · rfl
      · exact ih
    · -- An entry that goes has the key that is taken away.
      rename_i same
      have same : name = key := by simpa using same
      rw [get, if_neg (same ▸ apart.symm)]
      exact ih

/-- A table is empty if no key has an item. -/
theorem eq_nil_iff (t : Table) : t = [] ↔ ∀ key, t.get key = none := by
  constructor
  · rintro rfl key
    rfl
  · intro nothing
    cases t with
    | nil => rfl
    | cons entry rest =>
      -- The key of the first entry would have its item.
      have first := nothing entry.1
      rw [get, if_pos rfl] at first
      cases first

/-- Every table is one at the end of no path. -/
@[simp] theorem look_nil (t : Table) : t.look [] = some .table := rfl

/-- The first key of a path leads to an item, in which the path goes on. -/
theorem find_cons (t : Table) (key : String) (path : List String) :
    t.find (key :: path) = (t.get key).bind (Item.find path) := rfl

/-- What is found in a table that is an item is what is found in the table. -/
theorem look_table (form : Form) (entries : Table) (path : List String) :
    (Item.find path (.table form entries)).map Item.node = entries.look path := by
  cases path with
  | nil => rfl
  | cons key path => rfl

/-- A path that begins with a key that was given an item goes on in the item. -/
theorem look_insert_self (t : Table) (key : String) (item : Item) (path : List String) :
    (t.insert key item).look (key :: path) = (Item.find path item).map Item.node := by
  rw [look, find_cons, get_insert_self]
  rfl

/-- A path that begins with another key goes on as before. -/
theorem look_insert_ne (apart : other ≠ key) (t : Table) (item : Item) (path : List String) :
    (t.insert key item).look (other :: path) = t.look (other :: path) := by
  rw [look, find_cons, get_insert_ne apart]
  rfl

/-- A path that begins with a key that was taken away leads nowhere. -/
theorem look_remove_self (t : Table) (key : String) (path : List String) :
    (t.remove key).look (key :: path) = none := by
  rw [look, find_cons, get_remove_self]
  rfl

/-- A path that begins with another key leads to where it led before. -/
theorem look_remove_ne (apart : other ≠ key) (t : Table) (path : List String) :
    (t.remove key).look (other :: path) = t.look (other :: path) := by
  rw [look, find_cons, get_remove_ne apart]
  rfl

/-- A path goes on in what is found at the end of another one. -/
theorem find_append (path rest : List String) (item : Item) :
    Item.find (path ++ rest) item = (Item.find path item).bind (Item.find rest) := by
  -- The induction follows the first path, on which a value is an end.
  induction path generalizing item with
  | nil => rfl
  | cons key path ih =>
    cases item with
    | leaf value => rfl
    | table form entries =>
      rw [List.cons_append, Item.find, Item.find]
      cases get entries key with
      | none => rfl
      | some item => exact ih item

/-- What is found in a table at the end of a path is found beyond the path. -/
theorem look_append {path : List String} {form : Form} {entries : Table}
    (found : t.find path = some (.table form entries)) (rest : List String) :
    t.look (path ++ rest) = entries.look rest := by
  rw [look, find, find_append, ← find, found, Option.bind_some, look_table]

/-- What a key stands for, its entries apart. -/
theorem look_single (t : Table) (key : String) : t.look [key] = (t.get key).map Item.node := by
  rw [look, find_cons]
  cases t.get key with
  | none => rfl
  | some item => rfl

/-- A text is read where there is a string. -/
theorem asStr_iff {text : List Char} :
    (t.get key).bind Item.asStr = some text ↔ t.look [key] = some (.leaf (.string text)) := by
  rw [look_single]
  -- Of all items only a string is read as a text.
  cases t.get key with
  | none => simp
  | some item =>
    cases item with
    | leaf value => cases value <;> simp [Item.asStr, Item.node]
    | table form entries => simp [Item.asStr, Item.node]

/-- A value is read where there is a boolean. -/
theorem asBool_iff {value : Bool} :
    (t.get key).bind Item.asBool = some value ↔ t.look [key] = some (.leaf (.boolean value)) := by
  rw [look_single]
  -- Of all items only a boolean is read as one.
  cases t.get key with
  | none => simp
  | some item =>
    cases item with
    | leaf value => cases value <;> simp [Item.asBool, Item.node]
    | table form entries => simp [Item.asBool, Item.node]

end Table

end Toml
