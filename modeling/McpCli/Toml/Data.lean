import Mathlib.Data.List.Infix
import McpCli.Toml.Item

/-! What a document says, whatever the form of its tables, and tables that are changed in place. -/

namespace Toml

/-- What there is at the end of each path. -/
abbrev Data := List String → Option Node

/-- A value to be put at the end of a path, or a table that has to be there. -/
abbrev Write := List String × Option Leaf

namespace Data

/-- There is a value at the end of a path, and tables on the way to it. -/
def put (d : Data) (path : List String) (value : Leaf) : Data := fun p =>
  if path <+: p then if p = path then some (.leaf value) else none
  else if p <+: path then some .table else d p

/-- There are tables on the way to the end of a path, and at the end of it. -/
def make (d : Data) (path : List String) : Data := fun p =>
  if p <+: path then some .table else d p

/-- There is nothing at the end of a path or beyond it. -/
def drop (d : Data) (path : List String) : Data := fun p => if path <+: p then none else d p

/-- Put a value, or make a table. -/
def write (d : Data) : Write → Data
  | (path, some value) => d.put path value
  | (path, none) => d.make path

/-- One write after the other. -/
def writes (d : Data) (all : List Write) : Data := all.foldl write d

/-- What is there after some writes, none of which takes back what another one does. -/
structure Wrote (d : Data) (all : List Write) (after : Data) : Prop where
  value : ∀ path value, (path, some value) ∈ all → after path = some (.leaf value)
  beyond : ∀ path value p, (path, some value) ∈ all → path <+: p → p ≠ path → after p = none
  made : ∀ path, (path, none) ∈ all → after path = some .table
  before : ∀ path value p, (path, value) ∈ all → p <+: path → p ≠ path → after p = some .table
  elsewhere : ∀ p, (∀ path value, (path, some value) ∈ all → ¬ path <+: p) →
    (∀ path value, (path, value) ∈ all → ¬ p <+: path) → after p = d p

/-- No write is made beyond a value, and no other one where it is. -/
def Compatible (all : List Write) : Prop :=
  ∀ path value, (path, some value) ∈ all → ∀ other ∈ all, path <+: other.1 →
    other = (path, some value)

variable {d : Data} {path p : List String} {value : Leaf}

/-- Two paths that lead to each other are the same. -/
theorem prefix_antisymm {path other : List String} (along : path <+: other)
    (back : other <+: path) : path = other :=
  along.eq_of_length (le_antisymm along.length_le back.length_le)

/-- How a path lies to a write, and what is there after the write. -/
inductive Lies (d : Data) (last : Write) (p : List String) : Prop where
  | value {value : Leaf} (same : last = (p, some value))
      (there : d.write last p = some (.leaf value))
  | made (same : last = (p, none)) (there : d.write last p = some .table)
  | before (before : p <+: last.1) (apart : p ≠ last.1) (there : d.write last p = some .table)
  | beyond {path : List String} {value : Leaf} (same : last = (path, some value))
      (beyond : path <+: p) (apart : p ≠ path) (there : d.write last p = none)
  | elsewhere (before : ¬ p <+: last.1)
      (beyond : ∀ path value, last = (path, some value) → ¬ path <+: p)
      (there : d.write last p = d p)

/-- Every path lies to a write in one of these ways. -/
theorem lies (d : Data) (last : Write) (p : List String) : Lies d last p := by
  obtain ⟨path, value⟩ := last
  -- The path is that of the write, before it, beyond it or none of these.
  by_cases same : p = path
  · subst same
    cases value with
    | none => exact .made rfl (if_pos (List.prefix_refl p))
    | some value =>
      refine .value rfl ?_
      rw [write, put, if_pos (List.prefix_refl p), if_pos rfl]
  · by_cases before : p <+: path
    · refine .before before same ?_
      cases value with
      | none => exact if_pos before
      | some value =>
        have short : ¬ path <+: p := fun long => same (prefix_antisymm before long)
        rw [write, put, if_neg short, if_pos before]
    · cases value with
      | none => exact .elsewhere before nofun (if_neg before)
      | some value =>
        by_cases beyond : path <+: p
        · refine .beyond rfl beyond same ?_
          rw [write, put, if_pos beyond, if_neg same]
        · refine .elsewhere before ?_ ?_
          · rintro _ _ ⟨⟩
            exact beyond
          · rw [write, put, if_neg beyond, if_neg before]

/-- A member of a longer list that is not the last one is a member of the list. -/
theorem mem_of_ne {all : List Write} {last other : Write} (member : other ∈ all ++ [last])
    (apart : other ≠ last) : other ∈ all :=
  (List.mem_append.mp member).resolve_right fun mem => apart (List.mem_singleton.mp mem)

/-- One more write leaves what the others have left, and does what it does. -/
theorem Wrote.concat {all : List Write} {last : Write} {middle : Data}
    (earlier : Wrote d all middle) (compatible : Compatible (all ++ [last])) :
    Wrote d (all ++ [last]) (middle.write last) := by
  have last_ : last ∈ all ++ [last] := List.mem_append_right _ List.mem_cons_self
  -- Where the last write does nothing, the others are responsible.
  refine ⟨fun path value mem => ?_, fun path value p mem beyond apart => ?_, fun path mem => ?_,
    fun path value p mem before apart => ?_, fun p beyond before => ?_⟩
  · -- What was put is where it was, or the last write puts it there.
    cases lies middle last path with
    | value same there =>
      subst same
      cases compatible path _ last_ _ mem (List.prefix_refl path)
      exact there
    | made same there =>
      subst same
      cases compatible path value mem _ last_ (List.prefix_refl path)
    | before before apart there =>
      exact absurd (congrArg Prod.fst (compatible path value mem last last_ before)).symm apart
    | beyond same beyond apart there =>
      subst same
      exact absurd (congrArg Prod.fst (compatible _ _ last_ _ mem beyond)) apart
    | elsewhere before beyond there =>
      rw [there]
      refine earlier.value path value (mem_of_ne mem fun same => before ?_)
      rw [← same]
  · -- Nothing comes beyond a value, as no write is made there.
    cases lies middle last p with
    | value same there =>
      subst same
      exact absurd (congrArg Prod.fst (compatible path value mem _ last_ beyond)) apart
    | made same there =>
      subst same
      cases compatible path value mem _ last_ beyond
    | before before _ there =>
      have own := compatible path value mem last last_ (beyond.trans before)
      rw [own] at before
      exact absurd (prefix_antisymm before beyond) apart
    | beyond same _ _ there => exact there
    | elsewhere _ away there =>
      rw [there]
      refine earlier.beyond path value p (mem_of_ne mem fun same => ?_) beyond apart
      exact away path value same.symm beyond
  · -- A table that was made is still one, as no value is put in its place.
    cases lies middle last path with
    | value same there =>
      subst same
      cases compatible path _ last_ _ mem (List.prefix_refl path)
    | made same there => exact there
    | before before apart there => exact there
    | beyond same beyond apart there =>
      subst same
      cases compatible _ _ last_ _ mem beyond
    | elsewhere before beyond there =>
      rw [there]
      refine earlier.made path (mem_of_ne mem fun same => before ?_)
      rw [← same]
  · -- What leads to a write leads to it still.
    cases lies middle last p with
    | value same there =>
      subst same
      exact absurd (congrArg Prod.fst (compatible p _ last_ _ mem before)).symm apart
    | made same there => exact there
    | before before apart there => exact there
    | beyond same beyond _ there =>
      subst same
      cases compatible _ _ last_ _ mem (beyond.trans before)
      exact absurd (prefix_antisymm before beyond) apart
    | elsewhere away _ there =>
      rw [there]
      refine earlier.before path value p (mem_of_ne mem fun same => away ?_) before apart
      rw [← same]
      exact before
  · -- What no write has touched, the last one has not touched either.
    cases lies middle last p with
    | value same there =>
      subst same
      exact absurd (List.prefix_refl p) (before _ _ last_)
    | made same there =>
      subst same
      exact absurd (List.prefix_refl p) (before _ _ last_)
    | before long apart there => exact absurd long (before _ _ last_)
    | beyond same long apart there =>
      subst same
      exact absurd long (beyond _ _ last_)
    | elsewhere _ _ there =>
      rw [there]
      exact earlier.elsewhere p
        (fun path value mem => beyond path value (List.mem_append_left _ mem))
        (fun path value mem => before path value (List.mem_append_left _ mem))

/-- Writes that do not take each other back leave what each of them leaves. -/
theorem wrote_writes {all : List Write} (compatible : Compatible all) (d : Data) :
    Wrote d all (d.writes all) := by
  -- The last write is added to what the others have left.
  induction all using List.reverseRecOn with
  | nil => exact ⟨nofun, nofun, nofun, nofun, fun p _ _ => rfl⟩
  | append_singleton all last ih =>
    have earlier := ih fun path value mem other member =>
      compatible path value (List.mem_append_left _ mem) other (List.mem_append_left _ member)
    have same : d.writes (all ++ [last]) = (d.writes all).write last := by
      rw [writes, List.foldl_append]
      rfl
    rw [same]
    exact earlier.concat compatible

variable {key other : String} {e : Data}

/-- A write behind a key does behind the key what it does alone. -/
theorem write_cons_self (same : ∀ p, d (key :: p) = e p) (own : Write) (p : List String) :
    d.write (key :: own.1, own.2) (key :: p) = e.write own p := by
  obtain ⟨path, value⟩ := own
  -- All paths that are compared begin with the key.
  cases value with
  | none =>
    simp only [write, make, List.prefix_cons_inj]
    rw [same]
  | some value =>
    simp only [write, put, List.prefix_cons_inj, List.cons.injEq, true_and]
    rw [same]

/-- A write behind a key does nothing behind another one. -/
theorem write_cons_ne (apart : other ≠ key) (d : Data) (own : Write) (p : List String) :
    d.write (key :: own.1, own.2) (other :: p) = d (other :: p) := by
  obtain ⟨path, value⟩ := own
  have before : ¬ other :: p <+: key :: path := fun long => apart (List.cons_prefix_cons.mp long).1
  have beyond : ¬ key :: path <+: other :: p :=
    fun long => apart (List.cons_prefix_cons.mp long).1.symm
  -- Neither of the two paths begins with the other one.
  cases value with
  | none => exact if_neg before
  | some value => rw [write, put, if_neg beyond, if_neg before]

/-- A write behind a key leaves a table where it is. -/
theorem write_cons_nil (d : Data) (own : Write) :
    d.write (key :: own.1, own.2) [] = some .table := by
  obtain ⟨path, value⟩ := own
  have short : ¬ key :: path <+: [] := by simp
  cases value with
  | none => rw [write, make, if_pos List.nil_prefix]
  | some value => rw [write, put, if_neg short, if_pos List.nil_prefix]

/-- Writes behind a key do behind the key what they do alone, and nothing else. -/
theorem writes_cons (all : List Write) (d e : Data) (same : ∀ p, d (key :: p) = e p)
    (table : d [] = some .table) :
    d.writes (all.map fun own => (key :: own.1, own.2)) [] = some .table ∧
      (∀ p, d.writes (all.map fun own => (key :: own.1, own.2)) (key :: p) = e.writes all p) ∧
      ∀ other p, other ≠ key →
        d.writes (all.map fun own => (key :: own.1, own.2)) (other :: p) = d (other :: p) := by
  -- The first write changes what is behind the key, and the others go on from there.
  induction all generalizing d e with
  | nil => exact ⟨table, same, fun _ _ _ => rfl⟩
  | cons own all ih =>
    obtain ⟨top, inside, outside⟩ := ih (d.write (key :: own.1, own.2)) (e.write own)
      (write_cons_self same own) (write_cons_nil d own)
    refine ⟨top, inside, fun other p apart => ?_⟩
    exact (outside other p apart).trans (write_cons_ne apart d own p)

end Data

namespace Table

variable {t : Table} {key : String} {path : List String}

/-- What is beyond a value is nothing. -/
theorem look_beyond {value : Leaf} (found : t.look path = some (.leaf value)) {p : List String}
    (beyond : path <+: p) (apart : p ≠ path) : t.look p = none := by
  induction path generalizing t p with
  | nil => cases found
  | cons key path ih =>
    obtain ⟨more, rfl⟩ := beyond
    rw [look, find_cons] at found
    rw [List.cons_append, look, find_cons]
    cases first : t.get key with
    | none => rfl
    | some item =>
      rw [first, Option.bind_some] at found
      rw [Option.bind_some]
      cases item with
      | leaf own =>
        -- The value is the item itself, and nothing is beyond it.
        cases path with
        | nil =>
          cases more with
          | nil => exact absurd (List.append_nil _) apart
          | cons other more => rfl
        | cons other path => cases found
      | table form entries =>
        rw [look_table] at found ⊢
        refine ih found (List.prefix_append path more) fun same => apart ?_
        rw [List.cons_append, same]

/-- What is on the way to something is a table. -/
theorem look_before {node : Node} (found : t.look path = some node) {p : List String}
    (before : p <+: path) (apart : p ≠ path) : t.look p = some .table := by
  -- The way is followed key by key, and every item on it is a table.
  induction p generalizing t path with
  | nil => rfl
  | cons key p ih =>
    obtain ⟨more, rfl⟩ := before
    rw [List.cons_append, look, find_cons] at found
    rw [look, find_cons]
    cases first : t.get key with
    | none =>
      rw [first] at found
      cases found
    | some item =>
      rw [first, Option.bind_some] at found
      rw [Option.bind_some]
      cases item with
      | leaf own =>
        cases p with
        | nil =>
          cases more with
          | nil => exact absurd (List.append_nil _).symm apart
          | cons other more => cases found
        | cons other p => cases found
      | table form entries =>
        rw [look_table] at found ⊢
        refine ih found (List.prefix_append p more) fun same => apart ?_
        rw [List.cons_append, ← same]

/-- A value that is there may be put there. -/
theorem write_look {value : Leaf} (found : t.look path = some (.leaf value)) :
    Data.write t.look (path, some value) = t.look := by
  funext p
  -- Wherever a path lies to the value, the write leaves what it finds.
  cases Data.lies t.look (path, some value) p with
  | value same there =>
    cases same
    rw [there, found]
  | made same there => cases same
  | before before apart there => rw [there, look_before found before apart]
  | beyond same beyond apart there =>
    cases same
    rw [there, look_beyond found beyond apart]
  | elsewhere before beyond there => exact there

/-- The table of a key, an empty one if there is none, unless it is something else. -/
def enter (t : Table) (key : String) : Option (Form × Table) :=
  match t.get key with
  | none => some (.standard, [])
  | some item => item.asTable

/-- Change the table of a key in place, which is an empty one at first if there is none. -/
def within {β : Type} (t : Table) (key message : String)
    (change : Table → Except String (Table × β)) : Except String (Table × β) :=
  match t.enter key with
  | none => .error message
  | some (form, entries) =>
    match change entries with
    | .error e => .error e
    | .ok (entries, outcome) => .ok (t.insert key (.table form entries), outcome)

variable {form : Form} {entries changed : Table}

/-- A table that is not written as a value can be changed in place. -/
theorem asTable_table (changeable : form ≠ .inline) (entries : Table) :
    (Item.table form entries).asTable = some (form, entries) := by
  cases form with
  | standard => rfl
  | dotted => rfl
  | inline => exact absurd rfl changeable

/-- Nothing else can be. -/
theorem asTable_eq_some {item : Item} (asTable : item.asTable = some (form, entries)) :
    item = .table form entries ∧ form ≠ .inline := by
  -- Only tables with a head of their own or dotted keys count.
  cases item with
  | leaf value => cases asTable
  | table form entries =>
    cases form with
    | standard => cases asTable; exact ⟨rfl, nofun⟩
    | dotted => cases asTable; exact ⟨rfl, nofun⟩
    | inline => cases asTable

/-- The table of a key is a new one, or it is there and can be changed. -/
theorem enter_eq_some :
    t.enter key = some (form, entries) ↔
      t.get key = none ∧ form = .standard ∧ entries = [] ∨
        t.get key = some (.table form entries) ∧ form ≠ .inline := by
  rw [enter]
  -- A table is new only if the key has no item at all.
  cases found : t.get key with
  | none => simp [eq_comm]
  | some item =>
    simp only [reduceCtorEq, false_and, false_or, Option.some.injEq]
    exact ⟨asTable_eq_some, fun there => by rw [there.1, asTable_table there.2]⟩

/-- The table of another key is as it was. -/
theorem enter_insert_ne {other : String} (apart : other ≠ key) (t : Table) (item : Item) :
    (t.insert key item).enter other = t.enter other := by
  rw [enter, enter, get_insert_ne apart]

/-- A table that has been changed in place can be changed again. -/
theorem enter_insert_self (changeable : form ≠ .inline) (t : Table) (key : String)
    (entries : Table) :
    (t.insert key (.table form entries)).enter key = some (form, entries) :=
  enter_eq_some.mpr (.inr ⟨get_insert_self t key _, changeable⟩)

/-- What can be changed is not written as a value. -/
theorem enter_form (entered : t.enter key = some (form, entries)) : form ≠ .inline := by
  rcases enter_eq_some.mp entered with ⟨_, standard, _⟩ | ⟨_, changeable⟩
  · rw [standard]
    exact nofun
  · exact changeable

/-- Nothing changes if a table that has entries is put back as it is. -/
theorem insert_enter (entered : t.enter key = some (form, entries)) (some_ : entries ≠ []) :
    t.insert key (.table form entries) = t := by
  rcases enter_eq_some.mp entered with ⟨_, _, empty⟩ | ⟨found, _⟩
  · exact absurd empty some_
  · exact insert_get found

/-- A change of the table of a key leaves the changed table there. -/
theorem within_ok {β : Type} {message : String} {change : Table → Except String (Table × β)}
    {outcome : β} (entered : t.enter key = some (form, entries))
    (ok : change entries = .ok (changed, outcome)) :
    t.within key message change = .ok (t.insert key (.table form changed), outcome) := by
  rw [within, entered]
  simp only [ok]

/-- A change that has been made has entered the table of the key. -/
theorem within_eq_ok {β : Type} {message : String} {change : Table → Except String (Table × β)}
    {outcome : β} {after : Table} (ok : t.within key message change = .ok (after, outcome)) :
    ∃ form entries changed, t.enter key = some (form, entries) ∧
      change entries = .ok (changed, outcome) ∧ after = t.insert key (.table form changed) := by
  rw [within] at ok
  -- Neither what is no table nor a change that fails leads to a result.
  cases entered : t.enter key with
  | none =>
    rw [entered] at ok
    cases ok
  | some both =>
    obtain ⟨form, entries⟩ := both
    rw [entered] at ok
    simp only at ok
    cases made : change entries with
    | error e =>
      rw [made] at ok
      cases ok
    | ok result =>
      rw [made] at ok
      cases ok
      exact ⟨form, entries, result.1, rfl, made, rfl⟩

/-- What is in the table of a key is behind the key. -/
theorem enter_find (entered : t.enter key = some (form, entries)) (apart : path ≠ []) :
    t.find (key :: path) = entries.find path := by
  rw [find_cons]
  obtain ⟨other, rest, rfl⟩ := List.exists_cons_of_ne_nil apart
  -- Nothing is in an empty table.
  rcases enter_eq_some.mp entered with ⟨absent, _, empty⟩ | ⟨found, _⟩
  · rw [absent, empty]
    rfl
  · rw [found]
    rfl

/-- What is found in the table of a key is found behind the key. -/
theorem enter_look (entered : t.enter key = some (form, entries)) (apart : path ≠ []) :
    entries.look path = t.look (key :: path) := by
  rw [look, look, enter_find entered apart]

/-- What is written in a table before it is inserted is written behind its key. -/
theorem look_insert_writes {d e : Data} (top : e [] = some .table)
    (inside : ∀ p, p ≠ [] → d (key :: p) = e p)
    (outside : ∀ other p, other ≠ key → d (other :: p) = t.look (other :: p)) {all : List Write}
    (wrote : changed.look = e.writes all) :
    (t.insert key (.table form changed)).look =
      d.writes (([key], none) :: all.map fun own => (key :: own.1, own.2)) := by
  -- The table is made first, and then it is as it was.
  have same (p : List String) : d.write ([key], none) (key :: p) = e p := by
    cases p with
    | nil => exact (if_pos (List.prefix_refl [key])).trans top.symm
    | cons other p =>
      rw [← inside (other :: p) (List.cons_ne_nil other p)]
      exact if_neg (by simp)
  obtain ⟨first, within, rest⟩ := Data.writes_cons all (d.write ([key], none)) e same
    (Data.write_cons_nil d ([], none))
  funext p
  cases p with
  | nil => exact first.symm
  | cons other p =>
    by_cases own : other = key
    · subst own
      rw [look_insert_self, look_table, wrote]
      exact (within p).symm
    · rw [look_insert_ne own, ← outside other p own]
      exact ((rest other p own).trans (Data.write_cons_ne own d ([], none) p)).symm

/-- What is written in the table of a key is written behind the key. -/
theorem look_within (entered : t.enter key = some (form, entries)) {all : List Write}
    (wrote : changed.look = Data.writes entries.look all) :
    (t.insert key (.table form changed)).look =
      Data.writes t.look (([key], none) :: all.map fun own => (key :: own.1, own.2)) :=
  look_insert_writes rfl (fun _ apart => (enter_look entered apart).symm) (fun _ _ _ => rfl) wrote

/-- So it is if something was dropped in the table of the key before. -/
theorem look_within_drop (entered : t.enter key = some (form, entries)) (apart : path ≠ [])
    {all : List Write} (wrote : changed.look = (Data.drop entries.look path).writes all) :
    (t.insert key (.table form changed)).look =
      (Data.drop t.look (key :: path)).writes
        (([key], none) :: all.map fun own => (key :: own.1, own.2)) := by
  -- Behind the key the same is dropped as in its table.
  refine look_insert_writes ?_ (fun p some_ => ?_) (fun other p away => ?_) wrote
  · exact if_neg (by simpa using apart)
  · simp only [Data.drop, List.prefix_cons_inj]
    rw [enter_look entered some_]
  · exact if_neg fun long => away (List.cons_prefix_cons.mp long).1.symm

/-- What is written in a table that takes the place of an item is all that is behind the key. -/
theorem look_replaced {all : List Write} (wrote : changed.look = Data.writes (look []) all) :
    (t.insert key (.table form changed)).look =
      (Data.drop t.look [key]).writes
        (([key], none) :: all.map fun own => (key :: own.1, own.2)) := by
  refine look_insert_writes rfl (fun p some_ => ?_) (fun other p away => ?_) wrote
  · -- Nothing is found in an empty table.
    cases p with
    | nil => exact absurd rfl some_
    | cons other p => exact if_pos (by simp)
  · exact if_neg fun long => away (List.cons_prefix_cons.mp long).1.symm

/-- A value that is inserted is written. -/
theorem look_insert_leaf (t : Table) (key : String) (value : Leaf) :
    (t.insert key (.leaf value)).look = Data.write t.look ([key], some value) := by
  funext p
  cases p with
  | nil => exact (Data.write_cons_nil t.look ([], some value)).symm
  | cons other p =>
    -- Behind the key there is the value, and nothing beyond it.
    by_cases own : other = key
    · subst own
      rw [look_insert_self]
      cases p with
      | nil =>
        rw [Data.write, Data.put, if_pos (List.prefix_refl [other]), if_pos rfl]
        rfl
      | cons next p =>
        have beyond : [other] <+: other :: next :: p := List.prefix_append [other] (next :: p)
        rw [Data.write, Data.put, if_pos beyond, if_neg (by simp)]
        rfl
    · rw [look_insert_ne own]
      exact (Data.write_cons_ne own t.look ([], some value) p).symm

end Table

end Toml
