import McpCli.Toml.Data

/-! Tables that are changed only where they have to be, and that tell whether they were. -/

namespace Toml.Table

/-- A table after some writes, and whether one of them was not there before. -/
structure Updates (t : Table) (all : List Write) (after : Table) (changed : Bool) : Prop where
  look : after.look = Data.writes t.look all
  same : changed = false → after = t
  there : changed = false →
    ∀ path value, (path, some value) ∈ all → t.look path = some (.leaf value)
  fresh : changed = true →
    ∃ path value, (path, some value) ∈ all ∧ t.look path ≠ some (.leaf value)

variable {t middle after entries : Table} {all others : List Write} {changed more : Bool}
  {key : String} {value : Leaf} {form : Form}

/-- Without a write nothing changes. -/
theorem Updates.refl (t : Table) : Updates t [] t false :=
  ⟨rfl, fun _ => rfl, nofun, nofun⟩

/-- A value is inserted if it is not there yet. -/
theorem updates_insert (absent : t.look [key] ≠ some (.leaf value)) :
    Updates t [([key], some value)] (t.insert key (.leaf value)) true :=
  ⟨look_insert_leaf t key value, nofun, nofun,
    fun _ => ⟨[key], value, List.mem_singleton.mpr rfl, absent⟩⟩

/-- A value that is there already need not be inserted. -/
theorem updates_there (found : t.look [key] = some (.leaf value)) :
    Updates t [([key], some value)] t false := by
  refine ⟨(write_look found).symm, fun _ => rfl, fun _ path other member => ?_, nofun⟩
  cases List.mem_singleton.mp member
  exact found

/-- Updates follow each other. -/
theorem Updates.trans (first : Updates t all middle changed)
    (second : Updates middle others after more) :
    Updates t (all ++ others) after (changed || more) := by
  refine ⟨?_, fun unchanged => ?_, fun unchanged path value member => ?_, fun some_change => ?_⟩
  · rw [second.look, first.look, Data.writes, Data.writes, Data.writes, List.foldl_append]
  · obtain ⟨one, other⟩ := Bool.or_eq_false_iff.mp unchanged
    rw [second.same other, first.same one]
  · obtain ⟨one, other⟩ := Bool.or_eq_false_iff.mp unchanged
    rcases List.mem_append.mp member with old | new
    · exact first.there one path value old
    · rw [← first.same one]
      exact second.there other path value new
  · -- If the first update changes nothing, the second one starts from the same table.
    cases changed with
    | true =>
      obtain ⟨path, value, member, absent⟩ := first.fresh rfl
      exact ⟨path, value, List.mem_append_left _ member, absent⟩
    | false =>
      obtain ⟨path, value, member, absent⟩ := second.fresh some_change
      rw [first.same rfl] at absent
      exact ⟨path, value, List.mem_append_right _ member, absent⟩

/-- The writes in the table of a key, as they are seen from outside. -/
def behind (key : String) (all : List Write) : List Write :=
  ([key], none) :: all.map fun own => (key :: own.1, own.2)

/-- A write behind a key makes its table, or is one in its table. -/
theorem mem_behind_iff {own : Write} :
    own ∈ behind key all ↔ own = ([key], none) ∨ ∃ inner ∈ all, own = (key :: inner.1, inner.2) := by
  rw [behind, List.mem_cons, List.mem_map]
  simp only [eq_comm]

/-- A value that is written behind a key is written in its table. -/
theorem mem_behind {path : List String} :
    (path, some value) ∈ behind key all ↔
      ∃ rest, path = key :: rest ∧ (rest, some value) ∈ all := by
  rw [mem_behind_iff]
  -- The table that is made for the key is no value.
  constructor
  · rintro (first | ⟨⟨rest, own⟩, inside, same⟩)
    · cases first
    · cases same
      exact ⟨rest, rfl, inside⟩
  · rintro ⟨rest, rfl, inside⟩
    exact .inr ⟨(rest, some value), inside, rfl⟩

/-- No write behind a key is one for the table itself. -/
theorem behind_ne_nil (key : String) (all : List Write) : ∀ own ∈ behind key all, own.1 ≠ [] := by
  intro own member
  rcases mem_behind_iff.mp member with rfl | ⟨_, _, rfl⟩
  · exact List.cons_ne_nil _ _
  · exact List.cons_ne_nil _ _

/-- An update of the table of a key that writes some value is an update of the whole. -/
theorem Updates.within (entered : t.enter key = some (form, entries))
    (inside : Updates entries all after changed) (apart : ∀ own ∈ all, own.1 ≠ [])
    (some_value : ∃ path value, (path, some value) ∈ all) :
    Updates t (behind key all) (t.insert key (.table form after)) changed := by
  have lifted (path : List String) (value : Leaf) (member : (path, some value) ∈ all) :
      t.look (key :: path) = entries.look path :=
    (enter_look entered (apart _ member)).symm
  refine ⟨look_within entered inside.look, fun unchanged => ?_,
    fun unchanged path value member => ?_, fun some_change => ?_⟩
  · -- The table has an entry already, so it was there before.
    obtain ⟨path, value, member⟩ := some_value
    have found := inside.there unchanged path value member
    rw [inside.same unchanged]
    apply insert_enter entered
    rintro rfl
    cases path with
    | nil => exact apart _ member rfl
    | cons other path => cases found
  · obtain ⟨rest, rfl, own⟩ := mem_behind.mp member
    rw [lifted rest value own]
    exact inside.there unchanged rest value own
  · obtain ⟨path, value, member, absent⟩ := inside.fresh some_change
    refine ⟨key :: path, value, mem_behind.mpr ⟨path, rfl, member⟩, ?_⟩
    rw [lifted path value member]
    exact absent

/-- If no write takes back another one, there is a change exactly if it is told. -/
theorem Updates.changed_iff (updates : Updates t all after changed)
    (compatible : Data.Compatible all) : changed = true ↔ after.look ≠ t.look := by
  constructor
  · intro some_change
    obtain ⟨path, value, member, absent⟩ := updates.fresh some_change
    intro same
    -- The value that was not there would have been there.
    apply absent
    rw [← same, updates.look]
    exact (Data.wrote_writes compatible t.look).value path value member
  · intro differs
    cases changed with
    | true => rfl
    | false => exact absurd (congrArg Table.look (updates.same rfl)) differs

/-- If all values are there already, nothing is changed. -/
theorem Updates.idle (updates : Updates t all after changed)
    (found : ∀ path value, (path, some value) ∈ all → t.look path = some (.leaf value)) :
    changed = false ∧ after = t := by
  -- A change writes some value that was not there.
  cases changed with
  | false => exact ⟨rfl, updates.same rfl⟩
  | true =>
    obtain ⟨path, value, member, absent⟩ := updates.fresh rfl
    exact absurd (found path value member) absent

end Toml.Table
