import McpCli.Daemon.SearchCache

/-! What a cache holds for the version that it is asked under. -/

namespace McpCli.SearchCache

variable {Key Value : Type}

/-- Every entry has the property under the version of the cache. -/
def AllHave (cache : SearchCache Key Value) (holds : Nat → Key → Value → Prop) : Prop :=
  ∀ entry ∈ cache.entries, holds cache.version entry.1 entry.2

/-- Making room drops entries and adds none. -/
theorem makeRoom_suffix (capacity : Nat) (entries : List (Key × Value)) :
    makeRoom capacity entries <:+ entries := by
  induction entries with
  -- The oldest entries stand in front, and go first.
  | nil => exact List.suffix_refl []
  | cons entry rest ih =>
    unfold makeRoom
    split
    · exact ih.trans (List.suffix_cons entry rest)
    · exact List.suffix_refl _

/-- A property that follows from another one holds of the entries as well. -/
theorem AllHave.mono {cache : SearchCache Key Value} {strong weak : Nat → Key → Value → Prop}
    (all : cache.AllHave strong)
    (weaken : ∀ version key value, strong version key value → weak version key value) :
    cache.AllHave weak :=
  fun entry member => weaken _ _ _ (all entry member)

variable [DecidableEq Key]

/-- A lookup keeps the property, and what it finds was entered under the same version. -/
theorem AllHave.get {cache : SearchCache Key Value} {holds : Nat → Key → Value → Prop}
    (all : cache.AllHave holds) (version : Nat) (key : Key) :
    (cache.get version key).2.AllHave holds ∧
      ∀ value, (cache.get version key).1 = some value → holds version key value := by
  unfold SearchCache.get
  split
  · exact ⟨all, fun value found => by cases found⟩
  · split
    · -- A cache of another version is flushed.
      refine ⟨?_, fun value found => by cases found⟩
      intro entry member
      cases member
    · rename_i same
      have same : cache.version = version := by simpa using same
      cases found : cache.entries.find? fun entry => entry.1 = key with
      | none => exact ⟨all, fun value found => by cases found⟩
      | some entry =>
        have member := List.mem_of_find?_eq_some found
        have named : entry.1 = key := by simpa using List.find?_some found
        refine ⟨?_, ?_⟩
        · intro other within
          -- The entry that is found only moves to the end, as the one used last.
          rcases List.mem_append.mp within with within | within
          · exact all other (List.mem_of_mem_eraseP within)
          · rw [List.mem_singleton.mp within]
            exact all entry member
        · intro value taken
          cases taken
          have own := all entry member
          rw [same, named] at own
          exact own

/-- Entering a value that has the property keeps it. -/
theorem AllHave.insert {cache : SearchCache Key Value} {holds : Nat → Key → Value → Prop}
    (all : cache.AllHave holds) {version : Nat} {key : Key} {value : Value}
    (own : holds version key value) : (cache.insert version key value).AllHave holds := by
  unfold SearchCache.insert
  split
  · exact all
  · intro entry member
    rcases List.mem_append.mp member with old | fresh
    · -- An older entry is still there only if the version is the same.
      have old := List.mem_of_mem_eraseP ((makeRoom_suffix _ _).subset old)
      split at old
      · cases old
      · rename_i same
        have same : cache.version = version := by simpa using same
        have kept := all entry old
        rw [same] at kept
        exact kept
    · rw [List.mem_singleton.mp fresh]
      exact own

end McpCli.SearchCache
