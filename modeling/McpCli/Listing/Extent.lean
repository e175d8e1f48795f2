import Mathlib.Order.Bounds.Basic
import Mathlib.Order.MinMax
import McpCli.Listing.Tally

/-! How many values there are, with the least and the greatest of them, in one pass. -/

namespace Listing

variable {α : Type} [LinearOrder α]

/-- Count one more value, which may be less than all the others or greater. -/
def widen (old : Option (Nat × α × α)) (value : α) : Nat × α × α :=
  let (count, least, greatest) := old.getD (0, value, value)
  (count + 1, min least value, max greatest value)

/-- The number of values, and the least and the greatest of them. -/
structure Extent (values : List α) (extent : Nat × α × α) : Prop where
  count : extent.1 = values.length
  least : IsLeast { value | value ∈ values } extent.2.1
  greatest : IsGreatest { value | value ∈ values } extent.2.2

/-- A single value is the least and the greatest. -/
theorem extent_singleton (value : α) : Extent [value] (widen none value) := by
  -- Nothing but the value itself has to be compared with.
  refine ⟨rfl, ⟨?_, ?_⟩, ⟨?_, ?_⟩⟩
  · simp [widen]
  · rintro other member
    simp [widen, List.mem_singleton.mp member]
  · simp [widen]
  · rintro other member
    simp [widen, List.mem_singleton.mp member]

/-- One more value moves the ends if it is outside of them. -/
theorem Extent.widen {values : List α} {extent : Nat × α × α} (extends_ : Extent values extent)
    (value : α) : Extent (values ++ [value]) (widen (some extent) value) := by
  obtain ⟨count, ⟨low, below⟩, ⟨high, above⟩⟩ := extends_
  refine ⟨?_, ⟨?_, ?_⟩, ⟨?_, ?_⟩⟩
  · simp [Listing.widen, count]
  · -- The least of two is one of them.
    rcases min_choice extent.2.1 value with same | same
    · simpa [Listing.widen, same] using .inl low
    · simp [Listing.widen, same]
  · rintro other member
    rcases List.mem_append.mp member with old | new
    · exact (min_le_left _ _).trans (below old)
    · rw [List.mem_singleton.mp new]
      exact min_le_right _ _
  · rcases max_choice extent.2.2 value with same | same
    · simpa [Listing.widen, same] using .inl high
    · simp [Listing.widen, same]
  · rintro other member
    rcases List.mem_append.mp member with old | new
    · exact (above old).trans (le_max_left _ _)
    · rw [List.mem_singleton.mp new]
      exact le_max_right _ _

/-- One value after the other moves the ends to where they belong. -/
theorem Extent.foldl {values : List α} {extent : Nat × α × α} (extends_ : Extent values extent)
    (more : List α) :
    ∃ whole, more.foldl (fun old value => some (Listing.widen old value)) (some extent) =
        some whole ∧
      Extent (values ++ more) whole := by
  induction more generalizing values extent with
  | nil => exact ⟨extent, rfl, by simpa using extends_⟩
  | cons value rest ih =>
    obtain ⟨whole, folded, ends⟩ := ih (extends_.widen value)
    refine ⟨whole, folded, ?_⟩
    rwa [List.append_assoc, List.singleton_append] at ends

/-- The pass finds the extent of the values, if there are any. -/
theorem foldl_widen {values : List α} {extent : Nat × α × α}
    (folded : values.foldl (fun old value => some (widen old value)) none = some extent) :
    values ≠ [] ∧ Extent values extent := by
  -- The first value is both ends, and the others move them.
  cases values with
  | nil => cases folded
  | cons value rest =>
    obtain ⟨whole, same, ends⟩ := (extent_singleton value).foldl rest
    rw [List.foldl_cons, same] at folded
    cases folded
    exact ⟨List.cons_ne_nil value rest, ends⟩

/-- What is begun with any element goes on to be there. -/
theorem isSome_foldl {ε ν : Type} {add : Option ν → ε → ν} {all : List ε} {old : Option ν} :
    (all.foldl (fun old element => some (add old element)) old).isSome ↔
      all ≠ [] ∨ old.isSome := by
  induction all generalizing old with
  | nil => simp
  | cons element rest ih =>
    rw [List.foldl_cons, ih]
    simp

/-- There is a group for each key of an element, and for no other. -/
theorem mem_group_key {ε κ ν : Type} [LinearOrder κ] {keyOf : ε → κ} {add : Option ν → ε → ν}
    {all : List ε} {key : κ} :
    (∃ value, (key, value) ∈ group keyOf add all) ↔ ∃ element ∈ all, keyOf element = key := by
  have found :
      (valueAt key (group keyOf add all)).isSome ↔ ∃ element ∈ all, keyOf element = key := by
    -- A group is found if there is anything to be folded into it.
    rw [valueAt_group, isSome_foldl, Option.isSome_none, or_iff_left Bool.false_ne_true, Ne,
      List.filter_eq_nil_iff]
    simp
  rw [← found, Option.isSome_iff_exists]
  simp only [valueAt_eq_some (group_sorted all)]

/-- If each element makes its group greater by one, all groups together count the elements. -/
theorem sum_group {ε κ ν : Type} [LinearOrder κ] {keyOf : ε → κ} {add : Option ν → ε → ν}
    {size : ν → Nat} (first : ∀ element, size (add none element) = 1)
    (more : ∀ old element, size (add (some old) element) = size old + 1) (all : List ε) :
    ((group keyOf add all).map fun entry => size entry.2).sum = all.length := by
  -- The groups before are arbitrary, as they are in the middle of the list.
  suffices grown : ∀ groups : List (κ × ν),
      ((all.foldl (fun map element => upsert (keyOf element) (fun old => add old element) map)
        groups).map fun entry => size entry.2).sum =
          (groups.map fun entry => size entry.2).sum + all.length by
    have whole := grown []
    rwa [List.map_nil, List.sum_nil, Nat.zero_add] at whole
  induction all with
  | nil => exact fun groups => rfl
  | cons element rest ih =>
    intro groups
    rw [List.foldl_cons, ih, List.length_cons,
      sum_upsert (first element) (fun old => more old element), Nat.add_assoc, Nat.add_comm 1]

end Listing
