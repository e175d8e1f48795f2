import Mathlib.Order.Basic

/-! Runs of places in a list whose items pass a test. -/

namespace Listing

variable {α : Type} {test : α → Bool} {items : List α}

/-- An item that passes the test stands at a place. -/
def PassesAt (test : α → Bool) (items : List α) (place : Nat) : Prop :=
  ∃ item, items[place]? = some item ∧ test item = true

/-- All items of a run pass the test, and it could go on at neither end. -/
structure MaximalRun (test : α → Bool) (items : List α) (first last : Nat) : Prop where
  ordered : first ≤ last
  passes : ∀ place, first ≤ place → place ≤ last → PassesAt test items place
  before : ∀ place, place + 1 = first → ¬ PassesAt test items place
  behind : ¬ PassesAt test items (last + 1)

/-- Items stand in their list. -/
theorem PassesAt.inside {place : Nat} (passes : PassesAt test items place) :
    place < items.length := by
  obtain ⟨item, there, _⟩ := passes
  exact (List.getElem?_eq_some_iff.mp there).1

/-- In the list, the test is asked about the item of the place. -/
theorem passesAt_iff {place : Nat} (inside : place < items.length) :
    PassesAt test items place ↔ test items[place] = true := by
  constructor
  · rintro ⟨item, there, passes⟩
    -- There is one item at the place, so the one that passes is that one.
    rw [List.getElem?_eq_getElem inside] at there
    cases there
    exact passes
  · intro passes
    exact ⟨items[place], List.getElem?_eq_getElem inside, passes⟩

namespace MaximalRun

variable {first last first' last' : Nat}

/-- A run lies in its list. -/
theorem inside (run : MaximalRun test items first last) : last < items.length :=
  (run.passes last run.ordered (Nat.le_refl last)).inside

/-- A run that begins in another one, or right behind it, begins where the other one does. -/
theorem first_le (run : MaximalRun test items first last)
    (other : MaximalRun test items first' last') (touches : first' ≤ last + 1) :
    first' ≤ first := by
  by_contra later
  rw [Nat.not_le] at later
  -- The place in front of it is one of the other run.
  refine other.before (first' - 1) (by omega) (run.passes _ ?_ ?_)
  · omega
  · omega

/-- A run that ends in another one, or right in front of it, ends where the other one does. -/
theorem last_le (run : MaximalRun test items first last)
    (other : MaximalRun test items first' last') (touches : first ≤ last' + 1) :
    last ≤ last' := by
  by_contra later
  rw [Nat.not_le] at later
  exact other.behind (run.passes _ touches later)

/-- Runs that have a place in common are the same. -/
theorem eq_of_common (run : MaximalRun test items first last)
    (other : MaximalRun test items first' last') (begins : first ≤ last') (begins' : first' ≤ last) :
    first = first' ∧ last = last' := by
  -- Each of them is touched by the other one at both ends.
  have le := run.first_le other (Nat.le_succ_of_le begins')
  have ge := other.first_le run (Nat.le_succ_of_le begins)
  have le' := run.last_le other (Nat.le_succ_of_le begins)
  have ge' := other.last_le run (Nat.le_succ_of_le begins')
  exact ⟨Nat.le_antisymm ge le, Nat.le_antisymm le' ge'⟩

/-- Of two runs, the one that begins first does not reach up to the other one. -/
theorem apart (run : MaximalRun test items first last)
    (other : MaximalRun test items first' last') (earlier : first < first') :
    last + 1 < first' := by
  by_contra touches
  have same := run.first_le other (Nat.le_of_not_lt touches)
  omega

end MaximalRun

/-- Back from an item that passes, there is a first one of those that do. -/
theorem exists_first {place : Nat} (passes : PassesAt test items place) :
    ∃ first, first ≤ place ∧
      (∀ other, first ≤ other → other ≤ place → PassesAt test items other) ∧
      ∀ other, other + 1 = first → ¬ PassesAt test items other := by
  induction place with
  | zero =>
    refine ⟨0, Nat.le_refl 0, fun other _ small => ?_, fun other none_ => by omega⟩
    rw [Nat.le_zero.mp small]
    exact passes
  | succ place ih =>
    -- Either the items that pass go on in front of the place, or they begin with it.
    by_cases earlier : PassesAt test items place
    · obtain ⟨first, small, all, ends⟩ := ih earlier
      refine ⟨first, Nat.le_succ_of_le small, fun other after upto => ?_, ends⟩
      rcases Nat.le_succ_iff.mp upto with inside | rfl
      · exact all other after inside
      · exact passes
    · refine ⟨place + 1, Nat.le_refl _, fun other after upto => ?_, fun other same => ?_⟩
      · rw [Nat.le_antisymm upto after]
        exact passes
      · rw [Nat.succ.inj same]
        exact earlier

/-- And on from it, there is a last one. -/
theorem exists_last {place : Nat} (passes : PassesAt test items place) :
    ∃ last, place ≤ last ∧
      (∀ other, place ≤ other → other ≤ last → PassesAt test items other) ∧
      ¬ PassesAt test items (last + 1) := by
  -- What is left of the list gets shorter with each item that passes.
  induction left : items.length - place generalizing place with
  | zero =>
    have inside := passes.inside
    omega
  | succ left_ ih =>
    -- Either they go on behind the place, or they end with it.
    by_cases later : PassesAt test items (place + 1)
    · obtain ⟨last, large, all, ends⟩ := ih later (by omega)
      refine ⟨last, Nat.le_of_succ_le large, fun other after upto => ?_, ends⟩
      rcases Nat.eq_or_lt_of_le after with rfl | behind
      · exact passes
      · exact all other behind upto
    · refine ⟨place, Nat.le_refl _, fun other after upto => ?_, later⟩
      rw [Nat.le_antisymm upto after]
      exact passes

/-- Items in a row that pass the test are part of a run that is maximal. -/
theorem exists_maximalRun {first last : Nat} (ordered : first ≤ last)
    (passes : ∀ place, first ≤ place → place ≤ last → PassesAt test items place) :
    ∃ first' last', MaximalRun test items first' last' ∧ first' ≤ first ∧ last ≤ last' := by
  -- Each end is looked for from the item at that end.
  obtain ⟨first', early, front, before⟩ := exists_first (passes first (Nat.le_refl _) ordered)
  obtain ⟨last', late, back, behind⟩ := exists_last (passes last ordered (Nat.le_refl _))
  refine ⟨first', last', ⟨by omega, fun place after upto => ?_, before, behind⟩, early, late⟩
  -- A place is in front of the items, among them, or behind them.
  rcases Nat.le_total place first with inFront | among
  · exact front place after inFront
  · rcases Nat.le_total place last with among' | inBack
    · exact passes place among among'
    · exact back place inBack upto

end Listing
