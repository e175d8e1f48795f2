import Mathlib.Data.List.Nodup
import Mathlib.Data.List.Count

/-! The first elements of a list that a test picks. -/

namespace Listing

variable {α κ : Type} {key : α → κ}

/-- An element comes before a test has picked so many. -/
def Awaited (picked : α → Bool) (count : Nat) (all : List α) (element : α) : Prop :=
  ∃ front rest, all = front ++ element :: rest ∧ front.countP picked < count

/-- An awaited element is one of the list. -/
theorem Awaited.mem {picked : α → Bool} {count : Nat} {all : List α} {element : α}
    (awaited : Awaited picked count all element) : element ∈ all := by
  obtain ⟨front, rest, rfl, _⟩ := awaited
  exact List.mem_append_right front List.mem_cons_self

/-- An element is awaited only if something is asked for. -/
theorem Awaited.pos {picked : α → Bool} {count : Nat} {all : List α} {element : α}
    (awaited : Awaited picked count all element) : 0 < count := by
  obtain ⟨front, rest, _, few⟩ := awaited
  exact Nat.zero_lt_of_lt few

/-- The first element is counted by itself. -/
theorem countP_first (picked : α → Bool) (first : α) (rest : List α) :
    (first :: rest).countP picked = [first].countP picked + rest.countP picked := by
  rw [← List.countP_append, List.singleton_append]

/-- The first element is awaited if any is, and the others after it. -/
theorem awaited_cons {picked : α → Bool} {count : Nat} {first element : α} {rest : List α} :
    Awaited picked count (first :: rest) element ↔
      0 < count ∧ (element = first ∨
        Awaited picked (count - [first].countP picked) rest element) := by
  constructor
  · rintro ⟨front, more, same, few⟩
    refine ⟨Nat.zero_lt_of_lt few, ?_⟩
    -- The element is the first one if nothing is in front of it.
    cases front with
    | nil => exact .inl (List.cons.inj same).1.symm
    | cons other front =>
      obtain ⟨rfl, rfl⟩ := List.cons.inj same
      refine .inr ⟨front, more, rfl, ?_⟩
      -- The first element counts among those that are picked in front.
      rw [countP_first] at few
      omega
  · rintro ⟨positive, rfl | ⟨front, more, rfl, few⟩⟩
    · exact ⟨[], rest, rfl, positive⟩
    · refine ⟨first :: front, more, rfl, ?_⟩
      rw [countP_first]
      omega

/-- If two tests disagree on the first element, they pick different ones. -/
theorem take_filter_ne {first : α} {rest : List α} (fresh : key first ∉ rest.map key)
    (picked other : α → Bool) {count : Nat} :
    key first :: ((rest.filter picked).take count).map key ≠
      ((rest.filter other).take (count + 1)).map key := by
  intro same
  -- The first element would have to be picked again from the others.
  have mem : key first ∈ ((rest.filter other).take (count + 1)).map key := by
    rw [← same]
    exact List.mem_cons_self
  obtain ⟨element, within, called⟩ := List.mem_map.mp mem
  exact fresh (List.mem_map.mpr
    ⟨element, List.mem_of_mem_filter (List.mem_of_mem_take within), called⟩)

/-- Two tests pick the same first elements exactly if they agree on those that are awaited. -/
theorem take_filter_eq_iff {all : List α} (distinct : (all.map key).Nodup)
    (picked other : α → Bool) (count : Nat) :
    ((all.filter picked).take count).map key = ((all.filter other).take count).map key ↔
      ∀ element, Awaited other count all element → picked element = other element := by
  -- The induction goes on with as many as are still asked for after the first element.
  induction all generalizing count with
  | nil =>
    exact ⟨fun _ element awaited => (by cases awaited.mem), fun _ => rfl⟩
  | cons first rest ih =>
    rw [List.map_cons, List.nodup_cons] at distinct
    obtain ⟨fresh, distinct⟩ := distinct
    cases count with
    | zero =>
      exact ⟨fun _ element awaited => absurd awaited.pos (Nat.lt_irrefl 0), fun _ => rfl⟩
    | succ count =>
      simp only [awaited_cons, Nat.zero_lt_succ, true_and, forall_eq_or_imp]
      -- Where the tests disagree on the first element, the lists differ at once.
      cases one : picked first <;> cases two : other first
      · simpa [one, two] using ih distinct (count + 1)
      · simpa [one, two] using (take_filter_ne fresh other picked).symm
      · simpa [one, two] using take_filter_ne fresh picked other
      · simpa [one, two] using ih distinct count

end Listing
