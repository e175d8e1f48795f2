import Mathlib.Algebra.GroupWithZero.Nat
import Mathlib.Data.List.Basic

/-! A growing population of parties, each in a phase of its own, of which one moves at a time. -/

namespace Transition.Population

variable {Phase : Type*}

/-- After one party has moved, a phase found is its new one or another party's old one. -/
theorem moved {parties : List Phase} {i j : Nat} {next phase : Phase}
    (found : (parties.set i next)[j]? = some phase) :
    (j = i ∧ phase = next) ∨ (j ≠ i ∧ parties[j]? = some phase) := by
  -- Only the slot of the party that moved has changed.
  by_cases same : j = i
  · subst same
    obtain ⟨bound, _⟩ := List.getElem?_eq_some_iff.mp found
    rw [List.getElem?_set_self (by simpa using bound)] at found
    exact Or.inl ⟨rfl, (Option.some.inj found).symm⟩
  · rw [List.getElem?_set_ne (Ne.symm same)] at found
    exact Or.inr ⟨same, found⟩

/-- The party that moved is in its new phase. -/
theorem moved_self {parties : List Phase} {i : Nat} {old next : Phase}
    (here : parties[i]? = some old) : (parties.set i next)[i]? = some next := by
  -- The party was there before it moved.
  obtain ⟨bound, _⟩ := List.getElem?_eq_some_iff.mp here
  exact List.getElem?_set_self bound

/-- A party other than the one that moved is where it was. -/
theorem moved_other {parties : List Phase} {i j : Nat} {next phase : Phase}
    (there : parties[j]? = some phase) (apart : j ≠ i) :
    (parties.set i next)[j]? = some phase := by
  rw [List.getElem?_set_ne (Ne.symm apart)]
  exact there

/-- A phase that a party other than the one that moved was in is found as before. -/
theorem moved_mem {parties : List Phase} {i : Nat} {old phase : Phase}
    (here : parties[i]? = some old) (member : phase ∈ parties) (apart : phase ≠ old)
    (next : Phase) : phase ∈ parties.set i next := by
  obtain ⟨j, there⟩ := List.mem_iff_getElem?.mp member
  -- The party that moved was in a phase of its own.
  have elsewhere : j ≠ i := by
    rintro rfl
    rw [there] at here
    exact apart (Option.some.inj here)
  exact List.mem_of_getElem? (moved_other there elsewhere)

/-- After a party has joined, a phase found is its first one or an old one. -/
theorem joined {parties : List Phase} {j : Nat} {first phase : Phase}
    (found : (parties ++ [first])[j]? = some phase) :
    (j = parties.length ∧ phase = first) ∨ (j < parties.length ∧ parties[j]? = some phase) := by
  -- The newcomer stands behind all the others.
  by_cases old : j < parties.length
  · rw [List.getElem?_append_left old] at found
    exact Or.inr ⟨old, found⟩
  · rw [List.getElem?_append_right (by omega), List.getElem?_singleton] at found
    split at found
    · exact Or.inl ⟨by omega, (Option.some.inj found).symm⟩
    · cases found

/-- The parties from before are still where they were after one has joined. -/
theorem joined_old {parties : List Phase} {j : Nat} {first phase : Phase}
    (there : parties[j]? = some phase) : (parties ++ [first])[j]? = some phase := by
  obtain ⟨bound, _⟩ := List.getElem?_eq_some_iff.mp there
  rw [List.getElem?_append_left bound]
  exact there

/-- A move changes a count by what the old and the new phase count for. -/
theorem countP_moved {parties : List Phase} {i : Nat} {old : Phase} (counts : Phase → Bool)
    (here : parties[i]? = some old) (next : Phase) :
    (parties.set i next).countP counts + (if counts old then 1 else 0) =
      parties.countP counts + if counts next then 1 else 0 := by
  obtain ⟨bound, rfl⟩ := List.getElem?_eq_some_iff.mp here
  rw [List.countP_set bound]
  -- A party that counts is one of those counted.
  have least : (if counts parties[i] then 1 else 0) ≤ parties.countP counts := by
    split
    · exact List.countP_pos_iff.mpr ⟨_, List.getElem_mem bound, ‹_›⟩
    · exact Nat.zero_le _
  omega

/-- A move between phases that count alike leaves the count as it was. -/
theorem countP_moved_alike {parties : List Phase} {i : Nat} {old next : Phase}
    {counts : Phase → Bool} (here : parties[i]? = some old) (alike : counts next = counts old) :
    (parties.set i next).countP counts = parties.countP counts := by
  have balance := countP_moved counts here next
  rw [alike] at balance
  omega

/-- A move out of the phases that count lowers the count by one. -/
theorem countP_moved_off {parties : List Phase} {i : Nat} {old next : Phase}
    {counts : Phase → Bool} (here : parties[i]? = some old) (counted : counts old = true)
    (off : counts next = false) :
    (parties.set i next).countP counts + 1 = parties.countP counts := by
  have balance := countP_moved counts here next
  simp only [counted, off, if_true, Bool.false_eq_true, if_false] at balance
  omega

/-- A party that counts makes the count positive. -/
theorem countP_pos {parties : List Phase} {i : Nat} {phase : Phase} {counts : Phase → Bool}
    (here : parties[i]? = some phase) (counted : counts phase = true) :
    0 < parties.countP counts :=
  List.countP_pos_iff.mpr ⟨phase, List.mem_of_getElem? here, counted⟩

/-- A positive count comes from a party that counts. -/
theorem exists_of_countP_pos {parties : List Phase} {counts : Phase → Bool}
    (positive : 0 < parties.countP counts) :
    ∃ (i : Nat) (phase : Phase), parties[i]? = some phase ∧ counts phase = true := by
  obtain ⟨phase, member, counted⟩ := List.countP_pos_iff.mp positive
  obtain ⟨i, here⟩ := List.mem_iff_getElem?.mp member
  exact ⟨i, phase, here, counted⟩

/-- When the count is zero, no party counts. -/
theorem not_counted {parties : List Phase} {i : Nat} {phase : Phase} {counts : Phase → Bool}
    (zero : parties.countP counts = 0) (here : parties[i]? = some phase) :
    counts phase = false := by
  cases counted : counts phase with
  | false => rfl
  | true =>
    have positive := countP_pos here counted
    omega

/-- A move changes a total weight by what the old and the new phase weigh. -/
theorem sum_moved {parties : List Phase} {i : Nat} {old : Phase} (weigh : Phase → Nat)
    (here : parties[i]? = some old) (next : Phase) :
    ((parties.set i next).map weigh).sum + weigh old = (parties.map weigh).sum + weigh next := by
  -- The parties in front of the one that moves weigh the same on both sides.
  induction parties generalizing i with
  | nil => simp at here
  | cons party rest ih =>
    cases i with
    | zero =>
      simp only [List.getElem?_cons_zero, Option.some.injEq] at here
      simp only [List.set_cons_zero, List.map_cons, List.sum_cons, here]
      omega
    | succ i =>
      have later := ih (by simpa using here)
      simp only [List.set_cons_succ, List.map_cons, List.sum_cons]
      omega

/-- A move changes a greatest weight by what the old and the new phase weigh. -/
theorem peak_moved {parties : List Phase} {i : Nat} {old : Phase} (weigh : Phase → Nat)
    (here : parties[i]? = some old) (next : Phase) :
    max (((parties.set i next).map weigh).foldr max 0) (weigh old) =
      max ((parties.map weigh).foldr max 0) (weigh next) := by
  -- The parties in front of the one that moves weigh the same on both sides.
  induction parties generalizing i with
  | nil => simp at here
  | cons party rest ih =>
    cases i with
    | zero =>
      simp only [List.getElem?_cons_zero, Option.some.injEq] at here
      simp only [List.set_cons_zero, List.map_cons, List.foldr_cons, here]
      omega
    | succ i =>
      have later := ih (by simpa using here)
      simp only [List.set_cons_succ, List.map_cons, List.foldr_cons]
      omega

end Transition.Population
