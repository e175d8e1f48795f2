import Mathlib.Data.List.Nodup
import Mathlib.Data.List.Perm.Basic

/-! Parties of a population that hold tickets, of which each party has one at most. -/

namespace Transition.Population

variable {Phase Ticket : Type*} {parties : List Phase} {i : Nat} {old next : Phase}

/-- The parties in front of one and behind it, whatever becomes of that one. -/
theorem split_at (here : parties[i]? = some old) :
    ∃ front back, parties = front ++ old :: back ∧
      ∀ other, parties.set i other = front ++ other :: back := by
  obtain ⟨inside, rfl⟩ := List.getElem?_eq_some_iff.mp here
  refine ⟨parties.take i, parties.drop (i + 1), ?_, fun other => ?_⟩
  · rw [List.getElem_cons_drop, List.take_append_drop]
  · rw [List.set_eq_take_append_cons_drop, if_pos inside]

variable {ticket : Phase → Option Ticket}

/-- A move that leaves its party the ticket leaves all of them as they are. -/
theorem tickets_moved_alike (here : parties[i]? = some old) (same : ticket next = ticket old) :
    (parties.set i next).filterMap ticket = parties.filterMap ticket := by
  obtain ⟨front, back, parts, moved⟩ := split_at here
  rw [moved, parts, List.filterMap_append, List.filterMap_append, List.filterMap_cons,
    List.filterMap_cons, same]

/-- A party that gets a ticket adds it to those of the others. -/
theorem tickets_moved_new {new : Ticket} (here : parties[i]? = some old)
    (without : ticket old = none) (gets : ticket next = some new) :
    ((parties.set i next).filterMap ticket).Perm (new :: parties.filterMap ticket) := by
  obtain ⟨front, back, parts, moved⟩ := split_at here
  rw [moved, parts, List.filterMap_append, List.filterMap_append,
    List.filterMap_cons_some gets, List.filterMap_cons_none without]
  exact List.perm_middle

/-- While a party has no ticket, there are more parties than tickets. -/
theorem tickets_lt (here : parties[i]? = some old) (without : ticket old = none) :
    (parties.filterMap ticket).length < parties.length := by
  obtain ⟨front, back, parts, _⟩ := split_at here
  have few := List.length_filterMap_le ticket front
  have few' := List.length_filterMap_le ticket back
  rw [parts, List.filterMap_append, List.filterMap_cons_none without, List.length_append,
    List.length_append, List.length_cons]
  -- The party itself is not counted, and none of the others more than once.
  omega

/-- When no ticket is there twice, no two parties have the same one. -/
theorem ticket_holder {j : Nat} {other : Phase} {held : Ticket}
    (apart : (parties.filterMap ticket).Nodup) (here : parties[i]? = some old)
    (there : parties[j]? = some other) (holds : ticket old = some held)
    (holds' : ticket other = some held) : i = j := by
  -- The parties are looked through from the first one on.
  induction parties generalizing i j with
  | nil => simp at here
  | cons party rest ih =>
    cases i with
    | zero =>
      cases j with
      | zero => rfl
      | succ j =>
        cases here
        rw [List.getElem?_cons_succ] at there
        rw [List.filterMap_cons_some holds, List.nodup_cons] at apart
        exact absurd (List.mem_filterMap.mpr ⟨other, List.mem_of_getElem? there, holds'⟩) apart.1
    | succ i =>
      -- Behind the first party, no ticket is there twice either.
      have later : (rest.filterMap ticket).Nodup := by
        cases party_ticket : ticket party with
        | none => rwa [List.filterMap_cons_none party_ticket] at apart
        | some first =>
          rw [List.filterMap_cons_some party_ticket] at apart
          exact apart.of_cons
      cases j with
      | zero =>
        cases there
        rw [List.getElem?_cons_succ] at here
        rw [List.filterMap_cons_some holds', List.nodup_cons] at apart
        exact absurd (List.mem_filterMap.mpr ⟨old, List.mem_of_getElem? here, holds⟩) apart.1
      | succ j => rw [ih later here there]

end Transition.Population
