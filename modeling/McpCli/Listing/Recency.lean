import Mathlib.Data.List.Dedup
import Mathlib.Data.List.DropRight
import Mathlib.Data.List.Induction

/-! The keys that were used most recently, of a history of uses. -/

namespace Listing

variable {κ : Type} [DecidableEq κ]

/-- The keys that were used last, so many at most; the one whose last use is the oldest is first. -/
def recent (count : Nat) (uses : List κ) : List κ := uses.dedup.rtake count

/-- The uses since the last use of a key. -/
def usesSince (key : κ) (uses : List κ) : List κ := uses.rtakeWhile (· ≠ key)

/-- How many other keys were used since the last use of a key. -/
def othersSince (key : κ) (uses : List κ) : Nat := (usesSince key uses).dedup.length

/-- What is used now is used last. -/
theorem dedup_concat (uses : List κ) (key : κ) :
    (uses ++ [key]).dedup = uses.dedup.erase key ++ [key] := by
  -- The induction takes the uses from the oldest one on, which is dropped if there is another one.
  induction uses with
  | nil => rfl
  | cons first rest ih =>
    rw [List.cons_append]
    by_cases again : first ∈ rest
    · rw [List.dedup_cons_of_mem again, List.dedup_cons_of_mem (List.mem_append_left _ again), ih]
    · rw [List.dedup_cons_of_notMem again]
      by_cases same : first = key
      · have absent : key ∉ rest.dedup := by
          rw [List.mem_dedup, ← same]
          exact again
        rw [List.dedup_cons_of_mem (by simp [same]), ih, same, List.erase_cons_head,
          List.erase_of_not_mem absent]
      · rw [List.dedup_cons_of_notMem (by simp [again, same]), ih,
          List.erase_cons_tail (by simpa using same), List.cons_append]

/-- Taking an element out of the first ones leaves those that are first without it. -/
theorem take_erase_take (key : κ) (count : Nat) (keys : List κ) :
    ((keys.take (count + 1)).erase key).take count = (keys.erase key).take count := by
  -- The induction goes up to the place of the key; in front of it, both sides take the same
  -- elements.
  induction keys generalizing count with
  | nil => simp
  | cons first rest ih =>
    rw [List.take_succ_cons]
    by_cases same : first = key
    · rw [same, List.erase_cons_head, List.erase_cons_head, List.take_take, Nat.min_self]
    · rw [List.erase_cons_tail (by simpa using same), List.erase_cons_tail (by simpa using same)]
      cases count with
      | zero => rfl
      | succ count => rw [List.take_succ_cons, List.take_succ_cons, ih]

/-- Of different keys, one is taken out of the list from either end. -/
theorem reverse_erase {keys : List κ} (nodup : keys.Nodup) (key : κ) :
    (keys.erase key).reverse = keys.reverse.erase key := by
  rw [nodup.erase_eq_filter, (List.nodup_reverse.mpr nodup).erase_eq_filter, List.filter_reverse]

/-- Taking a key out of the last ones leaves those that are last without it. -/
theorem rtake_erase {keys : List κ} (nodup : keys.Nodup) (key : κ) (count : Nat) :
    ((keys.rtake (count + 1)).erase key).rtake count = (keys.erase key).rtake count := by
  have last : (keys.rtake (count + 1)).Nodup := nodup.sublist (List.drop_sublist _ _)
  -- The last keys are the first ones of the reversed list.
  rw [List.rtake_eq_reverse_take_reverse, reverse_erase last, List.rtake_eq_reverse_take_reverse,
    List.reverse_reverse, take_erase_take, ← reverse_erase nodup, ← List.rtake_eq_reverse_take_reverse]

/-- With one more use, its key comes last, and the oldest of the others may go. -/
theorem recent_concat (count : Nat) (uses : List κ) (key : κ) :
    recent (count + 1) (uses ++ [key]) = ((recent (count + 1) uses).erase key).rtake count ++ [key] := by
  rw [recent, dedup_concat, List.rtake_concat_succ, recent, rtake_erase (List.nodup_dedup uses)]

omit [DecidableEq κ] in
/-- Where an element is seen first, it is among so many elements exactly if it is no later. -/
theorem mem_take_append_cons {key : κ} {front : List κ} (absent : key ∉ front) (behind : List κ)
    (count : Nat) : key ∈ (front ++ key :: behind).take count ↔ front.length < count := by
  have passed : key ∉ front.take count := fun mem => absent (List.mem_of_mem_take mem)
  rw [List.take_append, List.mem_append, or_iff_right passed]
  cases left : count - front.length with
  | zero => simpa using Nat.le_of_sub_eq_zero left
  | succ more => simpa using Nat.lt_of_sub_eq_succ left

/-- A key that was used has a last use. -/
theorem exists_usesSince {key : κ} {uses : List κ} (used : key ∈ uses) :
    ∃ front, uses = front ++ key :: usesSince key uses := by
  -- The induction looks for the last use from the end.
  induction uses using List.reverseRecOn with
  | nil => cases used
  | append_singleton uses last ih =>
    rw [usesSince, List.rtakeWhile_concat]
    by_cases same : last = key
    · exact ⟨uses, by simp [same]⟩
    · have earlier : key ∈ uses := by
        rcases List.mem_append.mp used with earlier | now
        · exact earlier
        · exact absurd (List.mem_singleton.mp now).symm same
      obtain ⟨front, whole⟩ := ih earlier
      refine ⟨front, ?_⟩
      rw [if_pos (by simpa using same), ← List.cons_append, ← List.append_assoc]
      exact congrArg (· ++ [last]) whole

/-- A key is among the last ones exactly if it was used and not too many other ones since. -/
theorem mem_recent {count : Nat} {uses : List κ} {key : κ} :
    key ∈ recent count uses ↔ key ∈ uses ∧ othersSince key uses < count := by
  by_cases used : key ∈ uses
  · rw [and_iff_right used]
    obtain ⟨front, whole⟩ := exists_usesSince used
    have absent : key ∉ usesSince key uses := by
      intro mem
      simpa using List.mem_rtakeWhile_imp mem
    -- The keys in front of it were used before, and those behind it since.
    obtain ⟨earlier, order⟩ : ∃ earlier, uses.dedup = earlier ++ key :: (usesSince key uses).dedup := by
      obtain ⟨earlier, order⟩ := List.suffix_union_right front (key :: (usesSince key uses).dedup)
      refine ⟨earlier, ?_⟩
      rw [order, ← List.dedup_cons_of_notMem absent, ← List.dedup_append, ← whole]
    have behind : key ∉ (usesSince key uses).dedup.reverse := by
      rwa [List.mem_reverse, List.mem_dedup]
    rw [recent, othersSince, order, List.rtake_eq_reverse_take_reverse, List.mem_reverse,
      List.reverse_append, List.reverse_cons, List.append_assoc, List.singleton_append,
      mem_take_append_cons behind, List.length_reverse]
  · refine iff_of_false (fun mem => used ?_) (fun both => used both.1)
    rw [← List.mem_dedup]
    exact List.mem_of_mem_drop mem

end Listing
