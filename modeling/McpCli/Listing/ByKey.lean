import Mathlib.Data.List.Nodup
import Mathlib.Order.Lattice

/-! Lists that are sorted by a key, and of which one element is kept for each key. -/

namespace Listing

variable {α β κ : Type}

/-- Of elements behind each other with one key, only the first one is kept. -/
def dedupByKey [DecidableEq κ] (key : α → κ) : List α → List α
  | [] => []
  | a :: l =>
    match dedupByKey key l with
    | [] => [a]
    | b :: rest => if key a = key b then a :: rest else a :: b :: rest

/-- The list in the order of the keys. Elements with one key stay in their order. -/
def sortByKey [LinearOrder κ] (key : α → κ) (l : List α) : List α :=
  l.mergeSort fun a b => key a ≤ key b

/-- The elements in the order of their keys, one for each key. -/
def uniqueByKey [LinearOrder κ] (key : α → κ) (l : List α) : List α :=
  dedupByKey key (sortByKey key l)

/-- Dropping doubles takes elements away. -/
theorem dedupByKey_sublist [DecidableEq κ] (key : α → κ) (l : List α) :
    (dedupByKey key l).Sublist l := by
  -- An element is put in front of the others, or in the place of its double.
  induction l with
  | nil => exact List.Sublist.refl _
  | cons a l ih =>
    rw [dedupByKey]
    cases kept : dedupByKey key l with
    | nil => exact (List.nil_sublist _).cons_cons _
    | cons b rest =>
      rw [kept] at ih
      simp only
      split
      · exact ((List.sublist_cons_self _ _).trans ih).cons_cons _
      · exact ih.cons_cons _

/-- Dropping doubles only looks at the keys. -/
theorem map_dedupByKey [DecidableEq κ] {key : α → κ} {key' : β → κ} {f : α → β}
    (same : ∀ a, key' (f a) = key a) (l : List α) :
    (dedupByKey key l).map f = dedupByKey key' (l.map f) := by
  -- Keys are all that is compared.
  induction l with
  | nil => rfl
  | cons a l ih =>
    rw [List.map_cons, dedupByKey, dedupByKey, ← ih]
    cases dedupByKey key l with
    | nil => rfl
    | cons b rest =>
      simp only [List.map_cons, same]
      split <;> rfl

/-- The elements of two keys are the same only if there are none of them. -/
theorem filter_key_eq_iff [DecidableEq κ] {key : α → κ} {k k' : κ} {l : List α} :
    (l.filter fun a => key a = k) = (l.filter fun a => key a = k') ↔
      k = k' ∨ ∀ a ∈ l, key a ≠ k ∧ key a ≠ k' := by
  constructor
  · intro same
    -- If the keys differ, no element can have both.
    rcases eq_or_ne k k' with equal | other
    · exact .inl equal
    · refine .inr fun a member => ⟨fun first => ?_, fun second => ?_⟩
      · -- An element of one key would be among those of the other key.
        have inside : a ∈ l.filter fun a => key a = k' := by
          rw [← same]
          simpa [member] using first
        have second : key a = k' := by simpa using (List.mem_filter.mp inside).2
        exact other (first.symm.trans second)
      · have inside : a ∈ l.filter fun a => key a = k := by
          rw [same]
          simpa [member] using second
        have first : key a = k := by simpa using (List.mem_filter.mp inside).2
        exact other (first.symm.trans second)
  · rintro (rfl | apart)
    · rfl
    · rw [List.filter_eq_nil_iff.mpr, List.filter_eq_nil_iff.mpr]
      · intro a member
        simpa using (apart a member).2
      · intro a member
        simpa using (apart a member).1

variable [LinearOrder κ] {key : α → κ}

/-- The order of the keys is transitive, as sorting needs it. -/
theorem decide_key_trans (key : α → κ) (a b c : α) (before : decide (key a ≤ key b) = true)
    (after : decide (key b ≤ key c) = true) : decide (key a ≤ key c) = true := by
  rw [decide_eq_true_eq] at *
  exact le_trans before after

/-- The order of the keys is total, as sorting needs it. -/
theorem decide_key_total (key : α → κ) (a b : α) :
    (decide (key a ≤ key b) || decide (key b ≤ key a)) = true := by
  rw [Bool.or_eq_true, decide_eq_true_eq, decide_eq_true_eq]
  exact le_total _ _

/-- Sorting keeps all elements. -/
theorem sortByKey_perm (key : α → κ) (l : List α) : (sortByKey key l).Perm l :=
  List.mergeSort_perm l fun a b => key a ≤ key b

/-- Sorting puts the keys in order. -/
theorem pairwise_sortByKey (key : α → κ) (l : List α) :
    (sortByKey key l).Pairwise fun a b => key a ≤ key b :=
  (List.pairwise_mergeSort (decide_key_trans key) (decide_key_total key) l).imp of_decide_eq_true

/-- Elements with different keys are put in the same order, in whatever order they came. -/
theorem sortByKey_eq_of_perm {l l' : List α} (perm : l.Perm l')
    (different : ∀ a ∈ l, ∀ b ∈ l, key a = key b → a = b) : sortByKey key l = sortByKey key l' := by
  have both := (sortByKey_perm key l).trans (perm.trans (sortByKey_perm key l').symm)
  refine List.Perm.eq_of_pairwise (fun a b first second before after => ?_)
    (pairwise_sortByKey key l) (pairwise_sortByKey key l') both
  -- Two elements that may be exchanged have one key.
  exact different a ((sortByKey_perm key l).mem_iff.mp first) b
    (perm.mem_iff.mpr ((sortByKey_perm key l').mem_iff.mp second)) (le_antisymm before after)

/-- Lists with the same elements of every key have the same elements. -/
theorem mem_iff_of_filter_key {l l' : List α}
    (same : ∀ k, (l.filter fun a => key a = k) = l'.filter fun a => key a = k) (a : α) :
    a ∈ l ↔ a ∈ l' := by
  have own := congrArg (a ∈ ·) (same (key a))
  simpa using own

/-- Lists in the order of their keys are the same if they have the same elements of every key. -/
theorem eq_of_filter_key {l l' : List α} (sorted : l.Pairwise fun a b => key a ≤ key b)
    (sorted' : l'.Pairwise fun a b => key a ≤ key b)
    (same : ∀ k, (l.filter fun a => key a = k) = l'.filter fun a => key a = k) : l = l' := by
  have mem_iff := mem_iff_of_filter_key same
  induction l generalizing l' with
  | nil => exact (List.eq_nil_iff_forall_not_mem.mpr fun a mem => nomatch (mem_iff a).mpr mem).symm
  | cons a l ih =>
    cases l' with
    | nil => exact nomatch (mem_iff a).mp List.mem_cons_self
    | cons b l' =>
      obtain ⟨first, others⟩ := List.pairwise_cons.mp sorted
      obtain ⟨first', others'⟩ := List.pairwise_cons.mp sorted'
      -- Each of the first elements is in the other list, where no key is smaller than the first.
      have least : key a = key b := by
        refine le_antisymm ?_ ?_
        · rcases List.mem_cons.mp ((mem_iff b).mpr List.mem_cons_self) with rfl | mem
          · exact le_refl _
          · exact first b mem
        · rcases List.mem_cons.mp ((mem_iff a).mp List.mem_cons_self) with rfl | mem
          · exact le_refl _
          · exact first' a mem
      have heads := same (key a)
      rw [List.filter_cons_of_pos (by simp), List.filter_cons_of_pos (by simp [least])] at heads
      obtain ⟨rfl, -⟩ := List.cons.inj heads
      -- Without the first element, the others still have the same elements of every key.
      have rest (k : κ) : (l.filter fun a => key a = k) = l'.filter fun a => key a = k := by
        have whole := same k
        simp only [List.filter_cons] at whole
        split at whole
        · exact (List.cons.inj whole).2
        · exact whole
      exact congrArg (a :: ·) (ih others others' rest (mem_iff_of_filter_key rest))

/-- Sorting keeps the first one of the elements with one key the first one. -/
theorem find?_sortByKey (l : List α) (k : κ) :
    (sortByKey key l).find? (fun a => key a = k) = l.find? fun a => key a = k := by
  -- Elements are put into the sorted list from the last one to the first.
  induction l with
  | nil => rw [sortByKey, List.mergeSort_nil]
  | cons a l ih =>
    -- The first element is put into the others when they are sorted, behind smaller keys only.
    obtain ⟨before, after, whole, others, smaller⟩ :=
      List.mergeSort_cons (decide_key_trans key) (decide_key_total key) a l
    rw [sortByKey, others, List.find?_append] at ih
    rw [sortByKey, whole, List.find?_append, List.find?_cons, List.find?_cons]
    by_cases first : key a = k
    · have none : before.find? (fun b => key b = k) = none := by
        rw [List.find?_eq_none]
        intro b mem same
        have less := smaller b mem
        simp only [Bool.not_eq_true', decide_eq_false_iff_not, decide_eq_true_eq] at less same
        exact less (le_of_eq (first.trans same.symm))
      simp [none, first]
    · simpa [first] using ih

/-- A sorted list rid of its doubles has one element for each key. -/
theorem pairwise_dedupByKey {l : List α} (sorted : l.Pairwise fun a b => key a ≤ key b) :
    (dedupByKey key l).Pairwise fun a b => key a < key b := by
  -- What is left of the others begins with the smallest of their keys.
  induction l with
  | nil => exact List.Pairwise.nil
  | cons a l ih =>
    obtain ⟨first, others⟩ := List.pairwise_cons.mp sorted
    have kept := ih others
    have member : ∀ b ∈ dedupByKey key l, b ∈ l := fun b mem => (dedupByKey_sublist key l).mem mem
    rw [dedupByKey]
    cases others : dedupByKey key l with
    | nil => exact List.pairwise_singleton _ _
    | cons b rest =>
      rw [others] at kept member
      obtain ⟨next, behind⟩ := List.pairwise_cons.mp kept
      simp only
      split
      · -- The double goes, and what is behind it is behind the first element.
        rename_i same
        exact List.pairwise_cons.mpr ⟨fun c mem => same ▸ next c mem, behind⟩
      · rename_i other
        have less := lt_of_le_of_ne (first b (member b List.mem_cons_self)) other
        refine List.pairwise_cons.mpr ⟨fun c mem => ?_, kept⟩
        rcases List.mem_cons.mp mem with rfl | mem
        · exact less
        · exact lt_trans less (next c mem)

/-- What is left of a sorted list: its first element, and what is left of others with other keys. -/
theorem mem_dedupByKey_cons {a c : α} {l : List α}
    (sorted : (a :: l).Pairwise fun a b => key a ≤ key b) :
    c ∈ dedupByKey key (a :: l) ↔ c = a ∨ c ∈ dedupByKey key l ∧ key c ≠ key a := by
  -- The first element is kept, and only what has its key can go.
  obtain ⟨first, others⟩ := List.pairwise_cons.mp sorted
  have kept := pairwise_dedupByKey others
  have member : ∀ b ∈ dedupByKey key l, b ∈ l := fun b mem => (dedupByKey_sublist key l).mem mem
  rw [dedupByKey]
  cases left : dedupByKey key l with
  | nil => simp
  | cons b rest =>
    rw [left] at kept member
    obtain ⟨next, -⟩ := List.pairwise_cons.mp kept
    simp only
    split
    · -- The double has the key of the first element, and what is behind it has a greater one.
      rename_i same
      constructor
      · intro mem
        rcases List.mem_cons.mp mem with rfl | mem
        · exact .inl rfl
        · refine .inr ⟨List.mem_cons_of_mem _ mem, fun eq => ?_⟩
          exact ne_of_lt (next c mem) (same.symm.trans eq.symm)
      · intro mem
        rcases mem with rfl | ⟨mem, other⟩
        · exact List.mem_cons_self
        · rcases List.mem_cons.mp mem with rfl | mem
          · exact absurd same.symm other
          · exact List.mem_cons_of_mem _ mem
    · rename_i other
      have less := lt_of_le_of_ne (first b (member b List.mem_cons_self)) other
      have greater : ∀ c ∈ b :: rest, key c ≠ key a := by
        intro c mem
        rcases List.mem_cons.mp mem with rfl | mem
        · exact ne_of_gt less
        · exact ne_of_gt (lt_trans less (next c mem))
      rw [List.mem_cons]
      exact or_congr_right ⟨fun mem => ⟨mem, greater c mem⟩, And.left⟩

/-- Of the elements of a sorted list with one key, the first one is left. -/
theorem mem_dedupByKey {a : α} {l : List α} (sorted : l.Pairwise fun a b => key a ≤ key b) :
    a ∈ dedupByKey key l ↔ l.find? (fun b => key b = key a) = some a := by
  -- An element with the key of the first one is not looked for any further.
  induction l with
  | nil => simp [dedupByKey]
  | cons first l ih =>
    rw [mem_dedupByKey_cons sorted, ih sorted.of_cons, List.find?_cons]
    by_cases same : key first = key a
    · simp [same, eq_comm]
    · have other : a ≠ first := fun eq => same (eq ▸ rfl)
      simp [same, other, Ne.symm same]

/-- Of the elements with one key, the first one is left. -/
theorem mem_uniqueByKey {a : α} {l : List α} :
    a ∈ uniqueByKey key l ↔ l.find? (fun b => key b = key a) = some a := by
  rw [uniqueByKey, mem_dedupByKey (pairwise_sortByKey key l), find?_sortByKey]

/-- Elements that are left are told apart by their keys. -/
theorem uniqueByKey_inj {a b : α} {l : List α} (left : a ∈ uniqueByKey key l)
    (left' : b ∈ uniqueByKey key l) (same : key a = key b) : a = b := by
  -- Both are the first element with the key.
  rw [mem_uniqueByKey] at left left'
  rw [same, left'] at left
  exact (Option.some.inj left).symm

/-- No element is left twice. -/
theorem nodup_uniqueByKey (key : α → κ) (l : List α) : (uniqueByKey key l).Nodup :=
  (pairwise_dedupByKey (pairwise_sortByKey key l)).imp fun less eq =>
    ne_of_lt less (congrArg key eq)

/-- What is sorted only has to be rid of its doubles. -/
theorem uniqueByKey_of_pairwise {l : List α} (sorted : l.Pairwise fun a b => key a ≤ key b) :
    uniqueByKey key l = dedupByKey key l := by
  rw [uniqueByKey, sortByKey, List.mergeSort_of_pairwise (sorted.imp decide_eq_true)]

/-- What has the keys of other elements is sorted and rid of doubles as these are. -/
theorem map_uniqueByKey {key' : β → κ} {f : α → β} (same : ∀ a, key' (f a) = key a) (l : List α) :
    (uniqueByKey key l).map f = uniqueByKey key' (l.map f) := by
  rw [uniqueByKey, uniqueByKey, map_dedupByKey same, sortByKey, sortByKey,
    List.map_mergeSort]
  intro a _ b _
  rw [same, same]

end Listing
