import Mathlib.Algebra.Ring.Nat
import Mathlib.Data.Prod.Lex
import McpCli.Listing.ByKey

/-! Maps as lists that are sorted by their keys, and how often each key occurs in a list. -/

namespace Listing

variable {ε κ ν : Type} [LinearOrder κ]

/-- Make the value of a key anew from the one it has, if it has any. -/
def upsert (key : κ) (f : Option ν → ν) : List (κ × ν) → List (κ × ν)
  | [] => [(key, f none)]
  | (k, v) :: rest =>
    if key < k then (key, f none) :: (k, v) :: rest
    else if key = k then (k, f (some v)) :: rest
    else (k, v) :: upsert key f rest

/-- The value of a key, if it has any. -/
def valueAt (key : κ) (map : List (κ × ν)) : Option ν :=
  (map.find? fun entry => entry.1 = key).map Prod.snd

/-- The keys are in order, each of them once. -/
def KeySorted (map : List (κ × ν)) : Prop := map.Pairwise fun one other => one.1 < other.1

/-- The first entry has the value of its key, and the others the values of theirs. -/
theorem valueAt_cons (key : κ) (entry : κ × ν) (rest : List (κ × ν)) :
    valueAt key (entry :: rest) = if entry.1 = key then some entry.2 else valueAt key rest := by
  unfold valueAt
  rw [List.find?_cons]
  by_cases same : entry.1 = key
  · simp [same]
  · simp [same]

/-- A key before all others has no value. -/
theorem valueAt_eq_none {key : κ} {map : List (κ × ν)} (before : ∀ entry ∈ map, key < entry.1) :
    valueAt key map = none := by
  rw [valueAt, Option.map_eq_none_iff, List.find?_eq_none]
  intro entry member same
  exact ne_of_gt (before entry member) (of_decide_eq_true same)

/-- The values of a sorted map are those of its entries. -/
theorem valueAt_eq_some {map : List (κ × ν)} (sorted : KeySorted map) {key : κ} {value : ν} :
    valueAt key map = some value ↔ (key, value) ∈ map := by
  -- The first entry with the key is the only one, since keys do not come twice.
  induction map with
  | nil => simp [valueAt]
  | cons entry rest ih =>
    obtain ⟨first, others⟩ := List.pairwise_cons.mp sorted
    rw [valueAt_cons, List.mem_cons]
    by_cases same : entry.1 = key
    · have absent : (key, value) ∉ rest := fun member =>
        ne_of_lt (first _ member) same
      rw [if_pos same, or_iff_left absent, Option.some.injEq, Prod.ext_iff]
      simp [same, eq_comm]
    · have other : (key, value) ≠ entry := fun equal => same (by rw [← equal])
      rw [if_neg same, ih others, or_iff_right other]

/-- No key is there twice. -/
theorem KeySorted.nodup {map : List (κ × ν)} (sorted : KeySorted map) :
    (map.map Prod.fst).Nodup := List.pairwise_map.mpr (sorted.imp ne_of_lt)

/-- Two sorted maps with the same values are the same. -/
theorem KeySorted.ext {map map' : List (κ × ν)} (sorted : KeySorted map) (sorted' : KeySorted map')
    (same : ∀ key, valueAt key map = valueAt key map') : map = map' := by
  have members : ∀ entry, entry ∈ map ↔ entry ∈ map' := by
    rintro ⟨key, value⟩
    rw [← valueAt_eq_some sorted, ← valueAt_eq_some sorted', same]
  -- Both have the same entries, and only one order of them is sorted.
  have perm := (List.perm_ext_iff_of_nodup (.of_map Prod.fst sorted.nodup)
    (.of_map Prod.fst sorted'.nodup)).mpr members
  refine List.Perm.eq_of_pairwise (fun one other _ _ less greater => ?_) sorted sorted' perm
  exact absurd (lt_trans less greater) (lt_irrefl _)

/-- A key that is made anew is the only one that may be new. -/
theorem mem_upsert {key : κ} {f : Option ν → ν} {map : List (κ × ν)} {entry : κ × ν}
    (member : entry ∈ upsert key f map) : entry.1 = key ∨ ∃ other ∈ map, other.1 = entry.1 := by
  -- Up to the place of the key, the entries stay as they are.
  induction map with
  | nil =>
    rw [upsert, List.mem_singleton] at member
    exact .inl (by rw [member])
  | cons first rest ih =>
    rw [upsert] at member
    split at member
    · rcases List.mem_cons.mp member with rfl | member
      · exact .inl rfl
      · exact .inr ⟨entry, member, rfl⟩
    · split at member
      · rcases List.mem_cons.mp member with rfl | member
        · exact .inr ⟨first, List.mem_cons_self, rfl⟩
        · exact .inr ⟨entry, List.mem_cons_of_mem first member, rfl⟩
      · rcases List.mem_cons.mp member with rfl | member
        · exact .inr ⟨_, List.mem_cons_self, rfl⟩
        · exact (ih member).imp_right fun ⟨other, within, same⟩ =>
            ⟨other, List.mem_cons_of_mem first within, same⟩

/-- The keys stay in order. -/
theorem KeySorted.upsert {map : List (κ × ν)} (sorted : KeySorted map) (key : κ)
    (f : Option ν → ν) : KeySorted (upsert key f map) := by
  induction map with
  | nil => exact List.pairwise_singleton _ _
  | cons first rest ih =>
    obtain ⟨least, others⟩ := List.pairwise_cons.mp sorted
    rw [Listing.upsert]
    -- The key is in front of the first one, it is the first one, or it is behind it.
    split
    · rename_i less
      refine List.pairwise_cons.mpr ⟨fun other member => ?_, sorted⟩
      rcases List.mem_cons.mp member with rfl | member
      · exact less
      · exact lt_trans less (least other member)
    · split
      · exact List.pairwise_cons.mpr ⟨least, others⟩
      · rename_i not_less not_same
        have greater : first.1 < key := lt_of_le_of_ne (not_lt.mp not_less) (Ne.symm not_same)
        refine List.pairwise_cons.mpr ⟨fun other member => ?_, ih others⟩
        -- What is behind the first entry was there, or it has the greater key.
        rcases mem_upsert member with same | ⟨old, within, same⟩
        · rw [same]
          exact greater
        · rw [← same]
          exact least old within

/-- Only the value of the key is made anew. -/
theorem valueAt_upsert {map : List (κ × ν)} (sorted : KeySorted map) (key : κ) (f : Option ν → ν)
    (other : κ) :
    valueAt other (upsert key f map) =
      if key = other then some (f (valueAt key map)) else valueAt other map := by
  -- The cases are those of the search for the place of the key.
  induction map with
  | nil => simp [upsert, valueAt]
  | cons first rest ih =>
    obtain ⟨least, others⟩ := List.pairwise_cons.mp sorted
    rw [upsert]
    split
    · rename_i less
      -- In a sorted map, a key in front of all others has no value yet.
      have absent : valueAt key (first :: rest) = none := valueAt_eq_none fun entry member => by
        rcases List.mem_cons.mp member with rfl | member
        · exact less
        · exact lt_trans less (least entry member)
      rw [valueAt_cons, absent]
    · split
      · rename_i same
        rw [valueAt_cons, valueAt_cons, valueAt_cons, if_pos same.symm, same]
        split <;> rfl
      · rename_i not_same
        rw [valueAt_cons, ih others, valueAt_cons, valueAt_cons, if_neg (Ne.symm not_same)]
        by_cases here : first.1 = other
        · have not_key : key ≠ other := fun same => not_same (same.trans here.symm)
          rw [if_pos here, if_neg not_key, if_pos here]
        · rw [if_neg here, if_neg here]

/-- The elements of a list put together by their keys, one after another. -/
def group (keyOf : ε → κ) (add : Option ν → ε → ν) (all : List ε) : List (κ × ν) :=
  all.foldl (fun map element => upsert (keyOf element) (fun old => add old element) map) []

variable {keyOf : ε → κ} {add : Option ν → ε → ν}

/-- A map stays sorted as elements are put to it, and each key gets its own ones. -/
theorem foldl_upsert {map : List (κ × ν)} (sorted : KeySorted map) (all : List ε) :
    KeySorted (all.foldl
        (fun map element => upsert (keyOf element) (fun old => add old element) map) map) ∧
      ∀ key, valueAt key (all.foldl
          (fun map element => upsert (keyOf element) (fun old => add old element) map) map) =
        (all.filter fun element => keyOf element = key).foldl
          (fun old element => some (add old element)) (valueAt key map) := by
  -- The map at the start is arbitrary, since it grows with each element.
  induction all generalizing map with
  | nil => exact ⟨sorted, fun key => rfl⟩
  | cons element rest ih =>
    obtain ⟨later, values⟩ := ih (sorted.upsert (keyOf element) fun old => add old element)
    refine ⟨later, fun key => ?_⟩
    rw [List.foldl_cons, values, valueAt_upsert sorted, List.filter_cons]
    by_cases own : keyOf element = key
    · simp [own]
    · simp [own]

/-- The groups are in the order of their keys. -/
theorem group_sorted (all : List ε) : KeySorted (group keyOf add all) :=
  (foldl_upsert .nil all).1

/-- A group is made of the elements with its key. -/
theorem valueAt_group (all : List ε) (key : κ) :
    valueAt key (group keyOf add all) =
      (all.filter fun element => keyOf element = key).foldl
        (fun old element => some (add old element)) none :=
  (foldl_upsert .nil all).2 key

/-- How often each key occurs. -/
def tally (keys : List κ) : List (κ × Nat) := group id (fun old _ => old.getD 0 + 1) keys

/-- What is begun with the first element goes on with the others. -/
theorem foldl_some (add : ν → ε → ν) (start : ν) (all : List ε) (old : Option ν) :
    all.foldl (fun old element => some (add (old.getD start) element)) old =
      if all = [] then old else some (all.foldl add (old.getD start)) := by
  -- After the first element, there is always an old value.
  induction all generalizing old with
  | nil => rfl
  | cons element rest ih =>
    rw [List.foldl_cons, ih, if_neg (List.cons_ne_nil element rest), List.foldl_cons]
    cases rest with
    | nil => rfl
    | cons next more => rw [if_neg (List.cons_ne_nil next more), Option.getD_some]

/-- Counting one by one comes to the length. -/
theorem foldl_succ (all : List ε) (count : Nat) :
    all.foldl (fun count _ => count + 1) count = count + all.length := by
  induction all generalizing count with
  | nil => rfl
  | cons element rest ih => rw [List.foldl_cons, ih, List.length_cons, Nat.add_assoc, Nat.add_comm 1]

/-- The keys are counted in their order. -/
theorem tally_sorted (keys : List κ) : KeySorted (tally keys) := group_sorted keys

/-- The value of a key is its count, if it occurs. -/
theorem valueAt_tally (keys : List κ) (key : κ) :
    valueAt key (tally keys) = if key ∈ keys then some (keys.count key) else none := by
  have own : keys.filter (fun element => id element = key) = keys.filter (· == key) := by
    congr 1
  have size : (keys.filter (· == key)).length = keys.count key := List.countP_eq_length_filter.symm
  rw [tally, valueAt_group, foldl_some (fun count _ => count + 1), foldl_succ, own, Option.getD_none,
    Nat.zero_add, size]
  -- A key that does not occur has no elements to be counted.
  by_cases there : key ∈ keys
  · have found : keys.filter (· == key) ≠ [] := by
      rw [Ne, ← List.length_eq_zero_iff, size, List.count_eq_zero]
      exact not_not_intro there
    rw [if_neg found, if_pos there]
  · have missing : keys.filter (· == key) = [] := by
      rw [← List.length_eq_zero_iff, size, List.count_eq_zero]
      exact there
    rw [if_pos missing, if_neg there]

/-- Each key that occurs has its count. -/
theorem mem_tally {keys : List κ} {key : κ} {count : Nat} :
    (key, count) ∈ tally keys ↔ key ∈ keys ∧ count = keys.count key := by
  rw [← valueAt_eq_some (tally_sorted keys), valueAt_tally]
  by_cases there : key ∈ keys
  · simp [there, eq_comm]
  · simp [there]

/-- The order does not count. -/
theorem tally_perm {keys keys' : List κ} (perm : keys.Perm keys') : tally keys = tally keys' := by
  refine (tally_sorted keys).ext (tally_sorted keys') fun key => ?_
  rw [valueAt_tally, valueAt_tally, perm.count_eq]
  simp only [perm.mem_iff]

/-- What makes an entry come before another one: a higher count, or a smaller key. -/
def weight (entry : κ × Nat) : Lex (Natᵒᵈ × κ) := toLex (OrderDual.toDual entry.2, entry.1)

/-- The entries with the highest counts first. -/
def rank (entries : List (κ × Nat)) : List (κ × Nat) := sortByKey weight entries

/-- The keys of a list from the most frequent one on, where smaller ones come first. -/
def ranking (keys : List κ) : List κ := (rank (tally keys)).map Prod.fst

/-- A key comes before another one if it occurs more often, or as often and is smaller. -/
def Outranks (keys : List κ) (one other : κ) : Prop :=
  keys.count other < keys.count one ∨ keys.count one = keys.count other ∧ one < other

/-- Ranking keeps all entries. -/
theorem rank_perm (entries : List (κ × Nat)) : (rank entries).Perm entries :=
  sortByKey_perm weight entries

/-- The entries of the ranking are the keys with their counts. -/
theorem rank_tally (keys : List κ) :
    rank (tally keys) = (ranking keys).map fun key => (key, keys.count key) := by
  rw [ranking, List.map_map]
  conv_lhs => rw [← List.map_id (rank (tally keys))]
  refine List.map_congr_left fun entry member => ?_
  have counted := (mem_tally.mp ((rank_perm _).mem_iff.mp member)).2
  exact Prod.ext rfl counted

/-- The keys of the ranking are those of the list. -/
theorem mem_ranking {keys : List κ} {key : κ} : key ∈ ranking keys ↔ key ∈ keys := by
  rw [ranking, ((rank_perm (tally keys)).map Prod.fst).mem_iff, List.mem_map]
  constructor
  · rintro ⟨⟨_, count⟩, member, rfl⟩
    exact (mem_tally.mp member).1
  · intro there
    exact ⟨(key, keys.count key), mem_tally.mpr ⟨there, rfl⟩, rfl⟩

/-- No key is ranked twice. -/
theorem ranking_nodup (keys : List κ) : (ranking keys).Nodup :=
  ((rank_perm (tally keys)).map Prod.fst).nodup_iff.mpr (tally_sorted keys).nodup

/-- Of elements with different keys, those with higher counts come first, and then smaller keys. -/
theorem pairwise_weight {key : ε → κ} {count : ε → Nat} {all : List ε}
    (distinct : (all.map key).Nodup) :
    (sortByKey (fun element => weight (key element, count element)) all).Pairwise
      fun one other => count other < count one ∨ count one = count other ∧ key one < key other := by
  have sorted := pairwise_sortByKey (fun element => weight (key element, count element)) all
  have perm := (sortByKey_perm (fun element => weight (key element, count element)) all).map key
  -- Sorting allows equal weights, which elements with different keys cannot have.
  have different := List.pairwise_map.mp (perm.nodup_iff.mpr distinct)
  refine (sorted.and different).imp fun {one other} both => ?_
  rcases Prod.Lex.toLex_le_toLex.mp both.1 with more | ⟨same, smaller⟩
  · exact .inl more
  · exact .inr ⟨same, lt_of_le_of_ne smaller both.2⟩

/-- Whatever is ranked higher outranks what is ranked lower. -/
theorem ranking_outranks (keys : List κ) : (ranking keys).Pairwise (Outranks keys) := by
  have sorted := @pairwise_weight _ κ _ Prod.fst Prod.snd _ (tally_sorted keys).nodup
  refine List.pairwise_map.mpr (sorted.imp_of_mem fun {one other} first second outranks => ?_)
  -- The count beside a key is how often it occurs.
  have counted := (mem_tally.mp ((rank_perm _).mem_iff.mp first)).2
  have counted' := (mem_tally.mp ((rank_perm _).mem_iff.mp second)).2
  rw [counted, counted'] at outranks
  exact outranks

/-- If one value grows by one, so do all together. -/
theorem sum_upsert {size : ν → Nat} {f : Option ν → ν} (first : size (f none) = 1)
    (more : ∀ old, size (f (some old)) = size old + 1) (key : κ) (map : List (κ × ν)) :
    ((upsert key f map).map fun entry => size entry.2).sum =
      (map.map fun entry => size entry.2).sum + 1 := by
  -- Either the value of the key grows by one, or a new one of size one is put in.
  induction map with
  | nil => exact first
  | cons entry rest ih =>
    rw [upsert]
    split
    · rw [List.map_cons, List.sum_cons, first, Nat.add_comm]
    · split
      · simp only [List.map_cons, List.sum_cons, more]
        omega
      · simp only [List.map_cons, List.sum_cons, ih, Nat.add_assoc]

/-- All counts together are the length of the list. -/
theorem sum_tally (keys : List κ) : ((tally keys).map Prod.snd).sum = keys.length := by
  -- The counts before are arbitrary, as they are in the middle of the list.
  suffices grown : ∀ counts : List (κ × Nat),
      ((keys.foldl (fun map key => upsert key (fun old => old.getD 0 + 1) map) counts).map
        Prod.snd).sum = (counts.map Prod.snd).sum + keys.length by
    have whole := grown []
    rw [List.map_nil, List.sum_nil, Nat.zero_add] at whole
    exact whole
  induction keys with
  | nil => exact fun counts => rfl
  | cons key rest ih =>
    intro counts
    have one : ((upsert key (fun old => old.getD 0 + 1) counts).map Prod.snd).sum =
        (counts.map Prod.snd).sum + 1 :=
      @sum_upsert κ Nat _ id (fun old => old.getD 0 + 1) rfl (fun old => rfl) key counts
    rw [List.foldl_cons, ih, List.length_cons, one, Nat.add_assoc, Nat.add_comm 1]

/-- The first rows, and one that sums the others if there are any. -/
def cutRows (top : Nat) (other : κ) (rows : List (κ × Nat)) : List (κ × Nat) :=
  rows.take top ++
    if top < rows.length then [(other, ((rows.drop top).map Prod.snd).sum)] else []

omit [LinearOrder κ] in
/-- Cutting loses no count. -/
theorem sum_cutRows (top : Nat) (other : κ) (rows : List (κ × Nat)) :
    ((cutRows top other rows).map Prod.snd).sum = (rows.map Prod.snd).sum := by
  have whole := congrArg (fun rows => (rows.map Prod.snd).sum) (List.take_append_drop top rows)
  simp only [List.map_append, List.sum_append] at whole
  rw [cutRows, List.map_append, List.sum_append, ← whole]
  -- The row of the others has their sum, and without it there are none.
  split
  · rfl
  · rename_i fits
    rw [List.drop_of_length_le (Nat.le_of_not_lt fits)]

/--
Rows for the keys of a list: the most frequent ones with their counts, so many at most, and one more
with the counts of the others if there are any.
-/
structure TopRows (top : Nat) (other : κ) (keys : List κ) (rows : List (κ × Nat)) : Prop where
  ranked : ∃ ranked : List κ, ranked.Nodup ∧ (∀ key, key ∈ ranked ↔ key ∈ keys) ∧
    ranked.Pairwise (Outranks keys) ∧
    rows = (ranked.take top).map (fun key => (key, keys.count key)) ++
      if top < ranked.length then [(other, ((ranked.drop top).map keys.count).sum)] else []
  sum : (rows.map Prod.snd).sum = keys.length

/-- Cutting the ranking makes such rows. -/
theorem topRows_cutRows (top : Nat) (other : κ) (keys : List κ) :
    TopRows top other keys (cutRows top other (rank (tally keys))) := by
  refine ⟨⟨ranking keys, ranking_nodup keys, fun key => mem_ranking, ranking_outranks keys, ?_⟩, ?_⟩
  · rw [cutRows, rank_tally, ← List.map_take, List.length_map, ← List.map_drop, List.map_map]
    rfl
  · rw [sum_cutRows, ((rank_perm (tally keys)).map Prod.snd).sum_nat, sum_tally]

end Listing
