import McpCli.Proofs.Daemon.ParseCache

/-! When the parse cache holds no more than it may, and each file only once. -/

namespace McpCli

open Transition

namespace ParseCache

variable {Tree : Type}

/-- The paths that something is kept for. -/
def paths (cache : ParseCache (ParseEntry Tree)) : List AbsPath := cache.entries.map Prod.fst

/-- The entries that stay when room is made for another one. -/
def staying (cache : ParseCache (ParseEntry Tree)) : List (AbsPath × ParseEntry Tree) :=
  cache.entries.drop (cache.entries.length - (cache.capacity - 1))

/-- There are no more entries than there may be, and no two of one path. -/
structure Tidy (cache : ParseCache (ParseEntry Tree)) : Prop where
  room : cache.entries.length ≤ cache.capacity
  once : cache.paths.Nodup
  /-- An eviction leaves nothing of its path. -/
  evicts : ∀ path, path ∉ (cache.evict path).paths

/-- An eviction takes out the first entry of its path. -/
theorem paths_evict {cache : ParseCache (ParseEntry Tree)} (some_room : cache.capacity ≠ 0)
    (path : AbsPath) : (cache.evict path).paths = cache.paths.erase path := by
  have same : (fun e : AbsPath × ParseEntry Tree => decide (e.1 = path)) =
      (fun other => other == path) ∘ Prod.fst := by
    funext e
    exact (beq_eq_decide _ _).symm
  rw [evict, if_neg some_room, List.erase_eq_eraseP', paths, paths, List.eraseP_map, same]

/-- What is found first can be put behind the others. -/
theorem perm_eraseP_append {α : Type} {p : α → Bool} {entries : List α} {entry : α}
    (found : entries.find? p = some entry) : (entries.eraseP p ++ [entry]).Perm entries := by
  obtain ⟨is, front, back, rfl, others⟩ := List.find?_eq_some_iff_append.mp found
  have none_in_front : ∀ e ∈ front, ¬ p e = true := by simpa using others
  rw [List.eraseP_append_right _ none_in_front, List.eraseP_cons_of_pos is, List.append_assoc]
  exact .append_left front (List.perm_append_singleton entry back)

/-- Without entries of the same path, an eviction leaves none of its path. -/
theorem Tidy.of_once {cache : ParseCache (ParseEntry Tree)}
    (room : cache.entries.length ≤ cache.capacity) (once : cache.paths.Nodup) : cache.Tidy := by
  -- Room and distinct paths are given, so only the eviction is left to look at.
  refine ⟨room, once, ?_⟩
  intro path
  by_cases full : cache.capacity = 0
  · -- A cache without room has no entry at all.
    have none_left : cache.entries = [] := by
      rw [full] at room
      exact List.eq_nil_of_length_eq_zero (Nat.le_zero.mp room)
    simp [evict, full, paths, none_left]
  · rw [paths_evict full]
    exact once.not_mem_erase

/-- An eviction keeps the cache tidy. -/
theorem Tidy.evict {cache : ParseCache (ParseEntry Tree)} (tidy : cache.Tidy) (path : AbsPath) :
    (cache.evict path).Tidy := by
  -- An eviction takes an entry out, if it does anything.
  by_cases full : cache.capacity = 0
  · rwa [ParseCache.evict, if_pos full]
  · refine .of_once ?_ ?_
    · rw [ParseCache.evict, if_neg full]
      exact Nat.le_trans List.eraseP_sublist.length_le tidy.room
    · rw [paths_evict full]
      exact tidy.once.erase path

/-- A lookup moves an entry to the end, takes it out or leaves the cache as it is. -/
theorem Tidy.lookup {cache : ParseCache (ParseEntry Tree)} (tidy : cache.Tidy) (path : AbsPath)
    (stamp : FileStamp) (language : Language) : (cache.lookup path stamp language).2.Tidy := by
  rw [ParseCache.lookup]
  -- The three ways out of the lookup.
  split
  · exact tidy
  · rename_i own entry found
    have erased := List.eraseP_sublist (p := fun e => decide (e.1 = path)) (l := cache.entries)
    split
    · -- The entries are the same ones in another order.
      have here : own = path := by simpa using List.find?_some found
      subst here
      have same := perm_eraseP_append found
      exact .of_once (same.length_eq ▸ tidy.room) ((same.map Prod.fst).nodup_iff.mpr tidy.once)
    · refine .of_once (Nat.le_trans erased.length_le tidy.room) ?_
      exact tidy.once.sublist (erased.map Prod.fst)

/-- An insertion keeps the cache tidy exactly if no entry of its path stays. -/
theorem tidy_insert_iff {cache : ParseCache (ParseEntry Tree)} (tidy : cache.Tidy)
    (some_room : cache.capacity ≠ 0) (path : AbsPath) (entry : ParseEntry Tree) :
    (cache.insert path entry).Tidy ↔ path ∉ cache.staying.map Prod.fst := by
  -- The entries that stay are the last ones, and the new one comes behind them.
  have stay : (cache.staying.map Prod.fst).Nodup :=
    tidy.once.sublist ((List.drop_sublist _ _).map Prod.fst)
  have inserted : (cache.insert path entry).paths = cache.staying.map Prod.fst ++ [path] := by
    rw [paths, ParseCache.insert, List.map_append]
    rfl
  constructor
  · intro after
    have once := after.once
    rw [inserted, List.nodup_append] at once
    intro member
    exact once.2.2 path member path List.mem_cons_self rfl
  · intro fresh
    refine .of_once ?_ ?_
    · -- Room for one more was made before.
      have length : (cache.insert path entry).entries.length = cache.staying.length + 1 := by
        rw [ParseCache.insert, List.length_append]
        rfl
      have room := tidy.room
      rw [length, staying, List.length_drop]
      show _ ≤ cache.capacity
      omega
    · rw [inserted, List.nodup_append]
      refine ⟨stay, List.nodup_singleton _, ?_⟩
      intro other member own same
      rw [List.mem_singleton.mp same]
      exact fun equal => fresh (equal ▸ member)

end ParseCache

namespace Parses

variable {Tree : Type} {treeSitter : TreeSitter Tree}

/-- What a step does to the cache. -/
inductive Touches (s : Parses Tree) : Action → ParseCache (ParseEntry Tree) → Prop where
  /-- Insertions leave only a cache without room as it is. -/
  | keeps {action} (kept : ∀ i, action = .insert i → s.cache.capacity = 0) : Touches s action s.cache
  | evicts (path) : Touches s (.evict path) (s.cache.evict path)
  | looks (i path stamp language) :
      Touches s (.lookup i) (s.cache.lookup path stamp language).2
  | inserts {i call} (entry) (here : s.calls[i]? = some call) (some_room : s.cache.capacity ≠ 0) :
      Touches s (.insert i) (s.cache.insert call.path entry)

/-- Nothing else is done to it. -/
theorem step_touches {s next : Parses Tree} {action : Action}
    (taken : s.step treeSitter action = some next) : Touches s action next.cache := by
  -- Only three of the steps of a call are taken under the lock.
  cases action with
  | modify path file =>
    cases taken
    exact .keeps (by simp)
  | evict path =>
    cases taken
    exact .evicts path
  | call path =>
    cases taken
    exact .keeps (by simp)
  | stat i =>
    have same : next.cache = s.cache := by
      simp only [step] at taken
      split at taken
      · split at taken
        · split at taken
          · cases taken
            rfl
          · split at taken <;> cases taken <;> rfl
        · cases taken
      · cases taken
    rw [same]
    exact .keeps (by simp)
  | lookup i =>
    simp only [step] at taken
    split at taken
    · rename_i call here
      split at taken
      · rename_i stamp language phase
        split at taken
        · cases taken
          exact .keeps (by simp)
        · -- Found or not, the cache is what the lookup has made of it.
          have looks := Touches.looks (s := s) i call.path stamp language
          split at taken <;> rename_i result <;> cases taken <;> rw [result] at looks <;>
            exact looks
      · cases taken
    · cases taken
  | read i =>
    have same : next.cache = s.cache := by
      simp only [step] at taken
      split at taken
      · split at taken
        · split at taken
          · cases taken
          · split at taken <;> cases taken <;> rfl
        · cases taken
      · cases taken
    rw [same]
    exact .keeps (by simp)
  | insert i =>
    simp only [step] at taken
    split at taken
    · rename_i call here
      split at taken
      · rename_i stamp parsed phase
        cases taken
        by_cases full : s.cache.capacity = 0
        · simp only [callStep, if_pos full]
          exact .keeps fun _ _ => full
        · simp only [callStep, if_neg full]
          exact .inserts _ here full
      · cases taken
    · cases taken
  | fail i message =>
    have same : next.cache = s.cache := by
      simp only [step] at taken
      split at taken
      · split at taken <;> cases taken <;> rfl
      · cases taken
    rw [same]
    exact .keeps (by simp)

/-- A parse that is kept is of a path of which nothing stays in the cache. -/
def InsertsFresh (s : Parses Tree) : Action → Prop
  | .insert i => s.cache.capacity ≠ 0 →
      ∀ call ∈ s.calls[i]?, call.path ∉ s.cache.staying.map Prod.fst
  | _ => True

/-- A step keeps the cache tidy exactly if it does not keep a path twice. -/
theorem tidy_step_iff {s next : Parses Tree} {action : Action}
    (taken : s.step treeSitter action = some next) (tidy : s.cache.Tidy) :
    next.cache.Tidy ↔ InsertsFresh s action := by
  have touched := step_touches taken
  generalize next.cache = cache at touched ⊢
  -- Only an insertion can put a path into the cache that is there already.
  cases touched with
  | keeps same =>
    refine iff_of_true tidy ?_
    cases action with
    | insert i => exact fun some_room => absurd (same i rfl) some_room
    | _ => trivial
  | evicts path => exact iff_of_true (tidy.evict path) trivial
  | looks i path stamp language => exact iff_of_true (tidy.lookup path stamp language) trivial
  | inserts entry here some_room =>
    rw [ParseCache.tidy_insert_iff tidy some_room]
    simp only [InsertsFresh, here, some_room, Option.mem_some_iff, forall_eq', ne_eq,
      not_false_eq_true, forall_const]

/--
Whatever the calls, evictions and changes of files, the cache never holds more than it may, nor a
path twice, and an eviction leaves nothing of its path, exactly if each parse that is kept is of a
path of which nothing stays in the cache.
-/
theorem visits_tidy_iff (treeSitter : TreeSitter Tree) (capacity : Nat) (disk : Disk SourceFile)
    (actions : List Action) :
    Visits (step treeSitter) (fun s => s.cache.Tidy) (start capacity disk) actions ↔
      Along (step treeSitter) InsertsFresh (start capacity disk) actions := by
  have first : (start capacity disk : Parses Tree).cache.Tidy :=
    .of_once (Nat.zero_le _) List.nodup_nil
  exact visits_iff_along (fun _ _ _ taken tidy => tidy_step_iff taken tidy) first

/-- Two lookups of a file miss before either of them keeps its parse. -/
def doubleMissRun : List Action :=
  [.call sourcePath, .call sourcePath, .stat 0, .stat 1, .lookup 0, .lookup 1, .read 0, .read 1,
    .insert 0, .insert 1]

/-- Both parses are kept, and an eviction leaves one of them. -/
theorem doubleMiss_leaves_entry :
    (run (step lengthParser) (start 2 sourceDisk) doubleMissRun).map (fun s => s.cache.paths) =
        some [sourcePath, sourcePath] ∧
      (run (step lengthParser) (start 2 sourceDisk) (doubleMissRun ++ [.evict sourcePath])).map
        (fun s => s.cache.paths) = some [sourcePath] :=
  ⟨rfl, rfl⟩

end Parses

end McpCli
