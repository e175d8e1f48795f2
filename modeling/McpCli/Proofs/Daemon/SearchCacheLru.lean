import McpCli.Listing.Recency
import McpCli.Proofs.Daemon.SearchCache

/-! The cache of search results against its history: the values of the keys used last. -/

namespace McpCli.SearchCache

open Listing

variable {Key Value : Type} [DecidableEq Key]

/-- The calls since the cache was switched to a version. -/
def sinceSwitch (version : Nat) (history : List (Event Key Value)) : List (Event Key Value) :=
  history.rtakeWhile fun event => event.call.version = version

/-- The key that a call has used: the one that was inserted, or the one that was found. -/
def Event.use : Event Key Value → Option Key
  | { call := .insert _ key _, .. } => some key
  | { call := .get _ key, answer } => if answer.isSome then some key else none

/-- The keys that calls have used. -/
def uses (events : List (Event Key Value)) : List Key := events.filterMap Event.use

/-- The value that was inserted last for a key. -/
def lastInserted (key : Key) (events : List (Event Key Value)) : Option Value :=
  events.reverse.findSome? fun event =>
    match event.call with
    | .insert _ other value => if other = key then some value else none
    | .get _ _ => none

/-- What is found under a version for a key, judged by the history alone. -/
def reference (capacity : Nat) (history : List (Event Key Value)) (version : Nat) (key : Key) :
    Option Value :=
  let events := sinceSwitch version history
  if othersSince key (uses events) < capacity then lastInserted key events else none

omit [DecidableEq Key] in
/-- Room is made by dropping the entries in front. -/
theorem makeRoom_eq (capacity : Nat) (entries : List (Key × Value)) :
    makeRoom (capacity + 1) entries = entries.rtake capacity := by
  -- The first entry goes as long as there are too many.
  induction entries with
  | nil => rw [makeRoom, List.rtake_nil]
  | cons entry rest ih =>
    rw [makeRoom]
    split
    · rename_i full
      rw [List.length_cons] at full
      rw [ih, List.rtake, List.rtake, List.length_cons,
        Nat.succ_sub (Nat.le_of_succ_le_succ full), List.drop_succ_cons]
    · rename_i short
      rw [List.rtake, Nat.sub_eq_zero_of_le (by omega), List.drop_zero]

/-- Of the entries, the one of a key is taken out like the key of the keys. -/
theorem map_fst_eraseP (key : Key) (entries : List (Key × Value)) :
    (entries.eraseP fun entry => entry.1 = key).map Prod.fst =
      (entries.map Prod.fst).erase key := by
  induction entries with
  | nil => rfl
  | cons entry rest ih =>
    -- Both take out the first one that has the key.
    by_cases same : entry.1 = key
    · rw [List.eraseP_cons_of_pos (by simpa using same), List.map_cons, same,
        List.erase_cons_head]
    · rw [List.eraseP_cons_of_neg (by simpa using same), List.map_cons, List.map_cons, ih,
        List.erase_cons_tail (by simpa using same)]

omit [DecidableEq Key] in
/-- A call under a version is one since the switch to it, and a call under another one is a switch. -/
theorem sinceSwitch_concat (version : Nat) (history : List (Event Key Value))
    (event : Event Key Value) :
    sinceSwitch version (history ++ [event]) =
      if event.call.version = version then sinceSwitch version history ++ [event] else [] := by
  rw [sinceSwitch, List.rtakeWhile_concat]
  simp [sinceSwitch]

omit [DecidableEq Key] in
/-- A call that uses a key is the last one to use a key. -/
theorem uses_concat (events : List (Event Key Value)) (event : Event Key Value) :
    uses (events ++ [event]) = uses events ++ event.use.toList := by
  rw [uses, List.filterMap_append, uses]
  cases used : event.use <;> simp [used]

/-- The last insertion for a key is the one that is made now, if it is for that key. -/
theorem lastInserted_concat (key : Key) (events : List (Event Key Value))
    (event : Event Key Value) :
    lastInserted key (events ++ [event]) =
      match event.call with
      | .insert _ other value => if other = key then some value else lastInserted key events
      | .get _ _ => lastInserted key events := by
  rw [lastInserted, List.reverse_append, List.reverse_singleton, List.singleton_append,
    List.findSome?_cons]
  -- A lookup inserts nothing.
  cases event.call with
  | get version other => rfl
  | insert version other value =>
    by_cases same : other = key
    · simp [same]
    · simp [same, lastInserted]

/-- A key for which something was inserted was used. -/
theorem mem_uses_of_inserted {key : Key} {events : List (Event Key Value)} {value : Value}
    (inserted : lastInserted key events = some value) : key ∈ uses events := by
  -- The induction takes the calls from the last one on.
  induction events using List.reverseRecOn with
  | nil => cases inserted
  | append_singleton events event ih =>
    rw [lastInserted_concat] at inserted
    rw [uses_concat, List.mem_append]
    obtain ⟨what, answer⟩ := event
    cases what with
    | get version other => exact .inl (ih inserted)
    | insert version other fresh =>
      simp only at inserted
      split at inserted
      · rename_i same
        exact .inr (by simp [Event.use, same])
      · exact .inl (ih inserted)

/-- The entries belong to the calls made under a version since the cache was switched to it. -/
structure Holds (capacity : Nat) (entries : List (Key × Value)) (events : List (Event Key Value)) :
    Prop where
  keys : entries.map Prod.fst = recent capacity (uses events)
  values : ∀ entry ∈ entries, lastInserted entry.1 events = some entry.2

/-- What a cache holds, as its history says. -/
structure Follows (cache : SearchCache Key Value) (history : List (Event Key Value)) : Prop where
  version : ∀ event ∈ history.getLast?, cache.capacity ≠ 0 → event.call.version = cache.version
  holds : Holds cache.capacity cache.entries (sinceSwitch cache.version history)

/-- No key is held twice. -/
theorem Holds.nodup {capacity : Nat} {entries : List (Key × Value)}
    {events : List (Event Key Value)} (holds : Holds capacity entries events) :
    (entries.map Prod.fst).Nodup := by
  rw [holds.keys]
  exact (List.nodup_dedup _).sublist (List.drop_sublist _ _)

/-- No more entries are held than there is room for. -/
theorem Holds.length_le {capacity : Nat} {entries : List (Key × Value)}
    {events : List (Event Key Value)} (holds : Holds capacity entries events) :
    entries.length ≤ capacity := by
  rw [← List.length_map (f := Prod.fst), holds.keys, recent, List.rtake, List.length_drop]
  omega

/-- Nothing is held when nothing was done. -/
theorem Holds.nil (capacity : Nat) : Holds capacity ([] : List (Key × Value)) [] where
  keys := by simp [recent, uses]
  values := fun entry mem => by cases mem

/-- A key is held exactly if it was used and not too many other ones since. -/
theorem Holds.mem_keys {capacity : Nat} {entries : List (Key × Value)}
    {events : List (Event Key Value)} (holds : Holds capacity entries events) (key : Key) :
    key ∈ entries.map Prod.fst ↔ key ∈ uses events ∧ othersSince key (uses events) < capacity := by
  rw [holds.keys, mem_recent]

/-- A lookup finds what the history says. -/
theorem Holds.find {capacity : Nat} {entries : List (Key × Value)}
    {events : List (Event Key Value)} (holds : Holds capacity entries events) (key : Key) :
    (entries.find? fun entry => entry.1 = key).map Prod.snd =
      if othersSince key (uses events) < capacity then lastInserted key events else none := by
  have held := holds.mem_keys key
  -- Whether the key is held decides what a lookup finds.
  cases found : entries.find? fun entry => entry.1 = key with
  | none =>
    have absent : key ∉ entries.map Prod.fst := by
      intro mem
      obtain ⟨entry, there, same⟩ := List.mem_map.mp mem
      exact List.find?_eq_none.mp found entry there (by simpa using same)
    rw [held] at absent
    split
    · rename_i few
      -- A key that nobody used was not inserted either.
      cases inserted : lastInserted key events with
      | none => rfl
      | some value => exact absurd ⟨mem_uses_of_inserted inserted, few⟩ absent
    · rfl
  | some entry =>
    have there := List.mem_of_find?_eq_some found
    have same : entry.1 = key := by simpa using List.find?_some found
    have few := (held.mp (same ▸ List.mem_map_of_mem there)).2
    rw [if_pos few, ← same, holds.values entry there]
    rfl

/-- A use of a key that is held, or a new one, moves it to the end. -/
theorem Holds.use {capacity : Nat} {entries : List (Key × Value)} {events : List (Event Key Value)}
    (holds : Holds (capacity + 1) entries events) {event : Event Key Value} {key : Key}
    {value : Value} (used : event.use = some key)
    (own : lastInserted key (events ++ [event]) = some value)
    (others : ∀ other, other ≠ key →
      lastInserted other (events ++ [event]) = lastInserted other events) :
    Holds (capacity + 1)
      ((entries.eraseP fun entry => entry.1 = key).rtake capacity ++ [(key, value)])
      (events ++ [event]) where
  keys := by
    -- Taking entries out and keeping the last ones does the same to the keys.
    have left : ((entries.eraseP fun entry => entry.1 = key).rtake capacity).map Prod.fst =
        ((entries.map Prod.fst).erase key).rtake capacity := by
      rw [← map_fst_eraseP, List.rtake, List.rtake, List.map_drop, List.length_map]
    rw [List.map_append, left, holds.keys, uses_concat, used, Option.toList_some, recent_concat]
    rfl
  values := by
    intro entry mem
    rcases List.mem_append.mp mem with old | now
    · have there : entry ∈ entries.eraseP fun entry => entry.1 = key := List.mem_of_mem_drop old
      -- The key itself was taken out, and no key is there twice.
      have other : entry.1 ≠ key := by
        intro same
        have mem := List.mem_map_of_mem (f := Prod.fst) there
        rw [map_fst_eraseP, same] at mem
        exact holds.nodup.not_mem_erase mem
      rw [others entry.1 other]
      exact holds.values entry (List.mem_of_mem_eraseP there)
    · rw [List.mem_singleton.mp now]
      exact own

/-- A lookup that finds nothing uses nothing. -/
theorem Holds.miss {capacity : Nat} {entries : List (Key × Value)} {events : List (Event Key Value)}
    (holds : Holds capacity entries events) (version : Nat) (key : Key) :
    Holds capacity entries (events ++ [{ call := .get version key, answer := none }]) where
  keys := by
    -- The keys that are used are those of before, and so are the insertions.
    rw [uses_concat, holds.keys]
    simp [Event.use]
  values := by
    intro entry mem
    rw [lastInserted_concat]
    exact holds.values entry mem

/-- A cache that is asked under a version follows the calls since the switch to it. -/
theorem Follows.flush {cache : SearchCache Key Value} {history : List (Event Key Value)}
    (follows : cache.Follows history) (positive : cache.capacity ≠ 0) (version : Nat) :
    Holds cache.capacity (if cache.version ≠ version then [] else cache.entries)
      (sinceSwitch version history) := by
  by_cases same : cache.version = version
  · rw [if_neg (not_not_intro same), ← same]
    exact follows.holds
  · -- The call before was made under another version, so there is none since the switch.
    rw [if_pos same]
    have none_since : sinceSwitch version history = [] := by
      rcases List.eq_nil_or_concat' history with rfl | ⟨front, last, rfl⟩
      · rfl
      · have latest := follows.version last (by simp) positive
        rw [sinceSwitch_concat, if_neg (by rw [latest]; exact same)]
    rw [none_since]
    exact Holds.nil _

/-- Without room, nothing is held, whatever was done. -/
theorem Holds.no_room {entries : List (Key × Value)} {events : List (Event Key Value)}
    (holds : Holds 0 entries events) (others : List (Event Key Value)) :
    Holds 0 entries others := by
  have empty : entries = [] := List.length_eq_zero_iff.mp (Nat.le_zero.mp holds.length_le)
  subst empty
  exact ⟨by simp [recent], fun entry mem => by cases mem⟩

/-- A cache follows a history with one more call when it holds what the calls since the switch say. -/
theorem Follows.of_holds {next : SearchCache Key Value} {history : List (Event Key Value)}
    {event : Event Key Value} (version : event.call.version = next.version)
    (holds : Holds next.capacity next.entries (sinceSwitch next.version history ++ [event])) :
    next.Follows (history ++ [event]) where
  version := by
    intro latest mem _
    -- The call now is the last one.
    rw [List.getLast?_concat] at mem
    cases mem
    exact version
  holds := by
    rw [sinceSwitch_concat, if_pos version]
    exact holds

/-- What a lookup finds when there is room, and what it leaves behind. -/
theorem get_of_positive {cache : SearchCache Key Value} (positive : cache.capacity ≠ 0)
    (version : Nat) (key : Key) :
    let entries := if cache.version ≠ version then [] else cache.entries
    cache.get version key =
      match entries.find? fun entry => entry.1 = key with
      | none => (none, { cache with version, entries })
      | some entry => (some entry.2,
          { cache with
            version
            entries := (entries.eraseP fun entry => entry.1 = key) ++ [entry] }) := by
  unfold SearchCache.get
  rw [if_neg positive]
  -- Under another version, all entries are dropped before the lookup.
  by_cases same : cache.version = version
  · subst same
    cases found : cache.entries.find? fun entry => entry.1 = key with
    | none => simp [found]
    | some entry => simp [found]
  · simp only [ne_eq, same, not_false_eq_true, if_true, List.find?_nil]

/-- A lookup finds what the history says, and the cache follows the history with it. -/
theorem Follows.get {cache : SearchCache Key Value} {history : List (Event Key Value)}
    (follows : cache.Follows history) (version : Nat) (key : Key) :
    (cache.get version key).1 = reference cache.capacity history version key ∧
    (cache.get version key).2.Follows
      (history ++ [{ call := .get version key, answer := (cache.get version key).1 }]) := by
  by_cases positive : cache.capacity = 0
  · rw [SearchCache.get, if_pos positive]
    refine ⟨by simp [reference, positive], fun _ _ room => absurd positive room, ?_⟩
    have holds := follows.holds
    rw [positive] at holds ⊢
    exact holds.no_room _
  · -- What is held belongs to the calls since the switch to the version that is asked for.
    have flushed := follows.flush positive version
    have found := flushed.find key
    rw [get_of_positive positive]
    generalize (if cache.version ≠ version then [] else cache.entries) = entries at *
    rw [reference, ← found]
    -- A key that is found moves to the end, and nothing else changes.
    cases hit : entries.find? fun entry => entry.1 = key with
    | none => exact ⟨rfl, .of_holds rfl (flushed.miss version key)⟩
    | some entry =>
      refine ⟨rfl, .of_holds rfl ?_⟩
      have there := List.mem_of_find?_eq_some hit
      have same : entry.1 = key := by simpa using List.find?_some hit
      obtain ⟨room, enough⟩ := Nat.exists_eq_succ_of_ne_zero positive
      rw [enough] at flushed
      -- A lookup inserts nothing, so the last insertions are those of before.
      have moved := @Holds.use _ _ _ room entries _ flushed
        { call := .get version key, answer := some entry.2 } key entry.2 rfl
        (by rw [lastInserted_concat, ← same]; exact flushed.values entry there)
        (fun other _ => by rw [lastInserted_concat])
      have shorter : (entries.eraseP fun entry => entry.1 = key).length ≤ room := by
        rw [List.length_eraseP_of_mem there (by simpa using same)]
        exact Nat.sub_le_of_le_add flushed.length_le
      have whole : (key, entry.2) = entry := by rw [← same]
      rw [List.rtake, Nat.sub_eq_zero_of_le shorter, List.drop_zero, whole] at moved
      simp only [enough]
      exact moved

/-- After an insertion, the cache follows the history with it. -/
theorem Follows.insert {cache : SearchCache Key Value} {history : List (Event Key Value)}
    (follows : cache.Follows history) (version : Nat) (key : Key) (value : Value) :
    (cache.insert version key value).Follows
      (history ++ [{ call := .insert version key value, answer := none }]) := by
  rw [SearchCache.insert]
  split
  · rename_i positive
    refine ⟨fun _ _ room => absurd positive room, ?_⟩
    have holds := follows.holds
    rw [positive] at holds ⊢
    exact holds.no_room _
  · rename_i positive
    -- An insertion is a use of its key, whether it was held or not.
    have flushed := follows.flush positive version
    obtain ⟨room, enough⟩ := Nat.exists_eq_succ_of_ne_zero positive
    refine .of_holds rfl ?_
    simp only [enough] at flushed ⊢
    rw [Nat.succ_eq_add_one, makeRoom_eq]
    exact flushed.use rfl (by simp [lastInserted_concat])
      (fun other different => by simp [lastInserted_concat, Ne.symm different])

/-- A call does not change how much room there is. -/
theorem call_capacity (cache : SearchCache Key Value) (what : Call Key Value) :
    (cache.call what).2.capacity = cache.capacity := by
  -- A lookup moves or drops entries, and an insertion makes room by dropping one.
  cases what with
  | get version key =>
    show (cache.get version key).2.capacity = _
    unfold SearchCache.get
    split
    · rfl
    · split
      · rfl
      · split <;> rfl
  | insert version key value =>
    show (cache.insert version key value).capacity = _
    unfold SearchCache.insert
    split <;> rfl

/-- After every call, the cache follows the history with it. -/
theorem Follows.call {cache : SearchCache Key Value} {history : List (Event Key Value)}
    (follows : cache.Follows history) (what : Call Key Value) :
    (cache.call what).2.Follows (history ++ [(cache.call what).1]) := by
  cases what with
  | get version key => exact (follows.get version key).2
  | insert version key value => exact follows.insert version key value

/-- After a run of calls, the cache follows the whole history. -/
theorem Follows.callsFrom {cache : SearchCache Key Value} {history : List (Event Key Value)}
    (follows : cache.Follows history) (whats : List (Call Key Value)) :
    (SearchCache.callsFrom history cache whats).2.Follows
      (SearchCache.callsFrom history cache whats).1 ∧
    (SearchCache.callsFrom history cache whats).2.capacity = cache.capacity := by
  -- Each call moves the cache and its history one step forward.
  induction whats generalizing cache history with
  | nil => exact ⟨follows, rfl⟩
  | cons what rest ih =>
    obtain ⟨later, room⟩ := ih (follows.call what)
    exact ⟨later, room.trans (call_capacity cache what)⟩

/--
After every sequence of calls, a lookup finds the value that was inserted last since the cache was
switched to the version, if fewer other keys than there is room for were used since the key was,
and nothing otherwise. All entries are of the version of the latest call, no key has two of them,
and there are no more of them than there is room for.
-/
theorem calls_lru (capacity : Nat) (whats : List (Call Key Value)) :
    let history := (calls capacity whats).1
    let cache := (calls capacity whats).2
    (∀ version key, (cache.get version key).1 = reference capacity history version key) ∧
    (∀ entry ∈ cache.entries, ∃ latest ∈ history.getLast?,
      latest.call.version = cache.version ∧
        lastInserted entry.1 (sinceSwitch latest.call.version history) = some entry.2) ∧
    (cache.entries.map Prod.fst).Nodup ∧ cache.entries.length ≤ capacity := by
  have start : (new capacity : SearchCache Key Value).Follows [] :=
    ⟨by simp, Holds.nil capacity⟩
  have follows : (calls capacity whats).2.Follows (calls capacity whats).1 :=
    (start.callsFrom whats).1
  have room : (calls capacity whats).2.capacity = capacity := (start.callsFrom whats).2
  -- All three are read off what the cache holds after the whole history.
  refine ⟨fun version key => ?_, fun entry mem => ?_, follows.holds.nodup, ?_⟩
  · rw [(follows.get version key).1, room]
  · -- An entry was inserted since the switch, so there was a call.
    have inserted := follows.holds.values entry mem
    have some_room : (calls capacity whats).2.capacity ≠ 0 := by
      have few := follows.holds.length_le
      have some_entry := List.length_pos_of_mem mem
      omega
    cases latest : (calls capacity whats).1.getLast? with
    | none =>
      rw [List.getLast?_eq_none_iff.mp latest] at inserted
      cases inserted
    | some event =>
      have same := follows.version event latest some_room
      refine ⟨event, rfl, same, ?_⟩
      rw [same]
      exact inserted
  · exact Nat.le_trans follows.holds.length_le (Nat.le_of_eq room)

end McpCli.SearchCache
