import Mathlib.Data.List.Induction
import Mathlib.Data.List.Nodup
import Mathlib.Logic.Function.Basic

/-! Event lists keyed by what they speak about: first and last word on a key, and replay. -/

namespace Journal

variable {Event Key Value : Type*} [DecidableEq Key]

/-- The earliest event about a key. -/
def firstFor (key : Event → Key) (k : Key) (events : List Event) : Option Event :=
  -- The list is oldest first, so the first match is the earliest one.
  events.find? fun e => key e = k

/-- The most recent event about a key. -/
def lastFor (key : Event → Key) (k : Key) (events : List Event) : Option Event :=
  -- Searching from the newest end meets the most recent match first.
  events.reverse.find? fun e => key e = k

/-- Hold, for every key, the value its most recent event gave it. -/
def replay (key : Event → Key) (value : Event → Value) (held : Key → Value)
    (events : List Event) : Key → Value :=
  -- Events are applied oldest first, each overwriting its own key alone.
  events.foldl (fun held e => Function.update held (key e) (value e)) held

section
variable (key : Event → Key) (value : Event → Value)

@[simp] theorem firstFor_nil (k : Key) : firstFor key k [] = none := rfl

@[simp] theorem lastFor_nil (k : Key) : lastFor key k [] = none := rfl

/-- The earliest event of a joined list is sought in the older part first. -/
theorem firstFor_append (k : Key) (older newer : List Event) :
    firstFor key k (older ++ newer) = (firstFor key k older).or (firstFor key k newer) := by
  -- The search goes left to right through both parts.
  simp [firstFor, List.find?_append]

/-- The latest event of a joined list is sought in the newer part first. -/
theorem lastFor_append (k : Key) (older newer : List Event) :
    lastFor key k (older ++ newer) = (lastFor key k newer).or (lastFor key k older) := by
  -- Reversal turns the joined list around part by part.
  simp [lastFor, List.find?_append]

/-- One more event is the latest about its own key and leaves every other key as it was. -/
theorem lastFor_concat (k : Key) (events : List Event) (e : Event) :
    lastFor key k (events ++ [e]) = if key e = k then some e else lastFor key k events := by
  -- The appended event is the first one met from the newest end.
  by_cases same : key e = k
  · simp [lastFor, same]
  · simp [lastFor, same]

/-- The latest event about a key is a member of the list that speaks about that key. -/
theorem lastFor_spec {k : Key} {events : List Event} {e : Event}
    (found : lastFor key k events = some e) : e ∈ events ∧ key e = k := by
  -- Reversal changes the order of the members but not which they are.
  exact ⟨List.mem_reverse.mp (List.mem_of_find?_eq_some found),
    by simpa using List.find?_some found⟩

/-- There is no latest event about a key exactly when nothing speaks about it. -/
theorem lastFor_eq_none {k : Key} {events : List Event} :
    lastFor key k events = none ↔ ∀ e ∈ events, key e ≠ k := by
  -- The search fails when every member fails its test.
  simp [lastFor, List.find?_eq_none]

/-- There is no earliest event about a key exactly when nothing speaks about it. -/
theorem firstFor_eq_none {k : Key} {events : List Event} :
    firstFor key k events = none ↔ ∀ e ∈ events, key e ≠ k := by
  -- The search fails when every member fails its test.
  simp [firstFor, List.find?_eq_none]

/-- A key has an earliest event exactly when it has a latest one. -/
theorem firstFor_isSome_iff {k : Key} {events : List Event} :
    (firstFor key k events).isSome ↔ (lastFor key k events).isSome := by
  -- Both searches fail together, on the lists that never mention the key.
  rw [← not_iff_not]
  simp only [Option.not_isSome_iff_eq_none, firstFor_eq_none, lastFor_eq_none]

/-- When no two events share a key, every member is the latest event about its own key. -/
theorem lastFor_of_unique {events : List Event} (unique : (events.map key).Nodup) {e : Event}
    (member : e ∈ events) : lastFor key (key e) events = some e := by
  -- The latest event about this key is a member with the same key, hence this one.
  cases found : lastFor key (key e) events with
  | none => exact absurd rfl ((lastFor_eq_none key).mp found e member)
  | some other =>
    obtain ⟨inside, same⟩ := lastFor_spec key found
    rw [List.inj_on_of_nodup_map unique inside member same]

/-- Replay leaves each key with the value of its latest event, or as it was without one. -/
theorem replay_eq_lastFor (held : Key → Value) (events : List Event) (k : Key) :
    replay key value held events k = ((lastFor key k events).map value).getD (held k) := by
  -- The induction adds the newest event last, where both sides look first.
  induction events using List.reverseRecOn with
  | nil => rfl
  | append_singleton events e ih =>
    rw [lastFor_concat]
    simp only [replay, List.foldl_append, List.foldl_cons, List.foldl_nil] at ih ⊢
    by_cases same : key e = k
    · subst same
      simp
    · rw [if_neg same, Function.update_of_ne (Ne.symm same)]
      exact ih

/-- Replaying starts by giving the oldest event's key its value. -/
theorem replay_cons (held : Key → Value) (e : Event) (events : List Event) :
    replay key value held (e :: events) =
      replay key value (Function.update held (key e) (value e)) events := rfl

/-- Replaying a joined list is replaying its parts in order. -/
theorem replay_append (held : Key → Value) (older newer : List Event) :
    replay key value held (older ++ newer) =
      replay key value (replay key value held older) newer := by
  -- A left fold over a joined list continues from where the first part ended.
  simp [replay, List.foldl_append]

end

end Journal
