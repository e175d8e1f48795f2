import Mathlib.Data.Nat.Notation
import Mathlib.Data.List.Basic

/-! The small cache of `search.grep` answers, good for one version of the log. -/

namespace McpCli

/-- The cached values, and the version of the log that they belong to. -/
structure SearchCache (Key Value : Type) where
  version : Nat
  /-- The least recently used entry comes first. -/
  entries : List (Key × Value)
  capacity : Nat

namespace SearchCache

variable {Key Value : Type} [DecidableEq Key]

/-- An empty cache. -/
def new (capacity : Nat) : SearchCache Key Value := { version := 0, entries := [], capacity }

/-- Look a key up under a version, flushing what belongs to another one. -/
def get (cache : SearchCache Key Value) (version : Nat) (key : Key) :
    Option Value × SearchCache Key Value :=
  if cache.capacity = 0 then (none, cache)
  else if cache.version ≠ version then (none, { cache with version, entries := [] })
  else
    match cache.entries.find? fun entry => entry.1 = key with
    | none => (none, cache)
    | some entry =>
      -- The entry moves to the end of those that were used most recently.
      let others := cache.entries.eraseP fun entry => entry.1 = key
      (some entry.2, { cache with entries := others ++ [entry] })

/-- Drop the entries in front for as long as there are too many to take another one. -/
def makeRoom (capacity : Nat) : List (Key × Value) → List (Key × Value)
  | [] => []
  | entry :: rest =>
    if capacity ≤ (entry :: rest).length then makeRoom capacity rest else entry :: rest

/-- Enter a value under a version, flushing what belongs to another one. -/
def insert (cache : SearchCache Key Value) (version : Nat) (key : Key) (value : Value) :
    SearchCache Key Value :=
  if cache.capacity = 0 then cache
  else
    let entries := if cache.version ≠ version then [] else cache.entries
    let others := entries.eraseP fun entry => entry.1 = key
    { cache with version, entries := makeRoom cache.capacity others ++ [(key, value)] }

/-- A call on the cache. -/
inductive Call (Key Value : Type) where
  | get (version : Nat) (key : Key)
  | insert (version : Nat) (key : Key) (value : Value)

/-- The version that a call is made under. -/
def Call.version : Call Key Value → Nat
  | .get version _ | .insert version _ _ => version

/-- A call that was made. -/
structure Event (Key Value : Type) where
  call : Call Key Value
  /-- What a lookup has found. -/
  answer : Option Value

/-- Make one call. -/
def call (cache : SearchCache Key Value) (what : Call Key Value) :
    Event Key Value × SearchCache Key Value :=
  match what with
  | .get version key =>
    let (answer, cache) := cache.get version key
    ({ call := what, answer }, cache)
  | .insert version key value => ({ call := what, answer := none }, cache.insert version key value)

/-- Make one call after another, after the calls that were made before. -/
def callsFrom (history : List (Event Key Value)) (cache : SearchCache Key Value) :
    List (Call Key Value) → List (Event Key Value) × SearchCache Key Value
  | [] => (history, cache)
  | what :: rest =>
    let (event, cache) := cache.call what
    callsFrom (history ++ [event]) cache rest

/-- Make one call after another on a new cache. -/
def calls (capacity : Nat) (whats : List (Call Key Value)) :
    List (Event Key Value) × SearchCache Key Value :=
  callsFrom [] (new capacity) whats

end SearchCache

end McpCli
