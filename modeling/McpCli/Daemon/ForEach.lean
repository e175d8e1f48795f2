import Mathlib.Data.List.Basic
import McpCli.Protocol.Messages

/-! A `for_each` step of a pipe, which dispatches its items side by side. -/

namespace McpCli

/-- How many items are dispatched side by side when the step does not say. -/
def forEachDefaultConcurrency : Nat := 8

/-- How many items are dispatched side by side at most. -/
def forEachMaxConcurrency : Nat := 64

/-- What a task of the join set ends with. -/
inductive JoinResult (Value : Type) where
  /-- It returned the result of its item. -/
  | returned (result : Except RpcError Value)
  | panicked (message : String)
  | cancelled

/-- The task of one item. -/
inductive ForEachTask (Params Value : Type) where
  /-- A dispatch that waits for a thread, with its permit. -/
  | queued (params : Params)
  | running
  /-- It has ended, and its permit is released. -/
  | ended (joined : JoinResult Value)
  /-- The join loop has taken what it ended with. -/
  | taken (joined : JoinResult Value)

/-- A `for_each` step under way. -/
structure ForEach (Params Value : Type) where
  /-- The parameters of each item, with its references resolved. -/
  items : List (Except RpcError Params)
  /-- The permits of the semaphore that nobody holds. -/
  permits : Nat
  /-- The tasks of the items for which one has been spawned. -/
  tasks : List (ForEachTask Params Value)
  /-- The calls of `dispatch_method` so far, each with the number of its item. -/
  dispatched : List (Nat × Params)
  slots : List (Option (PipeItemResult Value))

/-- The entry of an item that returned. -/
def PipeItemResult.ofResult {Value : Type} : Except RpcError Value → PipeItemResult Value
  | .ok v => { result := some v, error := none }
  | .error e => { result := none, error := some e }

/-- The entry that stands for a panic. -/
def PipeItemResult.ofPanic {Value : Type} (message : String) : PipeItemResult Value :=
  { result := none
    error := some { code := -32603, message := s!"for_each task panicked: {message}" } }

/-- The entry of an item whose slot has stayed empty. -/
def PipeItemResult.dropped {Value : Type} : PipeItemResult Value :=
  { result := none
    error := some { code := -32603, message := "for_each item dropped without result" } }

/-- Put an entry into the first empty slot, if there is one. -/
def fillFirst {Entry : Type} (entry : Entry) : List (Option Entry) → List (Option Entry)
  | [] => []
  | none :: rest => some entry :: rest
  | some old :: rest => some old :: fillFirst entry rest

namespace ForEach

variable {Item Params Value : Type}

/-- How many items are dispatched side by side. -/
def limit (concurrency : Option Nat) : Nat :=
  max 1 (min (concurrency.getD forEachDefaultConcurrency) forEachMaxConcurrency)

/-- A step before its first item. -/
def start (concurrency : Option Nat) (substitute : Item → Except RpcError Params)
    (items : List Item) : ForEach Params Value where
  items := items.map substitute
  permits := limit concurrency
  tasks := []
  dispatched := []
  slots := items.map fun _ => none

/-- The next thing that happens. -/
inductive Action (Value : Type) where
  /-- The spawn loop has got a permit for the next item. -/
  | spawn
  /-- A thread of the pool begins with a dispatch. -/
  | begin (item : Nat)
  /-- A dispatch returns, fails or panics. -/
  | finish (item : Nat) (result : Except RpcError Value)
  | panic (item : Nat) (message : String)
  /-- A dispatch that has not begun is cancelled. -/
  | cancel (item : Nat)
  /-- The join loop takes a task that has ended. -/
  | join (item : Nat)

/-- What the join loop does with what a task ended with. -/
def settle (item : Nat) (slots : List (Option (PipeItemResult Value))) :
    JoinResult Value → List (Option (PipeItemResult Value))
  | .returned result => slots.set item (some (.ofResult result))
  -- A task that panicked does not tell its item.
  | .panicked message => fillFirst (.ofPanic message) slots
  | .cancelled => slots

/-- Take one step, if it is possible. -/
def step (s : ForEach Params Value) : Action Value → Option (ForEach Params Value)
  | .spawn =>
    if s.permits = 0 then none
    else
      match s.items[s.tasks.length]? with
      | none => none
      | some (.ok params) =>
        some { s with permits := s.permits - 1, tasks := s.tasks ++ [.queued params] }
      -- An item whose references cannot be resolved gives its permit back at once.
      | some (.error e) => some { s with tasks := s.tasks ++ [.ended (.returned (.error e))] }
  | .begin item =>
    match s.tasks[item]? with
    | some (.queued params) =>
      some { s with
        tasks := s.tasks.set item .running
        dispatched := s.dispatched ++ [(item, params)] }
    | _ => none
  | .finish item result =>
    match s.tasks[item]? with
    | some .running =>
      some { s with
        permits := s.permits + 1
        tasks := s.tasks.set item (.ended (.returned result)) }
    | _ => none
  | .panic item message =>
    match s.tasks[item]? with
    | some .running =>
      some { s with
        permits := s.permits + 1
        tasks := s.tasks.set item (.ended (.panicked message)) }
    | _ => none
  | .cancel item =>
    match s.tasks[item]? with
    | some (.queued _) =>
      some { s with permits := s.permits + 1, tasks := s.tasks.set item (.ended .cancelled) }
    | _ => none
  | .join item =>
    -- The join loop starts when a task has been spawned for every item.
    if s.tasks.length < s.items.length then none
    else
      match s.tasks[item]? with
      | some (.ended joined) =>
        some { s with
          tasks := s.tasks.set item (.taken joined)
          slots := settle item s.slots joined }
      | _ => none

/-- The join loop has taken what the task ended with. -/
def isTaken : ForEachTask Params Value → Bool
  | .taken _ => true
  | _ => false

/-- The list that is returned, once every task has been joined. -/
def answer (s : ForEach Params Value) : Option (List (PipeItemResult Value)) :=
  if s.tasks.length = s.items.length ∧ s.tasks.all isTaken then
    some (s.slots.map fun slot => slot.getD .dropped)
  else none

end ForEach

end McpCli
