import McpCli.Daemon.ForEach
import McpCli.Transition.Population
import McpCli.Transition.Run

/-! What a `for_each` step returns, whatever the order in which its dispatches come and go. -/

namespace McpCli

/-- Filling a slot leaves as many of them. -/
theorem length_fillFirst {Entry : Type} (entry : Entry) (slots : List (Option Entry)) :
    (fillFirst entry slots).length = slots.length := by
  -- The slot that is filled is replaced.
  induction slots with
  | nil => rfl
  | cons slot rest ih =>
    cases slot with
    | none => rfl
    | some old => simp [fillFirst, ih]

/-- A slot is as it was, or it was empty and has the new entry. -/
theorem getElem?_fillFirst {Entry : Type} {entry : Entry} {slots : List (Option Entry)} {i : Nat}
    {slot : Option Entry} (found : (fillFirst entry slots)[i]? = some slot) :
    slots[i]? = some slot ∨ slots[i]? = some none ∧ slot = some entry := by
  -- The slots in front of the first empty one are passed over.
  induction slots generalizing i with
  | nil => simp [fillFirst] at found
  | cons first rest ih =>
    cases first with
    | none =>
      cases i with
      | zero =>
        simp only [fillFirst, List.getElem?_cons_zero, Option.some.injEq] at found
        exact Or.inr ⟨rfl, found.symm⟩
      | succ i => exact Or.inl found
    | some old =>
      cases i with
      | zero => exact Or.inl found
      | succ i => exact ih found

namespace ForEach

open Transition

variable {Item Params Value : Type}

/-- A task that holds a permit: its dispatch is under way, or waits for a thread. -/
def inFlight : ForEachTask Params Value → Bool
  | .queued _ | .running => true
  | .ended _ | .taken _ => false

/-- How many steps are still ahead of a task. -/
def ahead : ForEachTask Params Value → Nat
  | .queued _ => 3
  | .running => 2
  | .ended _ => 1
  | .taken _ => 0

/-- A task whose dispatch has been called. -/
def begun : ForEachTask Params Value → Bool
  | .queued _ | .ended .cancelled | .taken .cancelled => false
  | _ => true

/-- The task is one of an item with these parameters, or without any. -/
def Fits : Except RpcError Params → ForEachTask Params Value → Prop
  | .ok params, .queued own => own = params
  | .ok _, _ => True
  | .error e, .ended joined | .error e, .taken joined => joined = .returned (.error e)
  | .error _, _ => False

/-- The calls that the task of an item has made. -/
def calls (item : Nat) : Except RpcError Params → ForEachTask Params Value → List (Nat × Params)
  | .ok params, task => if begun task then [(item, params)] else []
  | .error _, _ => []

/-- The event with which a dispatch ends like this. -/
def endOf (item : Nat) : JoinResult Value → Action Value
  | .returned result => .finish item result
  | .panicked message => .panic item message
  | .cancelled => .cancel item

/-- An event ends the dispatch of one item, in one way. -/
theorem endOf_inj {i j : Nat} {one other : JoinResult Value} :
    endOf i one = endOf j other ↔ i = j ∧ one = other := by
  cases one <;> cases other <;> simp [endOf]

/-- The spawn loop ends no dispatch. -/
theorem spawn_ne_endOf {i : Nat} {joined : JoinResult Value} : .spawn ≠ endOf i joined := by
  cases joined <;> simp [endOf]

/-- A dispatch that begins does not end. -/
theorem begin_ne_endOf {i j : Nat} {joined : JoinResult Value} : .begin j ≠ endOf i joined := by
  cases joined <;> simp [endOf]

/-- The join loop ends no dispatch. -/
theorem join_ne_endOf {i j : Nat} {joined : JoinResult Value} : .join j ≠ endOf i joined := by
  cases joined <;> simp [endOf]

/-- A step, by what it finds. -/
inductive Step (s : ForEach Params Value) : Action Value → ForEach Params Value → Prop where
  | spawn {params} (permit : s.permits ≠ 0)
      (known : s.items[s.tasks.length]? = some (.ok params)) :
      Step s .spawn { s with permits := s.permits - 1, tasks := s.tasks ++ [.queued params] }
  /-- The references of the next item cannot be resolved. -/
  | refuse {e} (known : s.items[s.tasks.length]? = some (.error e)) :
      Step s .spawn { s with tasks := s.tasks ++ [.ended (.returned (.error e))] }
  | begin {item params} (here : s.tasks[item]? = some (.queued params)) :
      Step s (.begin item) { s with
        tasks := s.tasks.set item .running
        dispatched := s.dispatched ++ [(item, params)] }
  /-- A dispatch ends: if it has begun, with a result or a panic. -/
  | ends {item old} (joined) (here : s.tasks[item]? = some old) (held : inFlight old = true)
      (alike : begun (.ended joined : ForEachTask Params Value) = begun old) :
      Step s (endOf item joined) { s with
        permits := s.permits + 1
        tasks := s.tasks.set item (.ended joined) }
  | join {item joined} (here : s.tasks[item]? = some (.ended joined)) :
      Step s (.join item) { s with
        tasks := s.tasks.set item (.taken joined)
        slots := settle item s.slots joined }

/-- Nothing else happens. -/
theorem step_spec {s next : ForEach Params Value} {action : Action Value}
    (taken : s.step action = some next) : s.Step action next := by
  cases action with
  | spawn =>
    simp only [step] at taken
    split at taken
    · cases taken
    · rename_i permit
      cases known : s.items[s.tasks.length]? with
      | none => simp [known] at taken
      | some item =>
        cases item with
        | ok params =>
          simp only [known, Option.some.injEq] at taken
          subst taken
          exact .spawn permit known
        -- A reference that is not resolved ends the item at once, without a permit.
        | error e =>
          simp only [known, Option.some.injEq] at taken
          subst taken
          exact .refuse known
  | begin item =>
    simp only [step] at taken
    split at taken
    · rename_i params here
      cases taken
      exact .begin here
    · cases taken
  | finish item result =>
    simp only [step] at taken
    split at taken
    · rename_i here
      cases taken
      exact .ends (.returned result) here rfl rfl
    · cases taken
  | panic item message =>
    simp only [step] at taken
    split at taken
    · rename_i here
      cases taken
      exact .ends (.panicked message) here rfl rfl
    · cases taken
  | cancel item =>
    simp only [step] at taken
    split at taken
    · rename_i params here
      cases taken
      exact .ends .cancelled here rfl rfl
    · cases taken
  | join item =>
    simp only [step] at taken
    split at taken
    · cases taken
    · split at taken
      · rename_i joined here
        cases taken
        exact .join here
      · cases taken

/-- What stands in a slot: the result of the item if it has been taken, or the text of a panic. -/
def SlotOf (tasks : List (ForEachTask Params Value)) (item : Nat)
    (slot : Option (PipeItemResult Value)) : Prop :=
  (∃ result, tasks[item]? = some (.taken (.returned result)) ∧ slot = some (.ofResult result)) ∨
    (∀ result, tasks[item]? ≠ some (.taken (.returned result))) ∧
      (slot = none ∨ ∃ (other : Nat) (message : String),
        tasks[other]? = some (.taken (.panicked message)) ∧ slot = some (.ofPanic message))

/-- Every permit is accounted for, and every item by its task, its calls and its slot. -/
structure Inv (concurrency : Nat) (s : ForEach Params Value) : Prop where
  spawned : s.tasks.length ≤ s.items.length
  slots : s.slots.length = s.items.length
  permits : s.permits + s.tasks.countP inFlight = concurrency
  fits : ∀ {i : Nat} {task}, s.tasks[i]? = some task →
    ∃ item, s.items[i]? = some item ∧ Fits item task ∧
      (s.dispatched.filter fun call => call.1 = i) = calls i item task
  uncalled : ∀ {i : Nat}, s.tasks.length ≤ i → (s.dispatched.filter fun call => call.1 = i) = []
  slot : ∀ {i : Nat} {slot}, s.slots[i]? = some slot → SlotOf s.tasks i slot

variable {concurrency : Nat}

/-- Before the first item there is nothing to account for. -/
theorem start_inv (concurrency : Option Nat) (substitute : Item → Except RpcError Params)
    (items : List Item) :
    (start concurrency substitute items : ForEach Params Value).Inv (limit concurrency) := by
  -- There are no tasks yet, and every slot is empty.
  refine ⟨Nat.zero_le _, by simp [start], by simp [start], ?_, ?_, ?_⟩
  · intro i task found
    simp [start] at found
  · intro i _
    rfl
  · intro i slot found
    simp only [start, List.getElem?_map, Option.map_eq_some_iff] at found
    obtain ⟨_, _, same⟩ := found
    refine Or.inr ⟨?_, Or.inl same.symm⟩
    intro result taken
    simp [start] at taken

/-- A slot is unaffected by a task that has not been taken and is not taken now. -/
theorem SlotOf.moved {tasks : List (ForEachTask Params Value)} {item i : Nat}
    {slot : Option (PipeItemResult Value)} (so : SlotOf tasks item slot)
    {old next : ForEachTask Params Value} (here : tasks[i]? = some old)
    (before : isTaken old = false) (after : isTaken next = false) :
    SlotOf (tasks.set i next) item slot := by
  -- A task that is taken stays where it is, and none is taken anew.
  have stays : ∀ {j : Nat} {joined}, tasks[j]? = some (.taken joined) →
      (tasks.set i next)[j]? = some (.taken joined) := by
    intro j joined there
    refine Population.moved_other there ?_
    rintro rfl
    rw [here] at there
    cases there
    cases before
  have old : ∀ {j : Nat} {joined}, (tasks.set i next)[j]? = some (.taken joined) →
      tasks[j]? = some (.taken joined) := by
    intro j joined there
    rcases Population.moved there with ⟨_, same⟩ | ⟨_, there⟩
    · rw [← same] at after
      cases after
    · exact there
  rcases so with ⟨result, taken, own⟩ | ⟨untaken, own⟩
  · exact Or.inl ⟨result, stays taken, own⟩
  · refine Or.inr ⟨fun result taken => untaken result (old taken), ?_⟩
    rcases own with empty | ⟨other, message, taken, own⟩
    · exact Or.inl empty
    · exact Or.inr ⟨other, message, stays taken, own⟩

/-- A slot is unaffected by a task that is spawned. -/
theorem SlotOf.spawned {tasks : List (ForEachTask Params Value)} {item : Nat}
    {slot : Option (PipeItemResult Value)} (so : SlotOf tasks item slot)
    {first : ForEachTask Params Value} (fresh : isTaken first = false) :
    SlotOf (tasks ++ [first]) item slot := by
  have old : ∀ {j : Nat} {joined}, (tasks ++ [first])[j]? = some (.taken joined) →
      tasks[j]? = some (.taken joined) := by
    intro j joined there
    -- A fresh task is not taken, so whatever is taken was there before.
    rcases Population.joined there with ⟨_, same⟩ | ⟨_, there⟩
    · rw [← same] at fresh
      cases fresh
    · exact there
  rcases so with ⟨result, taken, own⟩ | ⟨untaken, own⟩
  · exact Or.inl ⟨result, Population.joined_old taken, own⟩
  · refine Or.inr ⟨fun result taken => untaken result (old taken), ?_⟩
    rcases own with empty | ⟨other, message, taken, own⟩
    · exact Or.inl empty
    · exact Or.inr ⟨other, message, Population.joined_old taken, own⟩

/-- An unwritten slot is unaffected by a task that is taken, unless it is its own result. -/
theorem SlotOf.joined {tasks : List (ForEachTask Params Value)} {item i : Nat}
    {slot : Option (PipeItemResult Value)} (so : SlotOf tasks item slot)
    {joined : JoinResult Value} (here : tasks[i]? = some (.ended joined))
    (foreign : item = i → ∀ result, joined ≠ .returned result) :
    SlotOf (tasks.set i (.taken joined)) item slot := by
  have stays : ∀ {j : Nat} {other}, tasks[j]? = some (.taken other) →
      (tasks.set i (.taken joined))[j]? = some (.taken other) := by
    intro j other there
    refine Population.moved_other there ?_
    rintro rfl
    rw [here] at there
    cases there
  -- A slot has the result of its own task, or none but the text of a panic.
  rcases so with ⟨result, taken, own⟩ | ⟨untaken, own⟩
  · exact Or.inl ⟨result, stays taken, own⟩
  · refine Or.inr ⟨?_, ?_⟩
    · intro result taken
      rcases Population.moved taken with ⟨same, now⟩ | ⟨_, there⟩
      · cases now
        exact foreign same result rfl
      · exact untaken result there
    · rcases own with empty | ⟨other, message, taken, own⟩
      · exact Or.inl empty
      · exact Or.inr ⟨other, message, stays taken, own⟩

/-- A task that goes on without being taken keeps the accounts. -/
theorem Inv.moved {s : ForEach Params Value} (inv : s.Inv concurrency) {i : Nat}
    {old : ForEachTask Params Value} (here : s.tasks[i]? = some old)
    (next : ForEachTask Params Value) (permits : Nat) (more : List (Nat × Params))
    (before : isTaken old = false) (after : isTaken next = false)
    (balance : permits + (if inFlight next then 1 else 0) =
      s.permits + if inFlight old then 1 else 0)
    (own : ∀ call ∈ more, call.1 = i)
    (fits : ∀ item, Fits item old →
      Fits item next ∧ calls i item next = calls i item old ++ more) :
    ({ s with
        permits
        tasks := s.tasks.set i next
        dispatched := s.dispatched ++ more } : ForEach Params Value).Inv concurrency := by
  -- The new calls are all of the item that moves.
  have ownFilter : (more.filter fun call => call.1 = i) = more := by
    rw [List.filter_eq_self]
    intro call member
    simpa using own call member
  have otherFilter : ∀ {j : Nat}, j ≠ i → (more.filter fun call => call.1 = j) = [] := by
    intro j apart
    rw [List.filter_eq_nil_iff]
    intro call member
    simpa [own call member] using Ne.symm apart
  refine ⟨by simpa using inv.spawned, inv.slots, ?_, ?_, ?_, ?_⟩
  · have count := Population.countP_moved inFlight here next
    have permitted := inv.permits
    simp only
    omega
  · intro j task found
    rcases Population.moved found with ⟨rfl, rfl⟩ | ⟨apart, there⟩
    · obtain ⟨item, known, fit, called⟩ := inv.fits here
      obtain ⟨fitNext, callsNext⟩ := fits item fit
      refine ⟨item, known, fitNext, ?_⟩
      rw [List.filter_append, called, ownFilter, callsNext]
    · obtain ⟨item, known, fit, called⟩ := inv.fits there
      refine ⟨item, known, fit, ?_⟩
      rw [List.filter_append, called, otherFilter apart, List.append_nil]
  · intro j beyond
    rw [List.length_set] at beyond
    have apart : j ≠ i := by
      rintro rfl
      rw [List.getElem?_eq_none beyond] at here
      cases here
    rw [List.filter_append, inv.uncalled beyond, otherFilter apart, List.append_nil]
  · intro j slot found
    exact (inv.slot found).moved here before after

/-- A dispatch that ends in whatever way gives its permit back, and keeps the accounts. -/
theorem Inv.ends {s : ForEach Params Value} (inv : s.Inv concurrency) {i : Nat}
    {old : ForEachTask Params Value} (here : s.tasks[i]? = some old) (held : inFlight old = true)
    {joined : JoinResult Value}
    (alike : begun (.ended joined : ForEachTask Params Value) = begun old) :
    ({ s with
        permits := s.permits + 1
        tasks := s.tasks.set i (.ended joined) } : ForEach Params Value).Inv concurrency := by
  -- Only a task that holds a permit can end, and it has not been taken.
  have untaken : isTaken old = false := by
    cases old <;> first | rfl | cases held
  have balance : s.permits + 1 + (if inFlight (.ended joined : ForEachTask Params Value) then 1
      else 0) = s.permits + if inFlight old then 1 else 0 := by
    rw [held]
    rfl
  have kept := inv.moved here (.ended joined) (s.permits + 1) [] untaken rfl balance
    (fun call member => by cases member) fun own fit => ?_
  · simpa using kept
  · rw [List.append_nil]
    cases own with
    | ok params => exact ⟨trivial, by simp only [calls, alike]⟩
    | error e =>
      -- An item without parameters has no dispatch under way.
      cases old with
      | queued params => cases fit
      | running => cases fit
      | ended joined => cases held
      | taken joined => cases held

/-- Spawning the task of the next item keeps the accounts. -/
theorem Inv.spawn {s : ForEach Params Value} (inv : s.Inv concurrency)
    {item : Except RpcError Params} (known : s.items[s.tasks.length]? = some item)
    {first : ForEachTask Params Value} (fresh : isTaken first = false) {permits : Nat}
    (balance : permits + (if inFlight first then 1 else 0) = s.permits) (fit : Fits item first)
    (uncalled : calls s.tasks.length item first = []) :
    ({ s with permits, tasks := s.tasks ++ [first] } : ForEach Params Value).Inv
      concurrency := by
  obtain ⟨bound, _⟩ := List.getElem?_eq_some_iff.mp known
  have spawned : (s.tasks ++ [first]).length ≤ s.items.length := by
    rw [List.length_append]
    exact bound
  refine ⟨spawned, inv.slots, ?_, ?_, ?_, ?_⟩
  · -- The permit that the task takes is the one that it now holds.
    have permitted := inv.permits
    simp only [List.countP_append, List.countP_singleton]
    omega
  · -- Only the new task is at the new position.
    intro j task found
    rcases Population.joined found with ⟨rfl, rfl⟩ | ⟨_, there⟩
    · refine ⟨item, known, fit, ?_⟩
      rw [uncalled]
      exact inv.uncalled (Nat.le_refl _)
    · exact inv.fits there
  · intro j beyond
    rw [List.length_append, List.length_singleton] at beyond
    exact inv.uncalled (by omega)
  · intro j slot found
    exact (inv.slot found).spawned fresh

/-- Taking a task that has ended keeps the accounts. -/
theorem Inv.join {s : ForEach Params Value} (inv : s.Inv concurrency) {i : Nat}
    {joined : JoinResult Value} (here : s.tasks[i]? = some (.ended joined)) :
    ({ s with
        tasks := s.tasks.set i (.taken joined)
        slots := settle i s.slots joined } : ForEach Params Value).Inv concurrency := by
  refine ⟨by simpa using inv.spawned, ?_, ?_, ?_, ?_, ?_⟩
  · have slots := inv.slots
    cases joined <;> simp [settle, length_fillFirst, slots]
  · -- An ended task holds no permit, nor does a taken one.
    have same : (s.tasks.set i (.taken joined)).countP inFlight = s.tasks.countP inFlight :=
      Population.countP_moved_alike here rfl
    have permitted := inv.permits
    simp only
    omega
  · intro j task found
    rcases Population.moved found with ⟨rfl, rfl⟩ | ⟨_, there⟩
    · obtain ⟨item, known, fit, called⟩ := inv.fits here
      refine ⟨item, known, ?_, ?_⟩
      · cases item <;> exact fit
      · rw [called]
        cases item <;> cases joined <;> rfl
    · exact inv.fits there
  · intro j beyond
    rw [List.length_set] at beyond
    exact inv.uncalled beyond
  · intro j slot found
    have now : (s.tasks.set i (.taken joined))[i]? = some (.taken joined) :=
      Population.moved_self here
    -- A result goes to its own slot, a panic to the first empty one, a cancellation nowhere.
    cases joined with
    | returned result =>
      rcases Population.moved found with ⟨rfl, rfl⟩ | ⟨apart, there⟩
      · exact Or.inl ⟨result, now, rfl⟩
      · exact (inv.slot there).joined here fun same => absurd same apart
    | panicked message =>
      rcases getElem?_fillFirst found with there | ⟨empty, filled⟩
      · exact (inv.slot there).joined here fun _ _ same => by cases same
      · -- The slot was empty, so its own result has not been taken.
        have own := (inv.slot empty).joined here fun _ _ same => by cases same
        rcases own with ⟨_, _, full⟩ | ⟨untaken, _⟩
        · cases full
        · exact Or.inr ⟨untaken, Or.inr ⟨i, message, now, filled⟩⟩
    | cancelled => exact (inv.slot found).joined here fun _ _ same => by cases same

/-- A dispatch that begins is called with the parameters of its item, and keeps the accounts. -/
theorem Inv.begin {s : ForEach Params Value} (inv : s.Inv concurrency) {i : Nat} {params : Params}
    (here : s.tasks[i]? = some (.queued params)) :
    ({ s with
        tasks := s.tasks.set i .running
        dispatched := s.dispatched ++ [(i, params)] } : ForEach Params Value).Inv concurrency := by
  -- The one call that is added is that of the item, with its own parameters.
  refine inv.moved here .running s.permits [(i, params)] rfl rfl rfl
    (fun call member => ?_) fun own fit => ?_
  · rw [List.mem_singleton.mp member]
  · cases own with
    | ok needed =>
      have same : params = needed := fit
      subst same
      exact ⟨trivial, rfl⟩
    | error e => cases fit

/-- Every step keeps the accounts. -/
theorem Inv.step {s next : ForEach Params Value} {action : Action Value}
    (inv : s.Inv concurrency) (taken : s.step action = some next) : next.Inv concurrency := by
  cases step_spec taken with
  | spawn permit known =>
    -- The permit goes to the new task.
    have balance : s.permits - 1 + 1 = s.permits := by omega
    exact inv.spawn known rfl balance rfl rfl
  | refuse known => exact inv.spawn known rfl rfl rfl rfl
  | begin here => exact inv.begin here
  | ends joined here held alike => exact inv.ends here held alike
  | join here => exact inv.join here

/-- How many steps are still ahead. -/
def remaining (s : ForEach Params Value) : Nat :=
  4 * (s.items.length - s.tasks.length) + (s.tasks.map ahead).sum

/-- A task that goes on has one step less ahead. -/
theorem remaining_set {s : ForEach Params Value} {i : Nat} {old : ForEachTask Params Value}
    (here : s.tasks[i]? = some old) (next : ForEachTask Params Value)
    (less : ahead next < ahead old) {after : ForEach Params Value}
    (items : after.items = s.items) (tasks : after.tasks = s.tasks.set i next) :
    after.remaining < s.remaining := by
  -- No other task has more or less ahead than before.
  have weight := Population.sum_moved ahead here next
  simp only [remaining, items, tasks, List.length_set]
  omega

/-- An item that gets a task had four steps ahead, and its task has three at most. -/
theorem remaining_append {s : ForEach Params Value} {item : Except RpcError Params}
    (known : s.items[s.tasks.length]? = some item) (first : ForEachTask Params Value)
    {after : ForEach Params Value} (items : after.items = s.items)
    (tasks : after.tasks = s.tasks ++ [first]) : after.remaining < s.remaining := by
  -- The item counts four without a task.
  obtain ⟨bound, _⟩ := List.getElem?_eq_some_iff.mp known
  have few : ahead first ≤ 3 := by
    cases first <;> simp [ahead]
  simp only [remaining, items, tasks, List.length_append, List.length_singleton, List.map_append,
    List.map_singleton, List.sum_append, List.sum_singleton]
  omega

/-- Every step leaves the items as they are, and one step less ahead at least. -/
theorem step_remaining {s next : ForEach Params Value} {action : Action Value}
    (taken : s.step action = some next) :
    next.items = s.items ∧ next.remaining < s.remaining := by
  cases step_spec taken with
  | @spawn params permit known => exact ⟨rfl, remaining_append known (.queued params) rfl rfl⟩
  | @refuse e known =>
    exact ⟨rfl, remaining_append known (.ended (.returned (.error e))) rfl rfl⟩
  | begin here => exact ⟨rfl, remaining_set here .running (by simp [ahead]) rfl rfl⟩
  | @ends item old joined here held =>
    -- A task that ends was queued or running, so it had a step ahead of it.
    have less : ahead (.ended joined : ForEachTask Params Value) < ahead old := by
      cases old with
      | queued params => simp [ahead]
      | running => simp [ahead]
      | ended other => cases held
      | taken other => cases held
    exact ⟨rfl, remaining_set here (.ended joined) less rfl rfl⟩
  | @join item joined here =>
    exact ⟨rfl, remaining_set here (.taken joined) (by simp [ahead]) rfl rfl⟩

/-- A run has as many steps at most as were ahead of it. -/
theorem run_remaining {s last : ForEach Params Value} {actions : List (Action Value)}
    (ran : run step s actions = some last) :
    last.items = s.items ∧ actions.length + last.remaining ≤ s.remaining := by
  -- Every step brings the count down.
  induction actions generalizing s with
  | nil =>
    simp only [run_nil, Option.some.injEq] at ran
    subst ran
    simp
  | cons action rest ih =>
    obtain ⟨next, taken, ran⟩ := run_cons_eq_some.mp ran
    obtain ⟨items, less⟩ := step_remaining taken
    obtain ⟨same, further⟩ := ih ran
    refine ⟨same.trans items, ?_⟩
    rw [List.length_cons]
    omega

/-- While there is no answer, something can happen. -/
theorem Inv.progress {s : ForEach Params Value} (inv : s.Inv concurrency)
    (positive : 0 < concurrency) (unanswered : s.answer = none) :
    ∃ action next, s.step action = some next := by
  -- A dispatch that holds a permit can begin, or end in one way at least.
  have flight : ∀ {i : Nat} {task}, s.tasks[i]? = some task → inFlight task = true →
      ∃ action next, s.step action = some next := by
    intro i task here held
    cases task with
    | queued params =>
      refine ⟨.begin i, ?_⟩
      simp only [ForEach.step, here]
      exact ⟨_, rfl⟩
    | running =>
      refine ⟨.panic i "", ?_⟩
      simp only [ForEach.step, here]
      exact ⟨_, rfl⟩
    | ended joined => cases held
    | taken joined => cases held
  have spawned := inv.spawned
  by_cases all : s.tasks.length = s.items.length
  · -- Every task is spawned, so one of them has not been taken.
    have some_ : ∃ task ∈ s.tasks, isTaken task = false := by
      by_contra none_
      have every : s.tasks.all isTaken = true := by
        rw [List.all_eq_true]
        intro task member
        cases own : isTaken task with
        | true => rfl
        | false => exact absurd ⟨task, member, own⟩ none_
      simp [answer, all, every] at unanswered
    obtain ⟨task, member, untaken⟩ := some_
    obtain ⟨i, here⟩ := List.mem_iff_getElem?.mp member
    cases task with
    | queued params => exact flight here rfl
    | running => exact flight here rfl
    | ended joined =>
      refine ⟨.join i, ?_⟩
      simp only [ForEach.step, all, Nat.lt_irrefl, if_false, here]
      exact ⟨_, rfl⟩
    | taken joined => cases untaken
  · by_cases exhausted : s.permits = 0
    · -- All permits are held, so a dispatch is under way.
      have permitted := inv.permits
      obtain ⟨i, task, here, held⟩ := Population.exists_of_countP_pos
        (by omega : 0 < s.tasks.countP inFlight)
      exact flight here held
    · have bound : s.tasks.length < s.items.length := by omega
      obtain ⟨item, known⟩ : ∃ item, s.items[s.tasks.length]? = some item :=
        ⟨_, List.getElem?_eq_getElem bound⟩
      refine ⟨.spawn, ?_⟩
      simp only [ForEach.step, exhausted, if_false, known]
      cases item with
      | ok params => exact ⟨_, rfl⟩
      | error e => exact ⟨_, rfl⟩

/-- What a task has ended with, if it has. -/
def endedWith : ForEachTask Params Value → Option (JoinResult Value)
  | .ended joined | .taken joined => some joined
  | .queued _ | .running => none

/-- What the dispatch of an item has ended with, if it has. -/
def outcome (s : ForEach Params Value) (item : Nat) : Option (JoinResult Value) :=
  s.tasks[item]?.bind endedWith

/-- An outcome is only changed by the task that goes on. -/
theorem outcome_set {s after : ForEach Params Value} {i : Nat}
    {old next : ForEachTask Params Value} (here : s.tasks[i]? = some old)
    (tasks : after.tasks = s.tasks.set i next) (j : Nat) :
    after.outcome j = if j = i then endedWith next else s.outcome j := by
  -- Every task is looked up by the index of its item.
  unfold outcome
  rw [tasks]
  split
  · rename_i same
    subst same
    rw [Population.moved_self here]
    rfl
  · rename_i apart
    rw [List.getElem?_set_ne (Ne.symm apart)]

/-- An outcome is not changed by a task that is spawned, unless it is the task of the item. -/
theorem outcome_append {s after : ForEach Params Value} {first : ForEachTask Params Value}
    (tasks : after.tasks = s.tasks ++ [first]) {i : Nat}
    (foreign : i = s.tasks.length → endedWith first = none) :
    after.outcome i = s.outcome i := by
  -- The new task is behind the others, so only its own index finds it.
  unfold outcome
  rw [tasks]
  rcases Nat.lt_trichotomy i s.tasks.length with old | newest | beyond
  · rw [List.getElem?_append_left old]
  · subst newest
    simp [foreign rfl]
  · rw [List.getElem?_eq_none (by simp; omega), List.getElem?_eq_none (by omega)]

/-- An outcome is not changed by a task that goes on and has ended as it had before. -/
theorem outcome_alike {s after : ForEach Params Value} {i : Nat}
    {old : ForEachTask Params Value} (here : s.tasks[i]? = some old)
    (next : ForEachTask Params Value) (tasks : after.tasks = s.tasks.set i next)
    (alike : endedWith next = endedWith old) (j : Nat) :
    after.outcome j = s.outcome j := by
  -- For its own index the new outcome is the old one.
  rw [outcome_set here tasks]
  split
  · rename_i same
    rw [alike, same, outcome, here]
    rfl
  · rfl

/-- A dispatch has ended like this exactly if it had before, or does so now. -/
theorem step_outcome {s next : ForEach Params Value} {action : Action Value}
    (taken : s.step action = some next) {i : Nat} {params : Params}
    (known : s.items[i]? = some (.ok params)) {joined : JoinResult Value} :
    next.outcome i = some joined ↔ s.outcome i = some joined ∨ action = endOf i joined := by
  cases step_spec taken with
  | spawn permit here =>
    rw [outcome_append rfl fun _ => rfl]
    simp [spawn_ne_endOf]
  | refuse here =>
    -- The new task has ended, but it is that of an item without parameters.
    have foreign : i ≠ s.tasks.length := by
      rintro rfl
      rw [known] at here
      cases here
    rw [outcome_append rfl fun same => absurd same foreign]
    simp [spawn_ne_endOf]
  | begin here =>
    rw [outcome_alike here .running rfl rfl]
    simp [begin_ne_endOf]
  | @ends j old how here held =>
    -- A dispatch that ends now had not ended before.
    rw [outcome_set here rfl, endOf_inj]
    by_cases same : i = j
    · subst same
      have before : s.outcome i = none := by
        unfold outcome
        rw [here]
        cases old <;> first | rfl | cases held
      simp [before, endedWith]
    · simp [same, Ne.symm same]
  | @join j how here =>
    rw [outcome_alike here (.taken how) rfl rfl]
    simp [join_ne_endOf]

/-- Over a run, a dispatch has ended like this exactly if it had before, or did so in the run. -/
theorem run_outcome {s last : ForEach Params Value} {actions : List (Action Value)}
    (ran : run step s actions = some last) {i : Nat} {params : Params}
    (known : s.items[i]? = some (.ok params)) {joined : JoinResult Value} :
    last.outcome i = some joined ↔ s.outcome i = some joined ∨ endOf i joined ∈ actions := by
  induction actions generalizing s with
  | nil =>
    simp only [run_nil, Option.some.injEq] at ran
    subst ran
    simp
  | cons action rest ih =>
    obtain ⟨next, taken, ran⟩ := run_cons_eq_some.mp ran
    have items := (step_remaining taken).1
    have later := ih ran (by rw [items]; exact known)
    -- The item ends in this step, or later, or it had ended before.
    rw [later, step_outcome taken known, List.mem_cons, @eq_comm _ action, or_assoc]

/-- Only an item whose references could be resolved has a dispatch, which holds a permit. -/
theorem Inv.known {s : ForEach Params Value} (inv : s.Inv concurrency) {i : Nat}
    {task : ForEachTask Params Value} (here : s.tasks[i]? = some task)
    (held : inFlight task = true) : ∃ params, s.items[i]? = some (.ok params) := by
  obtain ⟨item, known, fit, _⟩ := inv.fits here
  cases item with
  | ok params => exact ⟨params, known⟩
  | error e =>
    -- An item that could not be resolved has ended from the start, and holds no permit.
    cases task with
    | queued params => cases fit
    | running => cases fit
    | ended joined => cases held
    | taken joined => cases held

/-- A dispatch that ends is one of an item whose references could be resolved. -/
theorem Inv.end_known {s next : ForEach Params Value} (inv : s.Inv concurrency) {i : Nat}
    {joined : JoinResult Value} (taken : s.step (endOf i joined) = some next) :
    ∃ params, s.items[i]? = some (.ok params) := by
  -- The event is named, so that the steps that are no end can be told apart from it.
  generalize event : endOf i joined = action at taken
  cases step_spec taken with
  | spawn => exact absurd event.symm spawn_ne_endOf
  | refuse => exact absurd event.symm spawn_ne_endOf
  | begin => exact absurd event.symm begin_ne_endOf
  | ends how here held =>
    obtain ⟨rfl, rfl⟩ := endOf_inj.mp event
    exact inv.known here held
  | join => exact absurd event.symm join_ne_endOf

/-- The dispatches that end in a run are those of items whose references could be resolved. -/
theorem Inv.run_known {s last : ForEach Params Value} (inv : s.Inv concurrency)
    {actions : List (Action Value)} (ran : run ForEach.step s actions = some last) {i : Nat}
    {joined : JoinResult Value} (ended : endOf i joined ∈ actions) :
    ∃ params, s.items[i]? = some (.ok params) := by
  induction actions generalizing s with
  | nil => cases ended
  | cons action rest ih =>
    obtain ⟨next, taken, ran⟩ := run_cons_eq_some.mp ran
    rcases List.mem_cons.mp ended with now | later
    · rw [← now] at taken
      exact inv.end_known taken
    · -- The list of items is never changed, so the items of the later state are those of this one.
      rw [← (step_remaining taken).1]
      exact ih (inv.step taken) ran later

/-- The entry of an item when all tasks are taken. -/
theorem Inv.entry {s : ForEach Params Value} (inv : s.Inv concurrency)
    {results : List (PipeItemResult Value)}
    (same : results = s.slots.map fun slot => slot.getD .dropped) {i : Nat}
    {joined : JoinResult Value} (here : s.tasks[i]? = some (.taken joined)) :
    (∃ result, joined = .returned result ∧ results[i]? = some (.ofResult result)) ∨
      (∀ result, joined ≠ .returned result) ∧
        (results[i]? = some .dropped ∨ ∃ (j : Nat) (message : String),
          s.tasks[j]? = some (.taken (.panicked message)) ∧
            results[i]? = some (.ofPanic message)) := by
  -- There is a slot for every task.
  obtain ⟨bound, _⟩ := List.getElem?_eq_some_iff.mp here
  have inside : i < s.slots.length := by
    rw [inv.slots]
    exact Nat.lt_of_lt_of_le bound inv.spawned
  obtain ⟨slot, found⟩ : ∃ slot, s.slots[i]? = some slot := ⟨_, List.getElem?_eq_getElem inside⟩
  have entry : results[i]? = some (slot.getD .dropped) := by
    rw [same, List.getElem?_map, found]
    rfl
  rcases inv.slot found with ⟨result, taken, own⟩ | ⟨untaken, own⟩
  · rw [here] at taken
    cases taken
    subst own
    exact Or.inl ⟨result, rfl, entry⟩
  · refine Or.inr ⟨?_, ?_⟩
    · rintro result rfl
      exact untaken result here
    · rcases own with empty | ⟨j, message, panicked, own⟩
      · subst empty
        exact Or.inl entry
      · subst own
        exact Or.inr ⟨j, message, panicked, entry⟩

/--
What the returned list and the calls of `dispatch_method` say of the items and of the events of a
run.
-/
structure Answers (items : List (Except RpcError Params)) (actions : List (Action Value))
    (dispatched : List (Nat × Params)) (results : List (PipeItemResult Value)) : Prop where
  length : results.length = items.length
  /-- An item holds the value that its dispatch returned, and no other. -/
  value : ∀ {i : Nat} {v : Value},
    results[i]? = some (.ofResult (.ok v)) ↔ .finish i (.ok v) ∈ actions
  failed : ∀ {i : Nat} {e : RpcError}, .finish i (.error e) ∈ actions →
    results[i]? = some (.ofResult (.error e))
  /-- An item whose references cannot be resolved holds that error, and is not dispatched. -/
  unresolved : ∀ {i : Nat} {e : RpcError}, items[i]? = some (.error e) →
    results[i]? = some (.ofResult (.error e)) ∧
      (dispatched.filter fun call => call.1 = i) = []
  /-- An item without a result holds the text of some panic, or that it was dropped. -/
  lost : ∀ {i : Nat}, (∃ message, .panic i message ∈ actions) ∨ .cancel i ∈ actions →
    results[i]? = some .dropped ∨
      ∃ (j : Nat) (message : String), .panic j message ∈ actions ∧
        results[i]? = some (.ofPanic message)
  /-- Every other item is dispatched, and its dispatch ends. -/
  settled : ∀ {i : Nat} {params : Params}, items[i]? = some (.ok params) →
    (∃ result, .finish i result ∈ actions) ∨ (∃ message, .panic i message ∈ actions) ∨
      .cancel i ∈ actions
  /-- It is dispatched once, unless it was cancelled before it began. -/
  once : ∀ {i : Nat} {params : Params}, items[i]? = some (.ok params) →
    .cancel i ∉ actions → (dispatched.filter fun call => call.1 = i) = [(i, params)]
  cancelled : ∀ {i : Nat}, .cancel i ∈ actions →
    (dispatched.filter fun call => call.1 = i) = []

section Answered

/-! What is known of a run after which the list has been returned. -/

variable {first s : ForEach Params Value} {actions : List (Action Value)}
  {results : List (PipeItemResult Value)}

/-- The list is made of what stands in the slots. -/
theorem answer_eq (answered : s.answer = some results) :
    results = s.slots.map fun slot => slot.getD .dropped := by
  obtain ⟨_, same⟩ := Option.ite_none_right_eq_some.mp answered
  simpa using same.symm

/-- When the list is returned, every item has a task that has been taken. -/
theorem answer_taken (answered : s.answer = some results) {i : Nat} {item : Except RpcError Params}
    (known : s.items[i]? = some item) : ∃ joined, s.tasks[i]? = some (.taken joined) := by
  -- There are as many tasks as items, and the list is not returned before all are taken.
  obtain ⟨⟨all, taken⟩, _⟩ := Option.ite_none_right_eq_some.mp answered
  obtain ⟨bound, _⟩ := List.getElem?_eq_some_iff.mp known
  have inside : i < s.tasks.length := by
    rw [all]
    exact bound
  have own := List.all_eq_true.mp taken _ (List.getElem_mem inside)
  cases here : s.tasks[i] with
  | taken joined => exact ⟨joined, by rw [List.getElem?_eq_getElem inside, here]⟩
  | queued params => rw [here] at own; cases own
  | running => rw [here] at own; cases own
  | ended joined => rw [here] at own; cases own

/-- A taken task of a resolved item has ended in the run as the task says, and not otherwise. -/
theorem ended_iff (unstarted : first.tasks = []) (ran : run ForEach.step first actions = some s)
    {i : Nat} {params : Params} (known : s.items[i]? = some (.ok params))
    {joined other : JoinResult Value} (here : s.tasks[i]? = some (.taken joined)) :
    endOf i other ∈ actions ↔ joined = other := by
  -- A taken task keeps the outcome that it had when it ended.
  rw [(run_remaining ran).1] at known
  have outcomes : s.outcome i = some other ↔ _ := run_outcome ran known
  simp only [outcome, unstarted, here, List.getElem?_nil, Option.bind_none, reduceCtorEq,
    false_or, Option.bind_some, endedWith, Option.some.injEq] at outcomes
  exact outcomes.symm

/-- A dispatch that ended in the run is one of a resolved item, and its task has been taken. -/
theorem Inv.ended (start : first.Inv concurrency) (unstarted : first.tasks = [])
    (ran : run ForEach.step first actions = some s) (answered : s.answer = some results)
    {i : Nat} {joined : JoinResult Value} (ended : endOf i joined ∈ actions) :
    (∃ params, s.items[i]? = some (.ok params)) ∧ s.tasks[i]? = some (.taken joined) := by
  -- The task of the item has ended once, so it ended as the event says.
  have resolved := start.run_known ran ended
  rw [← (run_remaining ran).1] at resolved
  obtain ⟨params, known⟩ := resolved
  obtain ⟨own, here⟩ := answer_taken answered known
  obtain rfl := (ended_iff unstarted ran known here).mp ended
  exact ⟨⟨params, known⟩, here⟩

/-- What a dispatch returned in the run stands in the entry of its item. -/
theorem Inv.held (start : first.Inv concurrency) (unstarted : first.tasks = [])
    (ran : run ForEach.step first actions = some s) (answered : s.answer = some results)
    {i : Nat} {result : Except RpcError Value} (ended : endOf i (.returned result) ∈ actions) :
    results[i]? = some (.ofResult result) := by
  -- The task of the item was taken with what the dispatch returned.
  have inv : s.Inv concurrency :=
    run_invariant _ (fun _ _ _ inv taken => inv.step taken) start ran
  obtain ⟨_, here⟩ := start.ended unstarted ran answered ended
  rcases inv.entry (answer_eq answered) here with ⟨other, same, entry⟩ | ⟨unreturned, _⟩
  · cases same
    exact entry
  · exact absurd rfl (unreturned result)

/-- What a dispatch did not return is lost: its entry says so, or has the text of some panic. -/
theorem Inv.lost (start : first.Inv concurrency) (unstarted : first.tasks = [])
    (ran : run ForEach.step first actions = some s) (answered : s.answer = some results)
    {i : Nat} {joined : JoinResult Value} (ended : endOf i joined ∈ actions)
    (unreturned : ∀ result, joined ≠ .returned result) :
    results[i]? = some .dropped ∨
      ∃ (j : Nat) (message : String), .panic j message ∈ actions ∧
        results[i]? = some (.ofPanic message) := by
  have inv : s.Inv concurrency :=
    run_invariant _ (fun _ _ _ inv taken => inv.step taken) start ran
  obtain ⟨_, here⟩ := start.ended unstarted ran answered ended
  rcases inv.entry (answer_eq answered) here with ⟨result, same, _⟩ | ⟨_, text⟩
  · exact absurd same (unreturned result)
  · rcases text with dropped | ⟨j, message, there, entry⟩
    · exact Or.inl dropped
    · -- Only the dispatch of a resolved item can panic.
      obtain ⟨item, known, fit, _⟩ := inv.fits there
      cases item with
      | ok params => exact Or.inr ⟨j, message, (ended_iff unstarted ran known there).mpr rfl, entry⟩
      | error e => cases fit

/-- An entry with a value is that of a resolved item, whose dispatch returned the value. -/
theorem Inv.valued (start : first.Inv concurrency) (unstarted : first.tasks = [])
    (ran : run ForEach.step first actions = some s) (answered : s.answer = some results)
    {i : Nat} {v : Value} (found : results[i]? = some (.ofResult (.ok v))) :
    endOf i (.returned (.ok v)) ∈ actions := by
  have inv : s.Inv concurrency :=
    run_invariant _ (fun _ _ _ inv taken => inv.step taken) start ran
  have same := answer_eq answered
  obtain ⟨bound, _⟩ := List.getElem?_eq_some_iff.mp found
  have inside : i < s.items.length := by
    rw [same, List.length_map, inv.slots] at bound
    exact bound
  obtain ⟨joined, here⟩ := answer_taken answered (List.getElem?_eq_getElem inside)
  -- Of the three things that can stand in the entry, only a result is a value.
  rcases inv.entry same here with ⟨result, returned, entry⟩ | ⟨_, dropped | ⟨_, _, _, entry⟩⟩
  · rw [found] at entry
    cases result with
    | error e => cases entry
    | ok w =>
      cases entry
      obtain ⟨item, own, fit, _⟩ := inv.fits here
      cases item with
      | ok params => exact (ended_iff unstarted ran own here).mpr returned
      | error e =>
        rw [returned] at fit
        cases fit
  · rw [found] at dropped
    cases dropped
  · rw [found] at entry
    cases entry

/-- An item whose references cannot be resolved has that error, and no calls. -/
theorem Inv.refused (inv : s.Inv concurrency) (answered : s.answer = some results) {i : Nat}
    {e : RpcError} (known : s.items[i]? = some (.error e)) :
    results[i]? = some (.ofResult (.error e)) ∧
      (s.dispatched.filter fun call => call.1 = i) = [] := by
  obtain ⟨joined, here⟩ := answer_taken answered known
  obtain ⟨item, own, fit, called⟩ := inv.fits here
  rw [known] at own
  cases own
  -- Nothing else fits an item that was never dispatched.
  have failed : joined = .returned (.error e) := fit
  subst failed
  refine ⟨?_, called⟩
  rcases inv.entry (answer_eq answered) here with ⟨result, returned, entry⟩ | ⟨unreturned, _⟩
  · cases returned
    exact entry
  · exact absurd rfl (unreturned (.error e))

/-- The calls of a resolved item whose task has been taken. -/
theorem Inv.called (inv : s.Inv concurrency) {i : Nat} {params : Params}
    (known : s.items[i]? = some (.ok params)) {task : ForEachTask Params Value}
    (here : s.tasks[i]? = some task) :
    (s.dispatched.filter fun call => call.1 = i) = if begun task then [(i, params)] else [] := by
  -- The invariant says so of the item that the task has.
  obtain ⟨item, own, _, called⟩ := inv.fits here
  rw [known] at own
  cases own
  exact called

/-- When all tasks are taken, the list has what the events of the run say. -/
theorem Inv.answers (start : first.Inv concurrency) (unstarted : first.tasks = [])
    (ran : run ForEach.step first actions = some s) (answered : s.answer = some results) :
    Answers s.items actions s.dispatched results := by
  have inv : s.Inv concurrency :=
    run_invariant _ (fun _ _ _ inv taken => inv.step taken) start ran
  refine ⟨?_, ?_, ?_, ?_, ?_, ?_, ?_, ?_⟩
  · -- One entry for each slot, of which there is one for each item.
    rw [answer_eq answered, List.length_map]
    exact inv.slots
  · intro i v
    exact ⟨start.valued unstarted ran answered, start.held unstarted ran answered⟩
  · intro i e ended
    exact start.held unstarted ran answered ended
  · intro i e known
    exact inv.refused answered known
  · -- A dispatch that ends without a result has the entry of a drop or of a panic.
    rintro i (⟨message, ended⟩ | ended)
    · have ended : endOf i (.panicked message) ∈ actions := ended
      exact start.lost unstarted ran answered ended fun _ same => by cases same
    · have ended : endOf i .cancelled ∈ actions := ended
      exact start.lost unstarted ran answered ended fun _ same => by cases same
  · intro i params known
    obtain ⟨joined, here⟩ := answer_taken answered known
    have ended : endOf i joined ∈ actions := (ended_iff unstarted ran known here).mpr rfl
    cases joined with
    | returned result => exact Or.inl ⟨result, ended⟩
    | panicked message => exact Or.inr (Or.inl ⟨message, ended⟩)
    | cancelled => exact Or.inr (Or.inr ended)
  · -- A dispatch that was not cancelled had begun, so it is one call.
    intro i params known uncancelled
    obtain ⟨joined, here⟩ := answer_taken answered known
    have ended : endOf i joined ∈ actions := (ended_iff unstarted ran known here).mpr rfl
    rw [inv.called known here]
    cases joined with
    | returned result => rfl
    | panicked message => rfl
    | cancelled => exact absurd ended uncancelled
  · intro i ended
    have ended : endOf i .cancelled ∈ actions := ended
    obtain ⟨⟨params, known⟩, here⟩ := start.ended unstarted ran answered ended
    rw [inv.called known here]
    rfl

end Answered

/--
In every run of a `for_each` step, no more dispatches are in flight than the limit, and something
can happen until the list is returned, which is after four steps for each item at most. The
returned list and the calls are what the events say.
-/
theorem outcomes_of_run {concurrency : Option Nat} {substitute : Item → Except RpcError Params}
    {items : List Item} {actions : List (Action Value)} {s : ForEach Params Value}
    (ran : run step (start concurrency substitute items) actions = some s) :
    s.tasks.countP inFlight ≤ limit concurrency ∧ actions.length ≤ 4 * items.length ∧
      (s.answer = none → ∃ action next, s.step action = some next) ∧
      ∀ results, s.answer = some results →
        Answers (items.map substitute) actions s.dispatched results := by
  have first : (start concurrency substitute items : ForEach Params Value).Inv
      (limit concurrency) := start_inv concurrency substitute items
  have inv : s.Inv (limit concurrency) :=
    run_invariant _ (fun _ _ _ inv taken => inv.step taken) first ran
  obtain ⟨same, steps⟩ := run_remaining ran
  -- The limit is one at least, whatever the request asks for.
  have positive : 0 < limit concurrency := by
    unfold limit
    omega
  refine ⟨?_, ?_, inv.progress positive, ?_⟩
  · have permitted := inv.permits
    omega
  · simp only [remaining, start, List.length_map, List.length_nil, Nat.sub_zero, List.map_nil,
      List.sum_nil, Nat.add_zero] at steps
    omega
  · intro results answered
    have answers := first.answers rfl ran answered
    rw [same] at answers
    exact answers

/-- Two items, of which the second has a reference that cannot be resolved. -/
def mixedItems : List (Except RpcError String) :=
  [.ok "a", .error { code := -32602, message := "$ref resolved to zero nodes" }]

/-- With one permit, the first item is dispatched and returns before the second is looked at. -/
def mixedRun : List (Action Nat) :=
  [.spawn, .begin 0, .finish 0 (.ok 7), .spawn, .join 1, .join 0]

/-- The list holds the value of the one item and the error of the other. -/
theorem outcomes_of_mixed_run :
    ∃ s results, run step (start (some 0) id mixedItems : ForEach String Nat) mixedRun = some s ∧
      s.answer = some results ∧
      Answers (mixedItems.map id) mixedRun s.dispatched results := by
  -- The run and its answer are evaluated.
  obtain ⟨s, ran⟩ : ∃ s, run step (start (some 0) id mixedItems : ForEach String Nat) mixedRun =
      some s := ⟨_, rfl⟩
  have answered : (run step (start (some 0) id mixedItems : ForEach String Nat) mixedRun).bind
      answer =
      some [.ofResult (.ok 7),
        .ofResult (.error { code := -32602, message := "$ref resolved to zero nodes" })] := rfl
  rw [ran] at answered
  exact ⟨s, _, ran, answered, (outcomes_of_run ran).2.2.2 _ answered⟩

/--
The first of two items is cancelled, and the second one panics. The text of the panic stands at
the first item, and the second one is said to be dropped.
-/
theorem panic_attributed_to_cancelled :
    ∃ s, run step (start none id [.ok "a", .ok "b"] : ForEach String Nat)
        [.spawn, .spawn, .cancel 0, .begin 1, .panic 1 "boom", .join 0, .join 1] = some s ∧
      s.answer = some [.ofPanic "boom", .dropped] :=
  ⟨_, rfl, rfl⟩

end ForEach

end McpCli
