import McpCli.Daemon.JobTable
import McpCli.Transition.Run
import McpCli.Transition.Tickets

/-! Jobs have numbers of their own, and none of them is touched by what is asked of the others. -/

namespace McpCli

namespace JobLife

/-- A job keeps its number. -/
theorem jobId_step {s next : JobLife} {action : Action} (stepped : s.step action = some next) :
    next.jobId = s.jobId := by
  -- No action of a job writes its number.
  cases action with
  | write text =>
    cases stepped
    rfl
  | terminate code =>
    simp only [step] at stepped
    split at stepped
    · cases stepped
    · cases stepped
      rfl
  | readLogs offset maxBytes fault =>
    cases stepped
    rfl
  | kill fault killed =>
    cases stepped
    rfl

/-- What a process does on its own does not depend on the number of its job. -/
theorem step_event (s : JobLife) (event : JobEvent) (jobId : Nat) :
    ({ s with jobId } : JobLife).step event.action =
      (s.step event.action).map fun next => { next with jobId } := by
  cases event with
  | write text => rfl
  | terminate code =>
    simp only [JobEvent.action, step]
    split <;> rfl

end JobLife

namespace JobTable

open Transition Transition.Population

/-- What a step does, one case for each thing that can happen. -/
inductive Effect (s : JobTable) : Action → JobTable → Prop where
  | arrived (params : ToolSpawnParams) (canonicalize : Except String OsPath)
      (child : Except String Nat) :
      Effect s (.spawn params canonicalize child)
        { s with spawns := s.spawns ++ [arrival s.root params canonicalize child] }
  | numbered {call : Nat} {params : ToolSpawnParams} {pid : Nat} {child : JobLife}
      (here : s.spawns[call]? = some (.started params pid child)) :
      Effect s (.advance call)
        { s with
          nextId := (s.nextId + 1) % 2 ^ 64
          spawns := s.spawns.set call (.numbered params pid { child with jobId := s.nextId }) }
  | entered {call : Nat} {params : ToolSpawnParams} {pid : Nat} {child : JobLife}
      (here : s.spawns[call]? = some (.numbered params pid child)) :
      Effect s (.advance call)
        { s with
          jobs := Function.update s.jobs child.jobId (some child)
          spawns := s.spawns.set call (.returned
            { jobId := child.jobId, pid := some pid, command := params.command,
              args := params.args }) }
  | happened {call : Nat} {event : JobEvent} {phase moved : SpawnPhase}
      (here : s.spawns[call]? = some phase) (went : early event phase = some moved) :
      Effect s (.early call event) { s with spawns := s.spawns.set call moved }
  | acted {jobId : Nat} {action : JobLife.Action} {job moved : JobLife}
      (there : s.jobs jobId = some job) (went : job.step action = some moved) :
      Effect s (.act jobId action)
        { s with jobs := Function.update s.jobs jobId (some moved) }
  | refused {jobId : Nat} {action : JobLife.Action} (absent : s.jobs jobId = none) :
      Effect s (.act jobId action) { s with unknown := s.unknown ++ [unknownJob jobId] }

/-- Each step is one of these. -/
theorem effect_of_step {s next : JobTable} {action : Action} (stepped : s.step action = some next) :
    Effect s action next := by
  -- A call takes the number first and enters its job later, and others may step in between.
  cases action with
  | spawn params canonicalize child =>
    cases stepped
    exact .arrived params canonicalize child
  | advance call =>
    obtain ⟨phase, here, went⟩ := Option.bind_eq_some_iff.mp stepped
    cases phase with
    | started params pid child =>
      cases went
      exact .numbered here
    | numbered params pid child =>
      cases went
      exact .entered here
    | returned result => cases went
    | failed error => cases went
  | early call event =>
    obtain ⟨moved, happened, rfl⟩ := Option.map_eq_some_iff.mp stepped
    obtain ⟨phase, here, went⟩ := Option.bind_eq_some_iff.mp happened
    exact .happened here went
  | act jobId action =>
    -- A job of the table takes the action, and a request for any other number is refused.
    simp only [step] at stepped
    split at stepped
    · rename_i job there
      obtain ⟨moved, went, rfl⟩ := Option.map_eq_some_iff.mp stepped
      exact .acted there went
    · rename_i absent
      cases stepped
      exact .refused absent
    · rename_i absent
      cases stepped
      exact .refused absent
    · cases stepped
    · cases stepped

/-- The number that a call has taken, if it has taken one. -/
def taken : SpawnPhase → Option Nat
  | .numbered _ _ child => some child.jobId
  | .returned result => some result.jobId
  | .started .. | .failed _ => none

/-- The number of the job that a call has entered, if it has entered one. -/
def entered : SpawnPhase → Option Nat
  | .returned result => some result.jobId
  | .started .. | .numbered .. | .failed _ => none

/-- The numbers that have been taken are those up to the next one, each of them once. -/
structure Counted (s : JobTable) : Prop where
  next : s.nextId = ((s.spawns.filterMap taken).length + 1) % 2 ^ 64
  bounds : ∀ jobId ∈ s.spawns.filterMap taken, jobId ≤ (s.spawns.filterMap taken).length
  apart : (s.spawns.filterMap taken).Nodup

/-- The jobs of the table are those that calls have entered, under their own numbers. -/
structure Filed (s : JobTable) : Prop where
  entered : ∀ jobId, (s.jobs jobId).isSome ↔ jobId ∈ s.spawns.filterMap entered
  own : ∀ jobId job, s.jobs jobId = some job → job.jobId = jobId

/-- A call that comes in has no number. -/
theorem taken_arrival (root : OsPath) (params : ToolSpawnParams)
    (canonicalize : Except String OsPath) (child : Except String Nat) :
    taken (arrival root params canonicalize child) = none ∧
      entered (arrival root params canonicalize child) = none := by
  -- Refused or not, it has not come to the counter yet.
  unfold arrival
  dsimp only
  split
  · exact ⟨rfl, rfl⟩
  · split
    · exact ⟨rfl, rfl⟩
    · exact ⟨rfl, rfl⟩
    · exact ⟨rfl, rfl⟩

/-- What a process does on its own leaves its call where it is. -/
theorem taken_early {event : JobEvent} {phase moved : SpawnPhase}
    (happened : early event phase = some moved) :
    taken moved = taken phase ∧ entered moved = entered phase := by
  cases phase with
  | started params pid child =>
    obtain ⟨next, _, rfl⟩ := Option.map_eq_some_iff.mp happened
    exact ⟨rfl, rfl⟩
  | numbered params pid child =>
    obtain ⟨next, stepped, rfl⟩ := Option.map_eq_some_iff.mp happened
    -- The number of a job does not change by what its process does.
    exact ⟨congrArg some (JobLife.jobId_step stepped), rfl⟩
  | returned result => cases happened
  | failed error => cases happened

/-- A call that has no number takes one that no other call has, as long as there are any. -/
theorem Counted.number {s next : JobTable} (counted : s.Counted) {call : Nat}
    {phase moved : SpawnPhase} (here : s.spawns[call]? = some phase)
    (without : taken phase = none) (gets : taken moved = some s.nextId)
    (few : s.spawns.length < 2 ^ 64) (advanced : next.nextId = (s.nextId + 1) % 2 ^ 64)
    (spawns : next.spawns = s.spawns.set call moved) : next.Counted := by
  have numbers := tickets_moved_new here without gets
  have room := tickets_lt here without
  -- The word has not come round yet, since there are fewer numbers taken than calls.
  have fresh : s.nextId = (s.spawns.filterMap taken).length + 1 := by
    rw [counted.next, Nat.mod_eq_of_lt]
    omega
  rw [← spawns] at numbers
  have count : (next.spawns.filterMap taken).length = s.nextId := by
    rw [numbers.length_eq, List.length_cons, fresh]
  refine ⟨by rw [advanced, count], fun jobId member => ?_, ?_⟩
  · rcases List.mem_cons.mp (numbers.mem_iff.mp member) with rfl | earlier
    · exact Nat.le_of_eq count.symm
    · have bound := counted.bounds jobId earlier
      omega
  · rw [numbers.nodup_iff, List.nodup_cons]
    refine ⟨fun earlier => ?_, counted.apart⟩
    -- The numbers that were taken before are smaller.
    have bound := counted.bounds _ earlier
    omega

/-- Numbers are still told apart if no call has taken or lost one. -/
theorem Counted.alike {s next : JobTable} (counted : s.Counted)
    (spawns : next.spawns.filterMap taken = s.spawns.filterMap taken)
    (same : next.nextId = s.nextId) : next.Counted := by
  constructor
  · rw [spawns, same]
    exact counted.next
  · rw [spawns]
    exact counted.bounds
  · rw [spawns]
    exact counted.apart

/-- A step leaves the numbers told apart, as long as there are fewer calls than numbers. -/
theorem Counted.step {s next : JobTable} {action : Action} (counted : s.Counted)
    (few : s.spawns.length < 2 ^ 64) (stepped : s.step action = some next) : next.Counted := by
  cases effect_of_step stepped with
  | arrived params canonicalize child =>
    refine counted.alike ?_ rfl
    dsimp only
    rw [List.filterMap_append, List.filterMap_cons_none (taken_arrival _ _ _ _).1,
      List.filterMap_nil, List.append_nil]
  | numbered here => exact counted.number here rfl rfl few rfl rfl
  -- From here on, nobody takes a number or gives one back.
  | entered here => exact counted.alike (tickets_moved_alike here rfl) rfl
  | happened here went => exact counted.alike (tickets_moved_alike here (taken_early went).1) rfl
  | acted there went => exact counted.alike rfl rfl
  | refused absent => exact counted.alike rfl rfl

/-- Calls are never forgotten. -/
theorem length_spawns_step {s next : JobTable} {action : Action}
    (stepped : s.step action = some next) : s.spawns.length ≤ next.spawns.length := by
  -- A call is added at the end or changed in its place.
  cases effect_of_step stepped with
  | arrived params canonicalize child => simp
  | numbered here => simp
  | entered here => simp
  | happened here went => simp
  | acted there went => exact Nat.le_refl _
  | refused absent => exact Nat.le_refl _

/-- What is found behind an update is the new job, or one that was there before. -/
theorem found_update {jobs : Nat → Option JobLife} {number jobId : Nat} {new held : JobLife}
    (found : Function.update jobs number (some new) jobId = some held) :
    jobId = number ∧ held = new ∨ jobs jobId = some held := by
  by_cases same : jobId = number
  · subst same
    rw [Function.update_self, Option.some.injEq] at found
    exact .inl ⟨rfl, found.symm⟩
  · rw [Function.update_of_ne same] at found
    exact .inr found

/-- A job that is in the table takes its step there, under its own number. -/
theorem Filed.act {s next : JobTable} (filed : s.Filed) {jobId : Nat} {job moved : JobLife}
    {action : JobLife.Action} (there : s.jobs jobId = some job)
    (stepped : job.step action = some moved)
    (jobs : next.jobs = Function.update s.jobs jobId (some moved))
    (spawns : next.spawns = s.spawns) : next.Filed := by
  constructor
  · -- The numbers with a job stay the same.
    intro other
    rw [jobs, spawns, ← filed.entered]
    by_cases same : other = jobId
    · subst same
      rw [Function.update_self, there]
      simp
    · rw [Function.update_of_ne same]
  · intro other held found
    rw [jobs] at found
    rcases found_update found with ⟨rfl, rfl⟩ | before
    · rw [JobLife.jobId_step stepped]
      exact filed.own other job there
    · exact filed.own other held before

/-- The jobs of the table are filed as before if neither they nor the calls on them change. -/
theorem Filed.alike {s next : JobTable} (filed : s.Filed) (jobs : next.jobs = s.jobs)
    (spawns : next.spawns.filterMap JobTable.entered = s.spawns.filterMap JobTable.entered) :
    next.Filed := by
  constructor
  · rw [jobs, spawns]
    exact filed.entered
  · rw [jobs]
    exact filed.own

/-- A call that enters its job adds its number to those of the jobs in the table. -/
theorem Filed.enter {s next : JobTable} (filed : s.Filed) {call : Nat} {child : JobLife}
    {phase moved : SpawnPhase} (here : s.spawns[call]? = some phase)
    (without : JobTable.entered phase = none) (gets : JobTable.entered moved = some child.jobId)
    (jobs : next.jobs = Function.update s.jobs child.jobId (some child))
    (spawns : next.spawns = s.spawns.set call moved) : next.Filed := by
  have numbers := tickets_moved_new here without gets
  rw [← spawns] at numbers
  constructor
  · intro other
    -- Only the new number is in the table and has been returned, both at once.
    rw [numbers.mem_iff, List.mem_cons, ← filed.entered, jobs]
    by_cases same : other = child.jobId
    · subst same
      simp
    · rw [Function.update_of_ne same]
      simp [same]
  · intro other held found
    rw [jobs] at found
    rcases found_update found with ⟨rfl, rfl⟩ | before
    · rfl
    · exact filed.own other held before

/-- A step leaves the jobs of the table under their own numbers. -/
theorem Filed.step {s next : JobTable} {action : Action} (filed : s.Filed)
    (stepped : s.step action = some next) : next.Filed := by
  -- Only an entry and an action of a job touch the table.
  cases effect_of_step stepped with
  | arrived params canonicalize child =>
    refine filed.alike rfl ?_
    dsimp only
    rw [List.filterMap_append, List.filterMap_cons_none (taken_arrival _ _ _ _).2,
      List.filterMap_nil, List.append_nil]
  | numbered here => exact filed.alike rfl (tickets_moved_alike here rfl)
  | entered here => exact filed.enter here rfl rfl rfl rfl
  | happened here went => exact filed.alike rfl (tickets_moved_alike here (taken_early went).2)
  | acted there went => exact filed.act there went rfl rfl
  | refused absent => exact filed.alike rfl rfl

/-- A daemon that has just been started has no jobs and has given no numbers. -/
theorem empty_counted_filed (root : OsPath) : (empty root).Counted ∧ (empty root).Filed := by
  refine ⟨⟨rfl, ?_, List.nodup_nil⟩, ⟨?_, ?_⟩⟩
  · intro jobId member
    cases member
  · intro jobId
    exact iff_of_false (by simp [empty]) List.not_mem_nil
  · intro jobId job found
    cases found

/-- A number that a call has returned is one that it has taken. -/
theorem entered_sublist (spawns : List SpawnPhase) :
    (spawns.filterMap entered).Sublist (spawns.filterMap taken) := by
  induction spawns with
  | nil => exact List.Sublist.refl []
  | cons phase rest ih =>
    cases phase with
    | started params pid child => exact ih
    -- Such a call has taken a number and has not returned it yet.
    | numbered params pid child => exact ih.cons _
    | returned result => exact ih.cons_cons _
    | failed error => exact ih

/--
As long as fewer jobs have been started than there are numbers, no two calls of `tool.spawn` return
the same number, and the jobs that can be asked for are those whose numbers have been returned.
-/
theorem jobs_have_own_numbers {root : OsPath} {actions : List Action} {last : JobTable}
    (ran : run step (empty root) actions = some last) (few : last.spawns.length < 2 ^ 64) :
    (∀ (i j : Nat) (result other : ToolSpawnResult),
        last.spawns[i]? = some (.returned result) → last.spawns[j]? = some (.returned other) →
          result.jobId = other.jobId → i = j) ∧
      (∀ jobId, (last.jobs jobId).isSome ↔
        ∃ result, SpawnPhase.returned result ∈ last.spawns ∧ result.jobId = jobId) ∧
      ∀ jobId job, last.jobs jobId = some job → job.jobId = jobId := by
  have kept : (last.spawns.length < 2 ^ 64 → last.Counted) ∧ last.Filed := by
    refine run_invariant (fun s => (s.spawns.length < 2 ^ 64 → s.Counted) ∧ s.Filed) ?_ ?_ ran
    · rintro s action next ⟨counted, filed⟩ stepped
      refine ⟨fun still => ?_, filed.step stepped⟩
      -- There were no more calls before the step.
      have before := Nat.lt_of_le_of_lt (length_spawns_step stepped) still
      exact (counted before).step before stepped
    · exact ⟨fun _ => (empty_counted_filed root).1, (empty_counted_filed root).2⟩
  obtain ⟨counted, filed⟩ := kept
  -- What has been returned is a part of what has been taken.
  have apart := (counted few).apart.sublist (entered_sublist last.spawns)
  refine ⟨?_, fun jobId => ?_, filed.own⟩
  · intro i j result other here there same
    have holds : entered (.returned result) = some other.jobId := congrArg some same
    exact ticket_holder apart here there holds rfl
  · rw [filed.entered, List.mem_filterMap]
    constructor
    · rintro ⟨phase, member, number⟩
      cases phase with
      | started params pid child => cases number
      | numbered params pid child => cases number
      | returned result => exact ⟨result, member, Option.some.inj number⟩
      | failed error => cases number
    · rintro ⟨result, member, same⟩
      exact ⟨.returned result, member, congrArg some same⟩

/-- A command that is started in the root. -/
def trueCommand : ToolSpawnParams := { command := "true", args := [], cwd := none, env := [] }

/-- Two calls that take their numbers and enter their jobs one between the other, and a write. -/
def twoJobs : List Action :=
  [.spawn trueCommand (.ok []) (.ok 7), .spawn trueCommand (.ok []) (.ok 8), .advance 1,
    .advance 0, .advance 0, .advance 1, .act 1 (.write ['a']), .act 2 (.write ['b'])]

/-- The calls of two jobs return two numbers. -/
theorem jobs_have_own_numbers_two :
    ∃ last, run step (empty []) twoJobs = some last ∧
      ∀ i j : Nat, ∀ result other : ToolSpawnResult,
        last.spawns[i]? = some (.returned result) → last.spawns[j]? = some (.returned other) →
          result.jobId = other.jobId → i = j := by
  refine ⟨_, rfl, ?_⟩
  exact (jobs_have_own_numbers (show run step (empty []) twoJobs = some _ from rfl)
    (by decide)).1

/-- An action is one on this job, or none on a job of the table. -/
def concerns (jobId : Nat) : Action → Bool
  | .act other _ => other == jobId
  | .spawn .. | .advance _ | .early .. => true

/-- Two tables in which a job is the same, and so are the calls that start jobs. -/
structure Agrees (jobId : Nat) (s other : JobTable) : Prop where
  root : s.root = other.root
  nextId : s.nextId = other.nextId
  spawns : s.spawns = other.spawns
  job : s.jobs jobId = other.jobs jobId

/-- What is asked of one job changes nothing of another one. -/
theorem Agrees.unconcerned {jobId : Nat} {s next other : JobTable} {action : Action}
    (agrees : Agrees jobId s other) (apart : concerns jobId action = false)
    (stepped : s.step action = some next) : Agrees jobId next other := by
  -- Without a spawn, only an action of another job is left, which does not touch this one.
  cases effect_of_step stepped with
  | arrived params canonicalize child => cases apart
  | numbered here => cases apart
  | entered here => cases apart
  | happened here went => cases apart
  | acted there went =>
    have ne := ne_of_beq_false apart
    exact ⟨agrees.root, agrees.nextId, agrees.spawns,
      (Function.update_of_ne (Ne.symm ne) _ _).trans agrees.job⟩
  | refused absent => exact ⟨agrees.root, agrees.nextId, agrees.spawns, agrees.job⟩

/-- What happens otherwise happens in the same way whatever the other jobs are. -/
theorem Agrees.concerned {jobId : Nat} {s next other : JobTable} {action : Action}
    (agrees : Agrees jobId s other) (mine : concerns jobId action = true)
    (stepped : s.step action = some next) :
    ∃ next', other.step action = some next' ∧ Agrees jobId next next' := by
  cases action with
  | spawn params canonicalize child =>
    cases stepped
    refine ⟨_, rfl, agrees.root, agrees.nextId, ?_, agrees.job⟩
    dsimp only
    rw [agrees.spawns, agrees.root]
  | advance call =>
    obtain ⟨phase, here, went⟩ := Option.bind_eq_some_iff.mp stepped
    rw [agrees.spawns] at here
    cases phase with
    | started params pid child =>
      cases went
      refine ⟨_, Option.bind_eq_some_iff.mpr ⟨_, here, rfl⟩, agrees.root, ?_, ?_, agrees.job⟩
      · dsimp only
        rw [agrees.nextId]
      · dsimp only
        rw [agrees.nextId, agrees.spawns]
    | numbered params pid child =>
      cases went
      refine ⟨_, Option.bind_eq_some_iff.mpr ⟨_, here, rfl⟩, agrees.root, agrees.nextId, ?_, ?_⟩
      · dsimp only
        rw [agrees.spawns]
      · -- The new job is the same one in both tables.
        dsimp only
        by_cases same : jobId = child.jobId
        · subst same
          rw [Function.update_self, Function.update_self]
        · rw [Function.update_of_ne same, Function.update_of_ne same]
          exact agrees.job
    | returned result => cases went
    | failed error => cases went
  | early call event =>
    obtain ⟨moved, happened, rfl⟩ := Option.map_eq_some_iff.mp stepped
    rw [agrees.spawns] at happened
    refine ⟨_, Option.map_eq_some_iff.mpr ⟨moved, happened, rfl⟩, agrees.root, agrees.nextId, ?_,
      agrees.job⟩
    dsimp only
    rw [agrees.spawns]
  | act number action =>
    obtain rfl := eq_of_beq mine
    simp only [step] at stepped ⊢
    -- The job is looked up under its own number, where both tables are the same.
    rw [← agrees.job]
    split at stepped
    · rename_i job there
      obtain ⟨moved, went, rfl⟩ := Option.map_eq_some_iff.mp stepped
      refine ⟨_, Option.map_eq_some_iff.mpr ⟨moved, went, rfl⟩, agrees.root, agrees.nextId,
        agrees.spawns, ?_⟩
      dsimp only
      rw [Function.update_self, Function.update_self]
    · cases stepped
      exact ⟨_, rfl, agrees.root, agrees.nextId, agrees.spawns, agrees.job⟩
    · cases stepped
      exact ⟨_, rfl, agrees.root, agrees.nextId, agrees.spawns, agrees.job⟩
    · cases stepped
    · cases stepped

/-- A run without the actions on other jobs ends with the same job. -/
theorem Agrees.run {jobId : Nat} {s other last : JobTable} {actions : List Action}
    (agrees : Agrees jobId s other) (ran : run step s actions = some last) :
    ∃ alone, Transition.run step other (actions.filter (concerns jobId)) = some alone ∧
      Agrees jobId last alone := by
  induction actions generalizing s other with
  | nil =>
    cases ran
    exact ⟨other, rfl, agrees⟩
  | cons action rest ih =>
    obtain ⟨next, stepped, ran⟩ := run_cons_eq_some.mp ran
    cases mine : concerns jobId action with
    | true =>
      obtain ⟨next', stepped', agrees⟩ := agrees.concerned mine stepped
      obtain ⟨alone, ran', agrees⟩ := ih agrees ran
      refine ⟨alone, ?_, agrees⟩
      rw [List.filter_cons_of_pos mine]
      exact run_cons_eq_some.mpr ⟨next', stepped', ran'⟩
    | false =>
      -- The other table takes no step at all.
      rw [List.filter_cons_of_neg (by simp [mine])]
      exact ih (agrees.unconcerned mine stepped) ran

/-- A process has done something on its own, whatever number its job gets or has. -/
def Lived : SpawnPhase → Prop
  | .started _ _ child =>
    ∀ jobId, ∃ own, run JobLife.step (.spawned jobId) own = some { child with jobId }
  | .numbered _ _ child => ∃ own, run JobLife.step (.spawned child.jobId) own = some child
  | .returned _ | .failed _ => True

/-- Each job of the table has gone through a run of its own. -/
structure LivedAll (s : JobTable) : Prop where
  jobs : ∀ jobId job, s.jobs jobId = some job →
    ∃ own, run JobLife.step (.spawned jobId) own = some job
  spawns : ∀ phase ∈ s.spawns, Lived phase

/-- A job that has gone through a run goes on with it. -/
theorem lived_step {start job moved : JobLife} {action : JobLife.Action}
    (lived : ∃ own, run JobLife.step start own = some job) (went : job.step action = some moved) :
    ∃ own, run JobLife.step start own = some moved := by
  obtain ⟨own, ran⟩ := lived
  refine ⟨own ++ [action], run_append_eq_some.mpr ⟨job, ran, ?_⟩⟩
  exact run_cons_eq_some.mpr ⟨moved, went, rfl⟩

/-- What a process does on its own is a step of its run. -/
theorem lived_early {event : JobEvent} {phase moved : SpawnPhase} (lived : Lived phase)
    (went : early event phase = some moved) : Lived moved := by
  -- Before it has a number, the child behaves the same under any number.
  cases phase with
  | started params pid child =>
    obtain ⟨next, stepped, rfl⟩ := Option.map_eq_some_iff.mp went
    intro jobId
    have goes_on : ({ child with jobId } : JobLife).step event.action =
        some { next with jobId } := by
      rw [JobLife.step_event, stepped]
      rfl
    exact lived_step (lived jobId) goes_on
  | numbered params pid child =>
    obtain ⟨next, stepped, rfl⟩ := Option.map_eq_some_iff.mp went
    have goes_on := lived_step lived stepped
    rw [← JobLife.jobId_step stepped] at goes_on
    exact goes_on
  | returned result => cases went
  | failed error => cases went

/-- A process that has just been started has done nothing. -/
theorem lived_arrival (root : OsPath) (params : ToolSpawnParams)
    (canonicalize : Except String OsPath) (child : Except String Nat) :
    Lived (arrival root params canonicalize child) := by
  -- A call that is refused has no child, and any other one has a new child.
  unfold arrival
  dsimp only
  split
  · trivial
  · split
    · trivial
    · trivial
    · exact fun jobId => ⟨[], rfl⟩

/-- A step leaves each job with a run of its own. -/
theorem LivedAll.step {s next : JobTable} {action : Action} (lived : s.LivedAll)
    (stepped : s.step action = some next) : next.LivedAll := by
  have others {call : Nat} {moved : SpawnPhase} (new : Lived moved) :
      ∀ phase ∈ s.spawns.set call moved, Lived phase := by
    intro phase member
    rcases List.mem_or_eq_of_mem_set member with old | rfl
    · exact lived.spawns phase old
    · exact new
  cases effect_of_step stepped with
  | arrived params canonicalize child =>
    refine ⟨lived.jobs, fun phase member => ?_⟩
    rcases List.mem_append.mp member with old | new
    · exact lived.spawns phase old
    · rw [List.mem_singleton.mp new]
      exact lived_arrival s.root params canonicalize child
  | numbered here =>
    -- Whatever the process did without a number is what it would have done with this one.
    exact ⟨lived.jobs, others (lived.spawns _ (List.mem_of_getElem? here) s.nextId)⟩
  | @entered call params pid child here =>
    refine ⟨fun jobId job found => ?_, others trivial⟩
    rcases found_update found with ⟨rfl, rfl⟩ | before
    · -- Its run is the one that the call has seen until here.
      exact lived.spawns _ (List.mem_of_getElem? here)
    · exact lived.jobs jobId job before
  | happened here went =>
    exact ⟨lived.jobs, others (lived_early (lived.spawns _ (List.mem_of_getElem? here)) went)⟩
  | @acted number action job moved there went =>
    refine ⟨fun jobId held found => ?_, lived.spawns⟩
    rcases found_update found with ⟨rfl, rfl⟩ | before
    · exact lived_step (lived.jobs jobId job there) went
    · exact lived.jobs jobId held before
  | refused absent => exact ⟨lived.jobs, lived.spawns⟩

/--
Whatever happens to other jobs and is asked of them, a job of the table is what it would be without
any of that, and it has gone through a run of its own from where it was spawned.
-/
theorem jobs_do_not_interfere {root : OsPath} {actions : List Action} {last : JobTable}
    (ran : run step (empty root) actions = some last) {jobId : Nat} {job : JobLife}
    (there : last.jobs jobId = some job) :
    (∃ own, run JobLife.step (.spawned jobId) own = some job) ∧
      ∃ alone, run step (empty root) (actions.filter (concerns jobId)) = some alone ∧
        alone.jobs jobId = some job ∧ alone.spawns = last.spawns := by
  have lived : last.LivedAll := by
    refine run_invariant LivedAll (fun s action next lived => lived.step) ?_ ran
    refine ⟨fun jobId job found => ?_, fun phase member => ?_⟩
    · cases found
    · cases member
  -- Both runs begin with the same table.
  have same : Agrees jobId (empty root) (empty root) := ⟨rfl, rfl, rfl, rfl⟩
  obtain ⟨alone, ran', agrees⟩ := same.run ran
  exact ⟨lived.jobs jobId job there, alone, ran', agrees.job ▸ there, agrees.spawns.symm⟩

/-- The job that one call has started, with and without the other call's job. -/
theorem jobs_do_not_interfere_two :
    ∃ last job, run step (empty []) twoJobs = some last ∧ last.jobs 1 = some job ∧
      ∃ alone, run step (empty []) (twoJobs.filter (concerns 1)) = some alone ∧
        alone.jobs 1 = some job := by
  refine ⟨_, _, rfl, rfl, ?_⟩
  obtain ⟨_, alone, ran, same, _⟩ :=
    jobs_do_not_interfere (show run step (empty []) twoJobs = some _ from rfl)
      (show JobTable.jobs _ 1 = some _ from rfl)
  exact ⟨alone, ran, same⟩

end JobTable

end McpCli
