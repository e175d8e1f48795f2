import McpCli.Daemon.Metrics
import McpCli.Transition.Population

/-! What the counters of the tools come to, in whichever order the calls take the lock. -/

namespace McpCli

open Transition

/-- Whatever fails in between, a maximum comes to the larger one of both. -/
theorem updateMax_toNat (candidate : UInt64) (failures : Nat) (current : UInt64) :
    (updateMax candidate failures current).toNat = max current.toNat candidate.toNat := by
  -- Each failure leaves the same exchange to be tried again.
  induction failures with
  | zero =>
    rw [updateMax]
    split
    · rename_i less
      rw [UInt64.lt_iff_toNat_lt] at less
      omega
    · rename_i enough
      rw [UInt64.lt_iff_toNat_lt] at enough
      omega
  | succ failures ih =>
    rw [updateMax]
    split
    · exact ih
    · rename_i enough
      rw [UInt64.lt_iff_toNat_lt] at enough
      omega

namespace MetricsCall

/-- One for a call of `record`. -/
def recorded : MetricsCall → Nat
  | record _ _ _ => 1
  | recordLatency _ _ => 0

/-- The raw bytes that a call records. -/
def raw : MetricsCall → Nat
  | record _ rawBytes _ => rawBytes.toNat
  | recordLatency _ _ => 0

/-- The compacted bytes that a call records. -/
def compacted : MetricsCall → Nat
  | record _ _ compactedBytes => compactedBytes.toNat
  | recordLatency _ _ => 0

/-- One for a call of `record_latency`. -/
def timed : MetricsCall → Nat
  | record _ _ _ => 0
  | recordLatency _ _ => 1

/-- The duration that a call records. -/
def duration : MetricsCall → Nat
  | record _ _ _ => 0
  | recordLatency _ durationUs => durationUs.toNat

end MetricsCall

/-- Counters that show these totals, up to their width, and this greatest duration. -/
structure ToolCounter.Shows (counter : ToolCounter) (total : (MetricsCall → Nat) → Nat)
    (peak : Nat) : Prop where
  calls : counter.calls.toNat = total MetricsCall.recorded % 2 ^ 64
  rawBytes : counter.rawBytes.toNat = total MetricsCall.raw % 2 ^ 64
  compactedBytes : counter.compactedBytes.toNat = total MetricsCall.compacted % 2 ^ 64
  latencyCalls : counter.latencyCalls.toNat = total MetricsCall.timed % 2 ^ 64
  latencySumUs : counter.latencySumUs.toNat = total MetricsCall.duration % 2 ^ 64
  latencyMaxUs : counter.latencyMaxUs.toNat = peak

/-- A sum that wraps around shows the total that wraps around. -/
theorem toNat_add_shows {a b : UInt64} {n : Nat} (shows_ : a.toNat = n % 2 ^ 64) :
    (a + b).toNat = (n + b.toNat) % 2 ^ 64 := by
  rw [UInt64.toNat_add, shows_, Nat.mod_add_mod]

/-- A call adds to the totals what it records. -/
theorem ToolCounter.Shows.change {counter : ToolCounter} {total : (MetricsCall → Nat) → Nat}
    {peak : Nat} (shows_ : counter.Shows total peak) (failures : Nat) (call : MetricsCall) :
    (call.change failures counter).Shows (fun field => total field + field call)
      (max peak call.duration) := by
  -- What a call does not record stays as it was.
  cases call with
  | record tool rawBytes compactedBytes =>
    exact
      { calls := toNat_add_shows shows_.calls
        rawBytes := toNat_add_shows shows_.rawBytes
        compactedBytes := toNat_add_shows shows_.compactedBytes
        latencyCalls := shows_.latencyCalls
        latencySumUs := shows_.latencySumUs
        latencyMaxUs := shows_.latencyMaxUs.trans (Nat.max_zero peak).symm }
  | recordLatency tool durationUs =>
    exact
      { calls := shows_.calls
        rawBytes := shows_.rawBytes
        compactedBytes := shows_.compactedBytes
        latencyCalls := toNat_add_shows shows_.latencyCalls
        latencySumUs := toNat_add_shows shows_.latencySumUs
        latencyMaxUs := by
          rw [← shows_.latencyMaxUs]
          exact updateMax_toNat durationUs failures counter.latencyMaxUs }

/-- The first call of a tool makes the counters that it would have made of empty ones. -/
theorem MetricsCall.first_shows (call : MetricsCall) :
    call.first.Shows (fun field => field call) call.duration := by
  -- What a call records fits the width, so that nothing of it has wrapped around.
  cases call with
  | record tool rawBytes compactedBytes =>
    exact
      { calls := rfl
        rawBytes := (Nat.mod_eq_of_lt rawBytes.toNat_lt).symm
        compactedBytes := (Nat.mod_eq_of_lt compactedBytes.toNat_lt).symm
        latencyCalls := rfl
        latencySumUs := rfl
        latencyMaxUs := rfl }
  | recordLatency tool durationUs =>
    exact
      { calls := rfl
        rawBytes := rfl
        compactedBytes := rfl
        latencyCalls := rfl
        latencySumUs := (Nat.mod_eq_of_lt durationUs.toNat_lt).symm
        latencyMaxUs := rfl }

namespace ToolRows

/-- Counting makes no row and takes none away. -/
@[simp] theorem map_fst_bump (tool : String) (change : ToolCounter → ToolCounter)
    (rows : ToolRows) : (rows.bump tool change).map Prod.fst = rows.map Prod.fst := by
  induction rows with
  | nil => rfl
  | cons row rest ih =>
    rw [bump]
    -- Neither branch changes a name.
    split
    · rfl
    · rw [List.map_cons, List.map_cons, ih]

/-- A row of another tool is as before, and the row of the tool was changed. -/
theorem mem_bump {tool : String} {change : ToolCounter → ToolCounter} {rows : ToolRows}
    (distinct : (rows.map Prod.fst).Nodup) {row : String × ToolCounter}
    (mem : row ∈ rows.bump tool change) :
    row.1 ≠ tool ∧ row ∈ rows ∨ ∃ old, (tool, old) ∈ rows ∧ row = (tool, change old) := by
  -- No row behind the one that is changed has the same name.
  induction rows with
  | nil => cases mem
  | cons head rest ih =>
    obtain ⟨name, counter⟩ := head
    rw [List.map_cons, List.nodup_cons] at distinct
    rw [bump] at mem
    split at mem
    · rename_i same
      rcases List.mem_cons.mp mem with rfl | mem
      · exact .inr ⟨counter, by rw [same]; exact List.mem_cons_self, by rw [same]⟩
      · refine .inl ⟨fun other => distinct.1 ?_, List.mem_cons_of_mem _ mem⟩
        rw [same, ← other]
        exact List.mem_map.mpr ⟨row, mem, rfl⟩
    · rename_i other
      rcases List.mem_cons.mp mem with rfl | mem
      · exact .inl ⟨other, List.mem_cons_self⟩
      · refine (ih distinct.2 mem).imp (fun before => ⟨before.1, ?_⟩) (fun changed => ?_)
        · exact List.mem_cons_of_mem _ before.2
        · obtain ⟨old, there, same⟩ := changed
          exact ⟨old, List.mem_cons_of_mem _ there, same⟩

/-- Whether a tool has a row is looked up by its name. -/
theorem any_iff {tool : String} {rows : ToolRows} :
    (rows.any fun row => row.1 = tool) = true ↔ tool ∈ rows.map Prod.fst := by
  simp only [List.any_eq_true, decide_eq_true_eq, List.mem_map]

end ToolRows

namespace ToolMetrics

/-- What a call has recorded for a tool so far: nothing, unless it is done. -/
def share (tool : String) (field : MetricsCall → Nat) (party : Counting) : Nat :=
  if party.phase = .done ∧ party.call.tool = tool then field party.call else 0

/-- What all calls together have recorded for a tool so far. -/
def total (s : ToolMetrics) (tool : String) (field : MetricsCall → Nat) : Nat :=
  (s.parties.map (share tool field)).sum

/-- The longest duration that a call has recorded for a tool so far. -/
def peak (s : ToolMetrics) (tool : String) : Nat :=
  (s.parties.map (share tool MetricsCall.duration)).foldr max 0

/-- A tool has been counted. -/
def Counted (s : ToolMetrics) (tool : String) : Prop :=
  ∃ party ∈ s.parties, party.phase = .done ∧ party.call.tool = tool

/-- The rows are those of the tools that have been counted, and show what was recorded for them. -/
structure Tallied (s : ToolMetrics) : Prop where
  distinct : (s.inner.map Prod.fst).Nodup
  named : ∀ tool, tool ∈ s.inner.map Prod.fst ↔ s.Counted tool
  counted : ∀ row ∈ s.inner, row.2.Shows (s.total row.1) (s.peak row.1)

variable {s : ToolMetrics} {id : Nat} {call : MetricsCall} {phase : MetricsPhase}

/-- A call that is not done has recorded nothing. -/
theorem share_of_ne (unfinished : phase ≠ .done) (tool : String) (field : MetricsCall → Nat) :
    share tool field { call, phase } = 0 :=
  if_neg fun both => unfinished both.1

/-- A call that is done has recorded something for its own tool. -/
theorem share_own (field : MetricsCall → Nat) :
    share call.tool field { call, phase := .done } = field call :=
  if_pos ⟨rfl, rfl⟩

/-- A call that is done has recorded nothing for other tools. -/
theorem share_other {tool : String} (other : call.tool ≠ tool) (field : MetricsCall → Nat) :
    share tool field { call, phase } = 0 :=
  if_neg fun both => other both.2

/-- A call that was not done adds to the totals what it has recorded by then. -/
theorem total_moved (here : s.parties[id]? = some { call, phase }) (before : phase ≠ .done)
    (next : MetricsPhase) (inner : ToolRows) (tool : String) (field : MetricsCall → Nat) :
    (s.moved id call next inner).total tool field =
      s.total tool field + share tool field { call, phase := next } := by
  have balance := Population.sum_moved (share tool field) here { call, phase := next }
  rw [share_of_ne before, Nat.add_zero] at balance
  exact balance

/-- And so it does to the longest duration. -/
theorem peak_moved (here : s.parties[id]? = some { call, phase }) (before : phase ≠ .done)
    (next : MetricsPhase) (inner : ToolRows) (tool : String) :
    (s.moved id call next inner).peak tool =
      max (s.peak tool) (share tool MetricsCall.duration { call, phase := next }) := by
  have balance := Population.peak_moved (share tool MetricsCall.duration) here
    { call, phase := next }
  -- The call has added nothing to the maximum before, so there is nothing to be taken away.
  rw [share_of_ne before, Nat.max_zero] at balance
  exact balance

/-- A tool has been counted by then if it was before, or if the call has just counted it. -/
theorem counted_moved (here : s.parties[id]? = some { call, phase }) (before : phase ≠ .done)
    (next : MetricsPhase) (inner : ToolRows) (tool : String) :
    (s.moved id call next inner).Counted tool ↔
      s.Counted tool ∨ next = .done ∧ call.tool = tool := by
  constructor
  · rintro ⟨party, mem, done, own⟩
    obtain ⟨j, there⟩ := List.mem_iff_getElem?.mp mem
    rcases Population.moved there with ⟨_, rfl⟩ | ⟨_, old⟩
    · exact .inr ⟨done, own⟩
    · exact .inl ⟨party, List.mem_of_getElem? old, done, own⟩
  · rintro (⟨party, mem, done, own⟩ | ⟨done, own⟩)
    · obtain ⟨j, there⟩ := List.mem_iff_getElem?.mp mem
      -- The call that moves was not done, so it is another one.
      have other : j ≠ id := by
        rintro rfl
        rw [here] at there
        cases there
        exact before done
      exact ⟨party, List.mem_of_getElem? (Population.moved_other there other), done, own⟩
    · exact ⟨_, List.mem_of_getElem? (Population.moved_self here), done, own⟩

/-- Where no weight counts, there is no total, and no greatest one. -/
theorem weightless {weights : List Nat} (zero : ∀ weight ∈ weights, weight = 0) :
    weights.sum = 0 ∧ weights.foldr max 0 = 0 := by
  induction weights with
  | nil => exact ⟨rfl, rfl⟩
  | cons weight rest ih =>
    rw [List.forall_mem_cons] at zero
    -- Both fold the same list, so one induction does for them.
    obtain ⟨sum, greatest⟩ := ih zero.2
    rw [List.sum_cons, List.foldr_cons, sum, greatest, zero.1]
    exact ⟨rfl, rfl⟩

/-- Nothing was recorded for a tool that was not counted. -/
theorem share_of_uncounted {tool : String} (uncounted : ¬ s.Counted tool)
    (field : MetricsCall → Nat) : ∀ weight ∈ s.parties.map (share tool field), weight = 0 := by
  intro weight mem
  obtain ⟨party, there, rfl⟩ := List.mem_map.mp mem
  exact if_neg fun both => uncounted ⟨party, there, both⟩

/-- A call that does not come to its end leaves the rows as they are. -/
theorem Tallied.pending (tallied : s.Tallied) (here : s.parties[id]? = some { call, phase })
    (before : phase ≠ .done) {next : MetricsPhase} (after : next ≠ .done) :
    (s.moved id call next s.inner).Tallied := by
  refine ⟨tallied.distinct, fun tool => ?_, fun row mem => ?_⟩
  · rw [counted_moved here before, or_iff_left fun both => after both.1]
    exact tallied.named tool
  · -- Its share is nothing before and after.
    have totals : (s.moved id call next s.inner).total row.1 = s.total row.1 := by
      funext field
      rw [total_moved here before, share_of_ne after, Nat.add_zero]
    rw [totals, peak_moved here before, share_of_ne after, Nat.max_zero]
    exact tallied.counted row mem

/-- A row of another tool still shows what was recorded for it. -/
theorem Tallied.other (tallied : s.Tallied) (here : s.parties[id]? = some { call, phase })
    (before : phase ≠ .done) {row : String × ToolCounter} (mem : row ∈ s.inner)
    (other : row.1 ≠ call.tool) (inner : ToolRows) :
    row.2.Shows ((s.moved id call .done inner).total row.1)
      ((s.moved id call .done inner).peak row.1) := by
  -- Its share in the totals of another tool is nothing.
  have totals : (s.moved id call .done inner).total row.1 = s.total row.1 := by
    funext field
    rw [total_moved here before, share_other (Ne.symm other), Nat.add_zero]
  rw [totals, peak_moved here before, share_other (Ne.symm other), Nat.max_zero]
  exact tallied.counted row mem

/-- A call that finds the row of its tool counts there. -/
theorem Tallied.found (tallied : s.Tallied) (here : s.parties[id]? = some { call, phase })
    (before : phase ≠ .done) (there : call.tool ∈ s.inner.map Prod.fst) (failures : Nat) :
    (s.moved id call .done (s.inner.bump call.tool (call.change failures))).Tallied := by
  -- No row comes or goes, so only the row of the tool is to be looked at.
  have names : (s.inner.bump call.tool (call.change failures)).map Prod.fst =
      s.inner.map Prod.fst := ToolRows.map_fst_bump _ _ _
  refine ⟨?_, fun tool => ?_, fun row mem => ?_⟩
  · rw [show (s.moved id call .done (s.inner.bump call.tool (call.change failures))).inner.map
      Prod.fst = s.inner.map Prod.fst from names]
    exact tallied.distinct
  · rw [counted_moved here before, ← tallied.named tool]
    show tool ∈ (s.inner.bump call.tool (call.change failures)).map Prod.fst ↔ _
    rw [names]
    refine ⟨.inl, ?_⟩
    rintro (old | ⟨_, rfl⟩)
    · exact old
    · exact there
  · rcases ToolRows.mem_bump tallied.distinct mem with ⟨other, old⟩ | ⟨counter, old, rfl⟩
    · exact tallied.other here before old other _
    · -- The row shows what was recorded before, and what the call has added.
      have counted := (tallied.counted _ old).change failures call
      have totals : (s.moved id call .done (s.inner.bump call.tool (call.change failures))).total
          call.tool = fun field => s.total call.tool field + field call := by
        funext field
        rw [total_moved here before, share_own]
      rw [totals, peak_moved here before, share_own]
      exact counted

/-- A call that finds no row for its tool makes one. -/
theorem Tallied.absent (tallied : s.Tallied) (here : s.parties[id]? = some { call, phase })
    (before : phase ≠ .done) (absent : call.tool ∉ s.inner.map Prod.fst) :
    (s.moved id call .done (s.inner ++ [(call.tool, call.first)])).Tallied := by
  -- The rows are those of the tools that were counted, so this one was not.
  have uncounted : ¬ s.Counted call.tool := fun counted => absent ((tallied.named _).mpr counted)
  refine ⟨?_, fun tool => ?_, fun row mem => ?_⟩
  · show ((s.inner ++ [(call.tool, call.first)]).map Prod.fst).Nodup
    rw [List.map_append, List.map_singleton, List.nodup_append]
    refine ⟨tallied.distinct, by simp, fun name old other new => ?_⟩
    rw [List.mem_singleton.mp new]
    rintro rfl
    exact absent old
  · rw [counted_moved here before, ← tallied.named tool]
    show tool ∈ (s.inner ++ [(call.tool, call.first)]).map Prod.fst ↔ _
    rw [List.map_append, List.mem_append, List.map_singleton, List.mem_singleton, eq_comm]
    simp
  · rcases List.mem_append.mp mem with old | new
    · refine tallied.other here before old (fun same => absent ?_) _
      rw [← same]
      exact List.mem_map_of_mem old
    · -- Nothing was recorded for the tool before.
      rw [List.mem_singleton.mp new]
      have totals : (s.moved id call .done (s.inner ++ [(call.tool, call.first)])).total call.tool =
          fun field => field call := by
        funext field
        rw [total_moved here before, share_own, total,
          (weightless (share_of_uncounted uncounted field)).1,
          Nat.zero_add]
      rw [totals, peak_moved here before, share_own, peak,
        (weightless (share_of_uncounted uncounted _)).2, Nat.zero_max]
      exact call.first_shows

/-- What a step does: its call goes on to look again or to insert a row, or it is done. -/
theorem step_cases {next : ToolMetrics} {action : Action} (taken : s.step action = some next) :
    ∃ call phase, s.parties[action.id]? = some { call, phase } ∧ phase ≠ .done ∧
      (phase = .looking ∧ call.tool ∉ s.inner.map Prod.fst ∧
          next = s.moved action.id call .inserting s.inner ∨
        phase = .inserting ∧ call.tool ∈ s.inner.map Prod.fst ∧
          next = s.moved action.id call .looking s.inner ∨
        phase = .looking ∧ call.tool ∈ s.inner.map Prod.fst ∧
          next = s.moved action.id call .done
            (s.inner.bump call.tool (call.change action.failures)) ∨
        phase = .inserting ∧ call.tool ∉ s.inner.map Prod.fst ∧
          next = s.moved action.id call .done (s.inner ++ [(call.tool, call.first)])) := by
  -- Which branch is taken depends on the phase of the call, and on whether its tool has a row.
  unfold step at taken
  split at taken
  · cases taken
  · rename_i call here
    refine ⟨call, _, here, by simp, ?_⟩
    split at taken
    · rename_i found
      exact .inr (.inr (.inl ⟨rfl, ToolRows.any_iff.mp found, (Option.some.inj taken).symm⟩))
    · rename_i missing
      exact .inl ⟨rfl, fun there => missing (ToolRows.any_iff.mpr there),
        (Option.some.inj taken).symm⟩
  · rename_i call here
    refine ⟨call, _, here, by simp, ?_⟩
    split at taken
    · rename_i found
      exact .inr (.inl ⟨rfl, ToolRows.any_iff.mp found, (Option.some.inj taken).symm⟩)
    · rename_i missing
      exact .inr (.inr (.inr ⟨rfl, fun there => missing (ToolRows.any_iff.mpr there),
        (Option.some.inj taken).symm⟩))
  · cases taken

/-- Every step keeps the rows at what was recorded. -/
theorem Tallied.step {next : ToolMetrics} {action : Action} (tallied : s.Tallied)
    (taken : s.step action = some next) : next.Tallied := by
  obtain ⟨call, phase, here, before, ⟨_, _, rfl⟩ | ⟨_, _, rfl⟩ | ⟨_, there, rfl⟩ |
    ⟨_, absent, rfl⟩⟩ := step_cases taken
  · -- Only a call that comes to its end changes the rows.
    exact tallied.pending here before (by simp)
  · exact tallied.pending here before (by simp)
  · exact tallied.found here before there action.failures
  · exact tallied.absent here before absent

/-- How many times a call takes the lock at most before it is done. -/
def sections (s : ToolMetrics) (id : Nat) : Nat :=
  match s.parties[id]? with
  | some { call, phase := .looking } => if call.tool ∈ s.inner.map Prod.fst then 1 else 3
  | some { phase := .inserting, .. } => 2
  | _ => 0

/-- A row that is there stays there. -/
theorem names_grow {next : ToolMetrics} {action : Action} (taken : s.step action = some next)
    {tool : String} (there : tool ∈ s.inner.map Prod.fst) : tool ∈ next.inner.map Prod.fst := by
  -- Rows are changed in place, or added behind the others.
  obtain ⟨call, phase, _, _, ⟨_, _, rfl⟩ | ⟨_, _, rfl⟩ | ⟨_, _, rfl⟩ | ⟨_, _, rfl⟩⟩ :=
    step_cases taken
  · exact there
  · exact there
  · simpa [moved] using there
  · simp only [moved, List.map_append, List.mem_append]
    exact .inl there

/-- Each time a call takes the lock, it comes nearer to its end. -/
theorem sections_own {next : ToolMetrics} {action : Action} (taken : s.step action = some next) :
    next.sections action.id < s.sections action.id := by
  obtain ⟨call, phase, here, _, ⟨rfl, absent, rfl⟩ | ⟨rfl, there, rfl⟩ | ⟨rfl, there, rfl⟩ |
    ⟨rfl, absent, rfl⟩⟩ := step_cases taken
  · -- There was no row, which makes three times: one is over, and two are left.
    rw [sections, sections, here]
    simp [moved, Population.moved_self here, absent]
  · -- The row is there by now, so that the call will find it.
    rw [sections, sections, here]
    simp [moved, Population.moved_self here, there]
  · rw [sections, sections, here]
    simp [moved, Population.moved_self here, there]
  · rw [sections, sections, here]
    simp [moved, Population.moved_self here]

/-- The other calls are no farther from their ends than before. -/
theorem sections_other {next : ToolMetrics} {action : Action} (taken : s.step action = some next)
    {other : Nat} (apart : other ≠ action.id) : next.sections other ≤ s.sections other := by
  -- The others are in the phases that they were in.
  have same : next.parties[other]? = s.parties[other]? := by
    obtain ⟨call, phase, _, _, ⟨_, _, rfl⟩ | ⟨_, _, rfl⟩ | ⟨_, _, rfl⟩ | ⟨_, _, rfl⟩⟩ :=
      step_cases taken
    all_goals exact List.getElem?_set_ne (Ne.symm apart)
  rw [sections, sections, same]
  split
  · -- A row that was there has not gone away.
    rename_i call _
    by_cases before : call.tool ∈ s.inner.map Prod.fst
    · exact Nat.le_of_eq (by rw [if_pos before, if_pos (names_grow taken before)])
    · rw [if_neg before]
      split
      · omega
      · omega
  · exact Nat.le_refl _
  · exact Nat.le_refl _

/-- In a run, a call takes the lock no more often than is left for it. -/
theorem countP_sections {last : ToolMetrics} {actions : List Action}
    (ran : run step s actions = some last) (id : Nat) :
    (actions.countP fun action => action.id = id) + last.sections id ≤ s.sections id := by
  induction actions generalizing s with
  | nil =>
    cases ran
    simp
  | cons action rest ih =>
    -- Its own steps bring it nearer to its end, and the others do not take it away from there.
    obtain ⟨next, taken, ran⟩ := run_cons_eq_some.mp ran
    have later := ih ran
    by_cases own : action.id = id
    · have nearer := sections_own taken
      rw [own] at nearer
      rw [List.countP_cons_of_pos (by simpa using own)]
      omega
    · have no_farther := sections_other taken (Ne.symm own)
      rw [List.countP_cons_of_neg (by simpa using own)]
      omega

/-- A call that is not done can take the lock. -/
theorem step_isSome {party : Counting} (here : s.parties[id]? = some party)
    (unfinished : party.phase ≠ .done) (failures : Nat) : (s.step { id, failures }).isSome := by
  obtain ⟨call, phase⟩ := party
  -- With the lock taken, a call goes on whether there is a row or not.
  unfold step
  simp only [here]
  cases phase with
  | looking => simp only; split <;> rfl
  | inserting => simp only; split <;> rfl
  | done => exact absurd rfl unfinished

/-- The calls stay the same. -/
theorem step_calls {next : ToolMetrics} {action : Action} (taken : s.step action = some next) :
    next.parties.map Counting.call = s.parties.map Counting.call := by
  have same (call : MetricsCall) (phase after : MetricsPhase)
      (here : s.parties[action.id]? = some { call, phase }) :
      (s.parties.set action.id { call, phase := after }).map Counting.call =
        s.parties.map Counting.call := by
    -- Each step puts the same call back in its place.
    obtain ⟨bound, found⟩ := List.getElem?_eq_some_iff.mp here
    refine List.ext_getElem (by simp) fun j _ _ => ?_
    by_cases own : action.id = j
    · subst own
      simp [found]
    · simp [own]
  obtain ⟨call, phase, here, _, ⟨_, _, rfl⟩ | ⟨_, _, rfl⟩ | ⟨_, _, rfl⟩ | ⟨_, _, rfl⟩⟩ :=
    step_cases taken
  all_goals exact same call phase _ here

/-- Before any call, the rows show what was recorded, which is nothing. -/
theorem start_tallied (calls : List MetricsCall) : (start calls).Tallied := by
  refine ⟨List.nodup_nil, fun tool => ?_, fun row mem => by cases mem⟩
  refine iff_of_false (by simp [start]) ?_
  rintro ⟨party, mem, done, _⟩
  obtain ⟨call, _, rfl⟩ := List.mem_map.mp mem
  cases done

/-- What some calls record for a tool. -/
def sumFor (calls : List MetricsCall) (tool : String) (field : MetricsCall → Nat) : Nat :=
  ((calls.filter fun call => call.tool = tool).map field).sum

/-- The longest duration that some calls record for a tool. -/
def maxFor (calls : List MetricsCall) (tool : String) : Nat :=
  ((calls.filter fun call => call.tool = tool).map MetricsCall.duration).foldr max 0

/-- When all calls are done, what was recorded is what they record. -/
theorem Finished.totals (finished : s.Finished) (tool : String) :
    s.total tool = sumFor (s.parties.map Counting.call) tool ∧
      s.peak tool = maxFor (s.parties.map Counting.call) tool := by
  have weights (field : MetricsCall → Nat) : ∀ parties : List Counting,
      (∀ party ∈ parties, party.phase = .done) →
        (parties.map (share tool field)).sum = sumFor (parties.map Counting.call) tool field ∧
          (parties.map (share tool field)).foldr max 0 =
            (((parties.map Counting.call).filter fun call => call.tool = tool).map field).foldr
              max 0 := by
    intro parties done
    induction parties with
    | nil => exact ⟨rfl, rfl⟩
    | cons party rest ih =>
      rw [List.forall_mem_cons] at done
      -- A call that is done counts for its own tool, as the filter has it.
      obtain ⟨sum, greatest⟩ := ih done.2
      rw [sumFor] at sum ⊢
      rw [List.map_cons, List.sum_cons, List.foldr_cons, sum, greatest, List.map_cons,
        List.filter_cons]
      by_cases own : party.call.tool = tool
      · simp [share, done.1, own]
      · simp [share, own]
  exact ⟨funext fun field => (weights field s.parties finished).1, (weights _ s.parties finished).2⟩

/-- When all calls are done, the tools that were counted are those of the calls. -/
theorem Finished.counted_iff (finished : s.Finished) (tool : String) :
    s.Counted tool ↔ ∃ call ∈ s.parties.map Counting.call, call.tool = tool := by
  constructor
  · rintro ⟨party, mem, _, own⟩
    exact ⟨party.call, List.mem_map_of_mem mem, own⟩
  · rintro ⟨call, mem, own⟩
    -- All of them are done, so each of them has been counted.
    obtain ⟨party, there, rfl⟩ := List.mem_map.mp mem
    exact ⟨party, there, finished party there, own⟩

/--
However the calls take turns with the lock, each of them is done after three turns at most, and
until then it can take its next one. When all are done, each tool that was counted has one row, with
the number and the sums of what was recorded for it, as they wrap around, and the longest duration.
-/
theorem calls_tallied {calls : List MetricsCall} {actions : List Action} {s : ToolMetrics}
    (ran : run step (start calls) actions = some s) :
    (∀ id, (actions.countP fun action => action.id = id) ≤ 3) ∧
    (∀ id party, s.parties[id]? = some party → party.phase ≠ .done →
      ∀ failures, (s.step { id, failures }).isSome) ∧
    (s.Finished →
      (s.inner.map Prod.fst).Nodup ∧
      (∀ tool, tool ∈ s.inner.map Prod.fst ↔ ∃ call ∈ calls, call.tool = tool) ∧
      ∀ row ∈ s.inner, row.2.Shows (sumFor calls row.1) (maxFor calls row.1)) := by
  refine ⟨fun id => ?_, fun id party here unfinished => step_isSome here unfinished, ?_⟩
  · -- Most are left for a call that has yet to look.
    have bound := countP_sections ran id
    have most : (start calls).sections id ≤ 3 := by
      unfold sections
      split
      · split <;> omega
      · omega
      · omega
    omega
  · intro finished
    -- What the rows show at the end is what they show after every step.
    have tallied : s.Tallied :=
      run_invariant Tallied (fun _ _ _ tallied taken => tallied.step taken) (start_tallied calls) ran
    have same : s.parties.map Counting.call = calls := by
      refine run_invariant (fun s => s.parties.map Counting.call = calls)
        (fun _ _ _ same taken => (step_calls taken).trans same) ?_ ran
      simp [start, Function.comp_def]
    refine ⟨tallied.distinct, fun tool => ?_, fun row mem => ?_⟩
    · rw [tallied.named, finished.counted_iff, same]
    · obtain ⟨totals, longest⟩ := finished.totals row.1
      rw [← same, ← totals, ← longest]
      exact tallied.counted row mem

/-- Two calls for one tool. -/
def raceCalls : List MetricsCall := [.record "git.status" 1000 200, .recordLatency "git.status" 300]

/-- The rows when both of them are done. -/
def raceEnd : ToolMetrics where
  inner := [("git.status", ⟨1, 1000, 200, 1, 300, 300⟩)]
  parties := raceCalls.map fun call => { call, phase := .done }

/-- Both find no row, and the one that comes too late to insert it counts there. -/
theorem calls_tallied_race :
    run step (start raceCalls) [⟨0, 0⟩, ⟨1, 0⟩, ⟨1, 0⟩, ⟨0, 0⟩, ⟨0, 0⟩] = some raceEnd ∧
      (raceEnd.inner.map Prod.fst).Nodup ∧
      ∀ row ∈ raceEnd.inner, row.2.Shows (sumFor raceCalls row.1) (maxFor raceCalls row.1) := by
  have ran : run step (start raceCalls) [⟨0, 0⟩, ⟨1, 0⟩, ⟨1, 0⟩, ⟨0, 0⟩, ⟨0, 0⟩] = some raceEnd := by
    decide
  -- Each call was mapped to a party that is done.
  have finished : raceEnd.Finished := by
    intro party mem
    obtain ⟨call, _, rfl⟩ := List.mem_map.mp mem
    rfl
  obtain ⟨distinct, _, counted⟩ := (calls_tallied ran).2.2 finished
  exact ⟨ran, distinct, counted⟩

end ToolMetrics

end McpCli
