import Mathlib.Algebra.BigOperators.Group.List.Basic
import Mathlib.Data.List.Induction
import Mathlib.Data.List.Perm.Basic
import McpCli.Daemon.MetricsReport
import McpCli.Proofs.Daemon.Metrics

/-! What the metrics report, whenever they are asked, and whatever calls are on their way. -/

namespace McpCli

open Listing Transition ToolMetrics

/-- Where the same is shown, it is by the same counters. -/
theorem ToolCounter.Shows.unique {one other : ToolCounter} {total : (MetricsCall → Nat) → Nat}
    {peak : Nat} (first : one.Shows total peak) (second : other.Shows total peak) :
    one = other := by
  -- Each counter is told by the number that it shows.
  have calls := UInt64.toNat_inj.mp (first.calls.trans second.calls.symm)
  have rawBytes := UInt64.toNat_inj.mp (first.rawBytes.trans second.rawBytes.symm)
  have compacted := UInt64.toNat_inj.mp (first.compactedBytes.trans second.compactedBytes.symm)
  have timed := UInt64.toNat_inj.mp (first.latencyCalls.trans second.latencyCalls.symm)
  have durations := UInt64.toNat_inj.mp (first.latencySumUs.trans second.latencySumUs.symm)
  have longest := UInt64.toNat_inj.mp (first.latencyMaxUs.trans second.latencyMaxUs.symm)
  cases one
  cases other
  simp_all only

namespace ToolRows

/-- What is left of the rows by a call that is made while there is no other one. -/
def count (rows : ToolRows) (call : MetricsCall) : ToolRows :=
  if rows.any fun row => row.1 = call.tool then rows.bump call.tool (call.change 0)
  else rows ++ [(call.tool, call.first)]

/-- The rows after some calls that were made one after the other. -/
def countAll (calls : List MetricsCall) : ToolRows := calls.foldl count []

/-- The rows show what some calls have recorded, each of them once. -/
structure Counts (calls : List MetricsCall) (rows : ToolRows) : Prop where
  distinct : (rows.map Prod.fst).Nodup
  named : ∀ tool, tool ∈ rows.map Prod.fst ↔ ∃ call ∈ calls, call.tool = tool
  counted : ∀ row ∈ rows, row.2.Shows (sumFor calls row.1) (maxFor calls row.1)

variable {calls others : List MetricsCall} {rows : ToolRows} {call : MetricsCall}

/-- Nothing is left of the calls for a tool if there are none. -/
theorem filter_tool_nil {tool : String} (absent : ¬ ∃ call ∈ calls, call.tool = tool) :
    calls.filter (fun call => call.tool = tool) = [] := by
  rw [List.filter_eq_nil_iff]
  exact fun call member own => absent ⟨call, member, of_decide_eq_true own⟩

/-- One more call adds to the sums of its tool. -/
theorem sumFor_append (calls : List MetricsCall) (call : MetricsCall) (tool : String)
    (field : MetricsCall → Nat) :
    sumFor (calls ++ [call]) tool field =
      sumFor calls tool field + if call.tool = tool then field call else 0 := by
  rw [sumFor, sumFor, List.filter_append, List.map_append, List.sum_append]
  by_cases own : call.tool = tool
  · simp [own]
  · simp [own]

/-- And it may be the longest one of its tool. -/
theorem maxFor_append (calls : List MetricsCall) (call : MetricsCall) (tool : String) :
    maxFor (calls ++ [call]) tool =
      max (maxFor calls tool) (if call.tool = tool then call.duration else 0) := by
  -- The greatest of some weights is the same from either end.
  have last (weights : List Nat) (weight : Nat) :
      (weights ++ [weight]).foldr max 0 = max (weights.foldr max 0) weight := by
    induction weights with
    | nil => simp
    | cons first rest ih => simp only [List.cons_append, List.foldr_cons, ih, max_assoc]
  rw [maxFor, maxFor, List.filter_append, List.map_append]
  by_cases own : call.tool = tool
  · rw [List.filter_cons_of_pos (by simpa using own), List.filter_nil, List.map_singleton, last,
      if_pos own]
  · rw [List.filter_cons_of_neg (by simpa using own), List.filter_nil, List.map_nil,
      List.append_nil, if_neg own, Nat.max_zero]

/-- A row of another tool is not concerned by a call. -/
theorem Counts.other (counts : Counts calls rows) {row : String × ToolCounter} (member : row ∈ rows)
    (apart : row.1 ≠ call.tool) :
    row.2.Shows (sumFor (calls ++ [call]) row.1) (maxFor (calls ++ [call]) row.1) := by
  -- The call adds nothing to the sums of another tool.
  have sums : sumFor (calls ++ [call]) row.1 = sumFor calls row.1 := by
    funext field
    rw [sumFor_append, if_neg (Ne.symm apart), Nat.add_zero]
  rw [sums, maxFor_append, if_neg (Ne.symm apart), Nat.max_zero]
  exact counts.counted row member

/-- One more call is counted with the others. -/
theorem Counts.count (counts : Counts calls rows) (call : MetricsCall) :
    Counts (calls ++ [call]) (rows.count call) := by
  have named (tool : String) : (∃ one ∈ calls ++ [call], one.tool = tool) ↔
      tool ∈ rows.map Prod.fst ∨ call.tool = tool := by
    rw [counts.named]
    simp [or_and_right, exists_or]
  have own : sumFor (calls ++ [call]) call.tool =
      fun field => sumFor calls call.tool field + field call := by
    funext field
    rw [sumFor_append, if_pos rfl]
  rw [ToolRows.count]
  split
  · -- The row is there, and the call is added to it.
    rename_i found
    have there := any_iff.mp found
    refine ⟨?_, fun tool => ?_, fun row member => ?_⟩
    · rw [map_fst_bump]
      exact counts.distinct
    · rw [map_fst_bump, named]
      exact ⟨.inl, fun either => either.elim id fun same => same ▸ there⟩
    · rcases mem_bump counts.distinct member with ⟨apart, old⟩ | ⟨counter, old, rfl⟩
      · exact counts.other old apart
      · rw [own, maxFor_append, if_pos rfl]
        exact (counts.counted _ old).change 0 call
  · -- There is no row, as no call of the tool was made before.
    rename_i missing
    have absent : call.tool ∉ rows.map Prod.fst := fun there => missing (any_iff.mpr there)
    refine ⟨?_, fun tool => ?_, fun row member => ?_⟩
    · rw [List.map_append, List.nodup_append]
      refine ⟨counts.distinct, List.nodup_singleton _, fun name old other new same => ?_⟩
      rw [List.map_singleton, List.mem_singleton] at new
      rw [same, new] at old
      exact absent old
    · rw [named, List.map_append, List.mem_append, List.map_singleton, List.mem_singleton]
      exact or_congr_right eq_comm
    · rcases List.mem_append.mp member with old | new
      · refine counts.other old fun same => absent ?_
        rw [← same]
        exact List.mem_map_of_mem old
      · rw [List.mem_singleton.mp new]
        have nothing : calls.filter (fun one => one.tool = call.tool) = [] :=
          filter_tool_nil fun before => absent ((counts.named _).mpr before)
        have sums : sumFor (calls ++ [call]) call.tool = fun field => field call := by
          rw [own]
          funext field
          rw [sumFor, nothing, List.map_nil, List.sum_nil, Nat.zero_add]
        rw [sums, maxFor_append, if_pos rfl, maxFor, nothing, List.map_nil, List.foldr_nil,
          Nat.zero_max]
        exact call.first_shows

/-- The rows show calls that were made one after the other. -/
theorem countAll_counts (calls : List MetricsCall) : Counts calls (countAll calls) := by
  induction calls using List.reverseRecOn with
  | nil => exact ⟨List.nodup_nil, fun tool => by simp [countAll], fun row member => by cases member⟩
  | append_singleton calls call ih =>
    rw [countAll, List.foldl_append]
    exact ih.count call

/-- It does not matter in which order the calls were made. -/
theorem Counts.of_perm (counts : Counts calls rows) (perm : calls.Perm others) :
    Counts others rows := by
  have own (tool : String) : (calls.filter fun call => call.tool = tool).Perm
      (others.filter fun call => call.tool = tool) := perm.filter _
  refine ⟨counts.distinct, fun tool => ?_, fun row member => ?_⟩
  · rw [counts.named]
    exact exists_congr fun call => and_congr_left fun _ => perm.mem_iff
  · -- Neither a sum nor a greatest value depends on the order.
    have sums : sumFor others row.1 = sumFor calls row.1 := by
      funext field
      exact (((own row.1).map field).sum_nat).symm
    have greatest : maxFor others row.1 = maxFor calls row.1 :=
      (((own row.1).map MetricsCall.duration).foldr_eq 0).symm
    rw [sums, greatest]
    exact counts.counted row member

/-- Rows that show the same calls are the same, in some order. -/
theorem Counts.rows_perm {again : ToolRows} (counts : Counts calls rows)
    (same : Counts calls again) : rows.Perm again := by
  -- A row is determined by its name, as it shows what was recorded for it.
  have within {one other : ToolRows} (first : Counts calls one) (second : Counts calls other)
      (row : String × ToolCounter) (member : row ∈ one) : row ∈ other := by
    have name : row.1 ∈ other.map Prod.fst :=
      (second.named _).mpr ((first.named _).mp (List.mem_map_of_mem member))
    obtain ⟨twin, there, named⟩ := List.mem_map.mp name
    have shown := second.counted twin there
    rw [named] at shown
    have equal : row = twin := Prod.ext named.symm ((first.counted row member).unique shown)
    rw [equal]
    exact there
  exact (List.perm_ext_iff_of_nodup (.of_map _ counts.distinct) (.of_map _ same.distinct)).mpr
    fun row => ⟨within counts same row, within same counts row⟩

/-- Every call belongs to one tool. -/
theorem sum_sumFor {tools : List String} (distinct : tools.Nodup) (calls : List MetricsCall)
    (field : MetricsCall → Nat) (all : ∀ call ∈ calls, call.tool ∈ tools) :
    (tools.map fun tool => sumFor calls tool field).sum = (calls.map field).sum := by
  -- The last call is added to the sums of its tool, which is one of the tools.
  induction calls using List.reverseRecOn with
  | nil => simp [sumFor]
  | append_singleton calls call ih =>
    have before := ih fun one member => all one (List.mem_append_left _ member)
    -- Only the tool of the call has something to add, and it is there once.
    have last : (tools.map fun tool => if call.tool = tool then field call else 0).sum =
        field call := by
      have here := all call (List.mem_append_right _ List.mem_cons_self)
      rw [List.sum_map_eq_nsmul_single call.tool _ fun other apart _ => if_neg (Ne.symm apart),
        List.count_eq_one_of_mem distinct here, one_nsmul, if_pos rfl]
    simp only [sumFor_append, List.sum_map_add, before, last, List.map_append, List.sum_append,
      List.map_singleton, List.sum_singleton]

/-- A sum of counters wraps around as the sum of what they count does. -/
theorem toNat_sum (counters : List UInt64) :
    counters.sum.toNat = (counters.map UInt64.toNat).sum % 2 ^ 64 := by
  induction counters with
  | nil => rfl
  | cons first rest ih =>
    rw [List.sum_cons, UInt64.toNat_add, ih, Nat.add_mod_mod, List.map_cons, List.sum_cons]

/-- The counters of all tools together show what all calls have recorded. -/
theorem Counts.sum (counts : Counts calls rows) {counter : ToolCounter → UInt64}
    {field : MetricsCall → Nat}
    (shows_ : ∀ row ∈ rows, (counter row.2).toNat = sumFor calls row.1 field % 2 ^ 64)
    {counters : List UInt64} (perm : counters.Perm (rows.map fun row => counter row.2)) :
    counters.sum.toNat = (calls.map field).sum % 2 ^ 64 := by
  have all : ∀ call ∈ calls, call.tool ∈ rows.map Prod.fst := fun call member =>
    (counts.named _).mpr ⟨call, member, rfl⟩
  -- Each row shows its own sum, up to what a word can hold.
  have parts : (rows.map fun row => (counter row.2).toNat) =
      ((rows.map Prod.fst).map fun tool => sumFor calls tool field).map (· % 2 ^ 64) := by
    rw [List.map_map, List.map_map]
    exact List.map_congr_left shows_
  calc counters.sum.toNat = (counters.map UInt64.toNat).sum % 2 ^ 64 := toNat_sum counters
    _ = (rows.map fun row => (counter row.2).toNat).sum % 2 ^ 64 := by
        rw [(perm.map UInt64.toNat).sum_nat, List.map_map]
        rfl
    _ = ((rows.map Prod.fst).map fun tool => sumFor calls tool field).sum % 2 ^ 64 := by
        rw [parts, ← List.sum_nat_mod]
    _ = (calls.map field).sum % 2 ^ 64 := by rw [sum_sumFor counts.distinct calls field all]

/-- What is reported of the bytes that some calls have recorded. -/
structure GainLaws (calls : List MetricsCall) (result : MetricsGainResult) : Prop where
  ordered : result.perTool.Pairwise fun one other => other.rawBytes < one.rawBytes ∨
    one.rawBytes = other.rawBytes ∧ one.tool < other.tool
  tools : ∀ tool, tool ∈ result.perTool.map ToolGainEntry.tool ↔ ∃ call ∈ calls, call.tool = tool
  entries : ∀ entry ∈ result.perTool,
    entry.calls.toNat = sumFor calls entry.tool MetricsCall.recorded % 2 ^ 64 ∧
      entry.rawBytes.toNat = sumFor calls entry.tool MetricsCall.raw % 2 ^ 64 ∧
        entry.compactedBytes.toNat = sumFor calls entry.tool MetricsCall.compacted % 2 ^ 64
  raw : result.totalRawBytes.toNat = (calls.map MetricsCall.raw).sum % 2 ^ 64
  compacted : result.totalCompactedBytes.toNat = (calls.map MetricsCall.compacted).sum % 2 ^ 64

/-- What is reported of the durations that some calls have recorded. -/
structure LatencyLaws (calls : List MetricsCall) (result : MetricsToolLatencyResult) : Prop where
  ordered : result.perTool.Pairwise fun one other => other.latencySumUs < one.latencySumUs ∨
    one.latencySumUs = other.latencySumUs ∧ one.tool < other.tool
  tools : ∀ tool, tool ∈ result.perTool.map ToolLatencyEntry.tool ↔
    sumFor calls tool MetricsCall.timed % 2 ^ 64 ≠ 0
  entries : ∀ entry ∈ result.perTool,
    entry.calls.toNat = sumFor calls entry.tool MetricsCall.timed % 2 ^ 64 ∧
      entry.latencySumUs.toNat = sumFor calls entry.tool MetricsCall.duration % 2 ^ 64 ∧
        entry.meanUs = entry.latencySumUs / entry.calls ∧
          entry.maxUs.toNat = maxFor calls entry.tool
  /-- Where nothing has wrapped around, no mean is above the greatest duration. -/
  mean : ∀ entry ∈ result.perTool, sumFor calls entry.tool MetricsCall.timed < 2 ^ 64 →
    sumFor calls entry.tool MetricsCall.duration < 2 ^ 64 → entry.meanUs ≤ entry.maxUs

/-- The entries for the bytes are those of the rows. -/
theorem snapshot_perm (rows : ToolRows) : rows.snapshot.perTool.Perm (rows.map gainEntry) :=
  sortByKey_perm (fun entry : ToolGainEntry => weight (entry.tool, entry.rawBytes.toNat)) _

/-- What is reported of the bytes is what was recorded. -/
theorem Counts.gain (counts : Counts calls rows) : GainLaws calls rows.snapshot where
  ordered := by
    -- Rows of one weight stand in the order of their tools, of which no two are the same.
    have distinct : ((rows.map gainEntry).map ToolGainEntry.tool).Nodup := by
      rw [List.map_map]
      exact counts.distinct
    refine (pairwise_weight distinct).imp fun {one other} => ?_
    exact Or.imp UInt64.lt_iff_toNat_lt.mpr (And.imp_left UInt64.toNat_inj.mp)
  tools tool := by
    -- What is reported is the rows in another order.
    rw [((snapshot_perm rows).map ToolGainEntry.tool).mem_iff, List.map_map]
    exact counts.named tool
  entries entry member := by
    obtain ⟨row, there, rfl⟩ := List.mem_map.mp ((snapshot_perm rows).mem_iff.mp member)
    have shown := counts.counted row there
    exact ⟨shown.calls, shown.rawBytes, shown.compactedBytes⟩
  raw := counts.sum (fun row there => (counts.counted row there).rawBytes) <| by
    have perm := (snapshot_perm rows).map ToolGainEntry.rawBytes
    rw [List.map_map] at perm
    exact perm
  compacted := counts.sum (fun row there => (counts.counted row there).compactedBytes) <| by
    have perm := (snapshot_perm rows).map ToolGainEntry.compactedBytes
    rw [List.map_map] at perm
    exact perm

/-- The entries for the durations are those of the rows in which there are any. -/
theorem snapshotLatency_perm (rows : ToolRows) :
    rows.snapshotLatency.perTool.Perm (rows.filterMap latencyEntry) :=
  sortByKey_perm (fun entry : ToolLatencyEntry => weight (entry.tool, entry.latencySumUs.toNat)) _

/-- An entry for durations is that of a row in which there are some. -/
theorem latencyEntry_eq_some {row : String × ToolCounter} {entry : ToolLatencyEntry}
    (some_ : latencyEntry row = some entry) : row.2.latencyCalls ≠ 0 ∧ entry =
      ⟨row.1, row.2.latencyCalls, row.2.latencySumUs, row.2.latencySumUs / row.2.latencyCalls,
        row.2.latencyMaxUs⟩ := by
  obtain ⟨tool, counter⟩ := row
  rw [latencyEntry] at some_
  -- A row without durations is left out.
  split at some_
  · cases some_
  · rename_i timed
    cases some_
    exact ⟨timed, rfl⟩

/-- The names of the entries for durations are among those of the rows. -/
theorem latencyEntry_names (rows : ToolRows) :
    ((rows.filterMap latencyEntry).map ToolLatencyEntry.tool).Sublist (rows.map Prod.fst) := by
  -- A row without durations has no entry, and any other one has its own name.
  induction rows with
  | nil => exact .slnil
  | cons row rest ih =>
    cases own : latencyEntry row with
    | none =>
      rw [List.filterMap_cons_none own, List.map_cons]
      exact ih.cons _
    | some entry =>
      rw [List.filterMap_cons_some own, List.map_cons, List.map_cons,
        (latencyEntry_eq_some own).2]
      exact ih.cons_cons _

/-- No sum is above the number of its terms times the greatest one. -/
theorem sumFor_duration_le (calls : List MetricsCall) (tool : String) :
    sumFor calls tool MetricsCall.duration ≤
      sumFor calls tool MetricsCall.timed * maxFor calls tool := by
  induction calls using List.reverseRecOn with
  | nil => simp [sumFor]
  | append_singleton calls call ih =>
    rw [sumFor_append, sumFor_append, maxFor_append]
    -- A call whose time was not taken has no duration.
    have own : call.duration ≤ call.timed * call.duration := by
      cases call with
      | record tool rawBytes compactedBytes => exact Nat.le_refl _
      | recordLatency tool durationUs => exact (Nat.one_mul _).ge
    split
    · calc sumFor calls tool MetricsCall.duration + call.duration
        _ ≤ sumFor calls tool MetricsCall.timed * max (maxFor calls tool) call.duration +
            call.timed * max (maxFor calls tool) call.duration :=
          Nat.add_le_add (ih.trans (Nat.mul_le_mul_left _ (Nat.le_max_left _ _)))
            (own.trans (Nat.mul_le_mul_left _ (Nat.le_max_right _ _)))
        _ = (sumFor calls tool MetricsCall.timed + call.timed) *
            max (maxFor calls tool) call.duration := (Nat.add_mul _ _ _).symm
    · rw [Nat.add_zero, Nat.add_zero, Nat.max_zero]
      exact ih

/-- What is reported of the durations is what was recorded. -/
theorem Counts.latency (counts : Counts calls rows) : LatencyLaws calls rows.snapshotLatency where
  ordered := by
    have distinct := (latencyEntry_names rows).nodup counts.distinct
    refine (pairwise_weight distinct).imp fun {one other} => ?_
    exact Or.imp UInt64.lt_iff_toNat_lt.mpr (And.imp_left UInt64.toNat_inj.mp)
  tools tool := by
    rw [((snapshotLatency_perm rows).map ToolLatencyEntry.tool).mem_iff, List.mem_map]
    constructor
    · rintro ⟨entry, member, rfl⟩
      obtain ⟨row, there, own⟩ := List.mem_filterMap.mp member
      obtain ⟨timed, rfl⟩ := latencyEntry_eq_some own
      rw [← (counts.counted row there).latencyCalls]
      exact fun zero => timed (UInt64.toNat_inj.mp zero)
    · intro timed
      -- Something was recorded for the tool, so that it has a row.
      have recorded : ∃ call ∈ calls, call.tool = tool := by
        by_contra none_
        rw [sumFor, filter_tool_nil none_] at timed
        exact timed rfl
      obtain ⟨row, there, rfl⟩ := List.mem_map.mp ((counts.named tool).mpr recorded)
      have some_ : row.2.latencyCalls ≠ 0 := fun zero => timed <| by
        rw [← (counts.counted row there).latencyCalls, zero]
        rfl
      exact ⟨_, List.mem_filterMap.mpr ⟨row, there, if_neg some_⟩, rfl⟩
  entries entry member := by
    obtain ⟨row, there, own⟩ :=
      List.mem_filterMap.mp ((snapshotLatency_perm rows).mem_iff.mp member)
    obtain ⟨_, rfl⟩ := latencyEntry_eq_some own
    have shown := counts.counted row there
    exact ⟨shown.latencyCalls, shown.latencySumUs, rfl, shown.latencyMaxUs⟩
  mean entry member timed bounded := by
    obtain ⟨row, there, own⟩ :=
      List.mem_filterMap.mp ((snapshotLatency_perm rows).mem_iff.mp member)
    obtain ⟨some_, rfl⟩ := latencyEntry_eq_some own
    have shown := counts.counted row there
    have number := shown.latencyCalls
    have sum := shown.latencySumUs
    rw [Nat.mod_eq_of_lt timed] at number
    rw [Nat.mod_eq_of_lt bounded] at sum
    -- There is no entry for a tool whose calls were not timed.
    have positive : 0 < row.2.latencyCalls.toNat :=
      Nat.pos_of_ne_zero fun zero => some_ (UInt64.toNat_inj.mp zero)
    show row.2.latencySumUs / row.2.latencyCalls ≤ row.2.latencyMaxUs
    rw [UInt64.le_iff_toNat_le, UInt64.toNat_div, shown.latencyMaxUs]
    refine Nat.div_le_of_le_mul ?_
    rw [sum, number]
    exact sumFor_duration_le calls row.1

/-- The same calls are reported in the same way. -/
theorem Counts.snapshot_eq {again : ToolRows} (counts : Counts calls rows)
    (same : Counts calls again) :
    rows.snapshot = again.snapshot ∧ rows.snapshotLatency = again.snapshotLatency := by
  have perm := counts.rows_perm same
  -- There is one entry for each tool, so that the weights of two entries differ.
  have gains : rows.snapshot.perTool = again.snapshot.perTool := by
    refine sortByKey_eq_of_perm (perm.map gainEntry) fun one first other second equal => ?_
    obtain ⟨row, here, rfl⟩ := List.mem_map.mp first
    obtain ⟨row', there, rfl⟩ := List.mem_map.mp second
    have names : row.1 = row'.1 := congrArg (fun key => (ofLex key).2) equal
    rw [List.inj_on_of_nodup_map counts.distinct here there names]
  have latencies : rows.snapshotLatency.perTool = again.snapshotLatency.perTool := by
    refine sortByKey_eq_of_perm (perm.filterMap latencyEntry) fun one first other second equal => ?_
    obtain ⟨row, here, own⟩ := List.mem_filterMap.mp first
    obtain ⟨row', there, own'⟩ := List.mem_filterMap.mp second
    have names : one.tool = other.tool := congrArg (fun key => (ofLex key).2) equal
    rw [(latencyEntry_eq_some own).2, (latencyEntry_eq_some own').2] at names
    rw [List.inj_on_of_nodup_map counts.distinct here there names] at own
    exact Option.some.inj (own.symm.trans own')
  refine ⟨?_, ?_⟩
  · have totals (rows : ToolRows) : rows.snapshot =
        { perTool := rows.snapshot.perTool
          totalRawBytes := (rows.snapshot.perTool.map ToolGainEntry.rawBytes).sum
          totalCompactedBytes := (rows.snapshot.perTool.map ToolGainEntry.compactedBytes).sum } :=
      rfl
    rw [totals rows, gains, ← totals again]
  · exact congrArg MetricsToolLatencyResult.mk latencies

end ToolRows

namespace ToolMetrics

/-- The calls that are done. -/
def doneCalls (s : ToolMetrics) : List MetricsCall :=
  (s.parties.filter fun party => party.phase = .done).map Counting.call

/-- What all calls have recorded so far is what those have that are done. -/
theorem totals_eq (s : ToolMetrics) (tool : String) :
    s.total tool = sumFor s.doneCalls tool ∧ s.peak tool = maxFor s.doneCalls tool := by
  have weights (field : MetricsCall → Nat) (parties : List Counting) :
      (parties.map (share tool field)).sum =
          sumFor ((parties.filter fun party => party.phase = .done).map Counting.call) tool field ∧
        (parties.map (share tool field)).foldr max 0 =
          (((((parties.filter fun party => party.phase = .done).map Counting.call).filter
            fun call => call.tool = tool).map field).foldr max 0) := by
    induction parties with
    | nil => exact ⟨rfl, rfl⟩
    | cons party rest ih =>
      obtain ⟨sum, greatest⟩ := ih
      rw [sumFor] at sum ⊢
      rw [List.map_cons, List.sum_cons, List.foldr_cons, sum, greatest]
      -- A call counts if it is done, and for its own tool.
      by_cases done : party.phase = .done
      · by_cases own : party.call.tool = tool
        · simp [share, done, own]
        · simp [share, own, done]
      · simp [share, done]
  exact ⟨funext fun field => (weights field s.parties).1, (weights _ s.parties).2⟩

/-- The rows show the calls that are done. -/
theorem Tallied.counts {s : ToolMetrics} (tallied : s.Tallied) :
    ToolRows.Counts s.doneCalls s.inner := by
  refine ⟨tallied.distinct, fun tool => ?_, fun row member => ?_⟩
  · rw [tallied.named, Counted, doneCalls]
    simp [and_assoc]
  · obtain ⟨totals, longest⟩ := totals_eq s row.1
    rw [← totals, ← longest]
    exact tallied.counted row member

/--
Whenever the metrics are asked, however the calls take turns with the lock, what is reported is what
would be if the calls that are done had been made one after the other, in whatever order: each tool
once, the heaviest first, with the sums, means and maxima of what they have recorded.
-/
theorem reports_what_is_done {calls : List MetricsCall} {actions : List Action} {s : ToolMetrics}
    (ran : run step (start calls) actions = some s) :
    (∀ order, s.doneCalls.Perm order →
      s.inner.snapshot = (ToolRows.countAll order).snapshot ∧
        s.inner.snapshotLatency = (ToolRows.countAll order).snapshotLatency) ∧
      ToolRows.GainLaws s.doneCalls s.inner.snapshot ∧
        ToolRows.LatencyLaws s.doneCalls s.inner.snapshotLatency := by
  have tallied : s.Tallied :=
    run_invariant Tallied (fun _ _ _ tallied taken => tallied.step taken) (start_tallied calls) ran
  refine ⟨fun order perm => ?_, tallied.counts.gain, tallied.counts.latency⟩
  exact tallied.counts.snapshot_eq ((ToolRows.countAll_counts order).of_perm perm.symm)

/-- Two calls for one tool and another one, of which the first one has found no row yet. -/
def lateCalls : List MetricsCall :=
  [.record "git.status" 1000 200, .recordLatency "git.status" 300, .recordLatency "fs.read" 20]

/-- The rows when the other two are done, and the first one is about to insert a row. -/
def lateEnd : ToolMetrics where
  inner := [("git.status", ⟨0, 0, 0, 1, 300, 300⟩), ("fs.read", ⟨0, 0, 0, 1, 20, 20⟩)]
  parties := lateCalls.zipWith Counting.mk [.inserting, .done, .done]

/-- The call that is not done is not reported. -/
theorem reports_what_is_done_late :
    run step (start lateCalls) [⟨1, 0⟩, ⟨0, 0⟩, ⟨1, 0⟩, ⟨2, 0⟩, ⟨2, 0⟩] = some lateEnd ∧
      lateEnd.inner.snapshotLatency =
        (ToolRows.countAll
          [.recordLatency "fs.read" 20, .recordLatency "git.status" 300]).snapshotLatency ∧
      ToolRows.GainLaws lateEnd.doneCalls lateEnd.inner.snapshot := by
  have ran : run step (start lateCalls) [⟨1, 0⟩, ⟨0, 0⟩, ⟨1, 0⟩, ⟨2, 0⟩, ⟨2, 0⟩] =
      some lateEnd := by
    decide
  -- The two calls that are done may also have been made the other way round.
  obtain ⟨ordered, gain, _⟩ := reports_what_is_done ran
  exact ⟨ran, (ordered _ (.swap _ _ _)).2, gain⟩

end ToolMetrics

end McpCli
