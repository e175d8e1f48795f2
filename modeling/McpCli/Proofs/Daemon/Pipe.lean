import McpCli.Proofs.Daemon.PipeRefs

/-! What a pipe answers for its steps, and what their references see. -/

namespace McpCli

/-- The step has an error, or one of its items has. -/
def PipeStepResult.failed (entry : PipeStepResult) : Bool :=
  entry.error.isSome || entry.items.any fun items => items.any fun r => r.error.isSome

/-- Exactly one of the result, the error and the items is set. -/
def PipeStepResult.CarriesOne (entry : PipeStepResult) : Prop :=
  [entry.result.isSome, entry.error.isSome, entry.items.isSome].count true = 1

/-- The value that an answered step has recorded for later references, if it has. -/
def PipeStep.recorded (step : PipeStep) (entry : PipeStepResult) : Option Json :=
  match entry.items with
  | none => entry.result
  | some items =>
    -- The items without an error are recorded when the pipe goes on, whatever the others are.
    if entry.failed && !step.continueOnError then none
    else some (.array (items.filterMap fun r => r.result))

/-- The values recorded in front of a step. -/
def recordedBefore (steps : List PipeStep) (entries : List PipeStepResult) (k : Nat) :
    List (Option Json) :=
  (List.zipWith PipeStep.recorded steps entries).take k

/-- The pipe ends with this step. -/
def PipeStep.stops (step : PipeStep) (entry : PipeStepResult) : Bool :=
  entry.failed && !step.continueOnError

/-- What follows an answered step. -/
def PipeStep.flow (step : PipeStep) (entry : PipeStepResult) : PipeFlow :=
  if step.stops entry then .finish else .next

/-- The pipe with one more step answered. -/
def PipeRun.add (s : PipeRun) (step : PipeStep) (entry : PipeStepResult)
    (calls : List DispatchCall) : PipeRun where
  stepResults := s.stepResults ++ [step.recorded entry]
  responseSteps := s.responseSteps ++ [entry]
  dispatched := s.dispatched ++ calls

section
variable {libs : PipeLibs} {dispatches : Dispatches}

variable (libs dispatches)

/-- How a step is answered, by what becomes of it. -/
inductive Answered (k : Nat) (step : PipeStep) (stepResults : List (Option Json)) :
    PipeStepResult → List DispatchCall → Prop where
  | fanOut {expr items results calls} (wanted : step.forEach = some expr)
      (resolved : resolveRef libs expr.toList stepResults none false = .ok (.array items))
      (returned : runForEach libs step items (dispatches.fanOut k) = some (results, calls)) :
      Answered k step stepResults { PipeStepResult.blank step.method with items := some results }
        (calls.map fun call => { step := k, method := step.method, params := call.2 })
  /-- The nodes of a `for_each` step cannot be resolved. -/
  | unmatched {expr e} (wanted : step.forEach = some expr)
      (refused : resolveRef libs expr.toList stepResults none false = .error e) :
      Answered k step stepResults { PipeStepResult.blank step.method with error := some e } []
  /-- The references of a plain step cannot be resolved. -/
  | unresolved {e} (plain : step.forEach = none)
      (refused : substitute libs stepResults none step.params = .error e) :
      Answered k step stepResults { PipeStepResult.blank step.method with error := some e } []
  | failed {params e} (plain : step.forEach = none)
      (resolved : substitute libs stepResults none step.params = .ok params)
      (returned : dispatches.plain k = .error e) :
      Answered k step stepResults { PipeStepResult.blank step.method with error := some e }
        [{ step := k, method := step.method, params }]
  | returned {params v} (plain : step.forEach = none)
      (resolved : substitute libs stepResults none step.params = .ok params)
      (returned : dispatches.plain k = .ok v) :
      Answered k step stepResults { PipeStepResult.blank step.method with result := some v }
        [{ step := k, method := step.method, params }]

variable {libs dispatches}

/-- A step is answered once, and its entry and its value are put in the same place. -/
theorem runStep_spec {k : Nat} {step : PipeStep} {s next : PipeRun} {flow : PipeFlow}
    (ran : runStep libs dispatches k step s = some (flow, next)) :
    ∃ entry calls, Answered libs dispatches k step s.stepResults entry calls ∧
      next = s.add step entry calls ∧ flow = step.flow entry := by
  unfold runStep at ran
  cases wanted : step.forEach with
  | some expr =>
    simp only [wanted] at ran
    cases resolved : resolveRef libs expr.toList s.stepResults none false with
    | error e =>
      simp only [resolved, Option.some.injEq, Prod.mk.injEq] at ran
      obtain ⟨rfl, rfl⟩ := ran
      refine ⟨_, _, .unmatched wanted resolved, ?_, ?_⟩
      · simp [PipeRun.add, PipeStep.recorded, PipeStepResult.blank]
      · cases going : step.continueOnError <;>
          simp [PipeStep.flow, PipeStep.stops, PipeStepResult.failed, PipeStep.onError, going]
    | ok nodes =>
      -- The nodes come as an array, so that the other kinds of values are not met.
      obtain ⟨items, rfl⟩ : ∃ items, nodes = .array items := by
        rw [resolveRef_many] at resolved
        cases matched : matchRef libs expr.toList s.stepResults none with
        | error e => simp [matched, Except.map] at resolved
        | ok items =>
          simp only [matched, Except.map, Except.ok.injEq] at resolved
          exact ⟨items, resolved.symm⟩
      simp only [resolved] at ran
      cases returned : runForEach libs step items (dispatches.fanOut k) with
      | none => simp [returned] at ran
      | some outcome =>
        obtain ⟨results, calls⟩ := outcome
        simp only [returned] at ran
        refine ⟨_, _, .fanOut wanted resolved returned, ?_⟩
        -- Both branches record what the entry says.
        cases anyErr : results.any fun r => r.error.isSome <;>
          cases going : step.continueOnError <;>
          simp only [anyErr, going, Bool.not_true, Bool.not_false, Bool.and_true, Bool.and_false,
            Bool.and_self, Bool.false_eq_true, if_true, if_false, Option.some.injEq,
            Prod.mk.injEq] at ran <;>
          obtain ⟨rfl, rfl⟩ := ran <;>
          simp [PipeRun.add, PipeStep.recorded, PipeStep.flow, PipeStep.stops,
            PipeStepResult.failed, PipeStepResult.blank, anyErr, going]
  | none =>
    simp only [wanted] at ran
    cases resolved : substitute libs s.stepResults none step.params with
    | error e =>
      simp only [resolved, Option.some.injEq, Prod.mk.injEq] at ran
      obtain ⟨rfl, rfl⟩ := ran
      refine ⟨_, _, .unresolved wanted resolved, ?_, ?_⟩
      · simp [PipeRun.add, PipeStep.recorded, PipeStepResult.blank]
      · cases going : step.continueOnError <;>
          simp [PipeStep.flow, PipeStep.stops, PipeStepResult.failed, PipeStep.onError, going]
    | ok params =>
      simp only [resolved] at ran
      cases returned : dispatches.plain k with
      | error e =>
        simp only [returned, Option.some.injEq, Prod.mk.injEq] at ran
        obtain ⟨rfl, rfl⟩ := ran
        refine ⟨_, _, .failed wanted resolved returned, ?_, ?_⟩
        · simp [PipeRun.add, PipeStep.recorded, PipeStepResult.blank]
        · cases going : step.continueOnError <;>
            simp [PipeStep.flow, PipeStep.stops, PipeStepResult.failed, PipeStep.onError, going]
      | ok v =>
        simp only [returned, Option.some.injEq, Prod.mk.injEq] at ran
        obtain ⟨rfl, rfl⟩ := ran
        exact ⟨_, _, .returned wanted resolved returned, rfl, rfl⟩

/-- An answer is one of the step's method, and says one thing. -/
theorem Answered.entry {k : Nat} {step : PipeStep} {stepResults : List (Option Json)}
    {entry : PipeStepResult} {calls : List DispatchCall}
    (answered : Answered libs dispatches k step stepResults entry calls) :
    entry.method = step.method ∧ entry.CarriesOne := by
  -- Each way to be answered says so.
  cases answered with
  | fanOut wanted resolved returned => exact ⟨rfl, rfl⟩
  | unmatched wanted refused => exact ⟨rfl, rfl⟩
  | unresolved plain refused => exact ⟨rfl, rfl⟩
  | failed plain resolved returned => exact ⟨rfl, rfl⟩
  | returned plain resolved returned => exact ⟨rfl, rfl⟩

variable (libs dispatches)

/-- The entries of steps of which none is a pipe, and the pipe before and after them. -/
inductive Followed : Nat → List PipeStep → PipeRun → List PipeStepResult → PipeRun → Prop where
  | done {k s} : Followed k [] s [] s
  /-- The steps behind one that ends the pipe are not looked at. -/
  | stop {k step rest s entry calls}
      (answered : Answered libs dispatches k step s.stepResults entry calls)
      (stops : step.stops entry = true) :
      Followed k (step :: rest) s [entry] (s.add step entry calls)
  | next {k step rest s entry calls entries last}
      (answered : Answered libs dispatches k step s.stepResults entry calls)
      (goes : step.stops entry = false)
      (after : Followed (k + 1) rest (s.add step entry calls) entries last) :
      Followed k (step :: rest) s (entry :: entries) last

variable {libs dispatches}

/-- Steps of which none is a pipe are followed until one of them ends the pipe. -/
theorem runSteps_followed {k : Nat} {steps : List PipeStep}
    (flat : ∀ step ∈ steps, step.method ≠ pipeMethod) {s last : PipeRun}
    {result : Except RpcError Unit}
    (ran : runSteps libs dispatches k steps s = some (result, last)) :
    result = .ok () ∧ ∃ entries, Followed libs dispatches k steps s entries last := by
  -- The induction follows the loop, whose state is the one that the next step finds.
  induction steps generalizing k s with
  | nil =>
    simp only [runSteps, Option.some.injEq, Prod.mk.injEq] at ran
    obtain ⟨rfl, rfl⟩ := ran
    exact ⟨rfl, [], .done⟩
  | cons step rest ih =>
    obtain ⟨own, others⟩ := List.forall_mem_cons.mp flat
    rw [runSteps, if_neg own] at ran
    cases taken : runStep libs dispatches k step s with
    | none => simp [taken] at ran
    | some outcome =>
      obtain ⟨flow, next⟩ := outcome
      obtain ⟨entry, calls, answered, rfl, same⟩ := runStep_spec taken
      cases stops : step.stops entry with
      | true =>
        simp only [taken, same, PipeStep.flow, stops, if_true, Option.some.injEq,
          Prod.mk.injEq] at ran
        obtain ⟨rfl, rfl⟩ := ran
        exact ⟨rfl, _, .stop answered stops⟩
      | false =>
        simp only [taken, same, PipeStep.flow, stops, Bool.false_eq_true, if_false] at ran
        obtain ⟨ok, entries, after⟩ := ih others ran
        exact ⟨ok, _, .next answered stops after⟩

section Followed

variable {k : Nat} {steps : List PipeStep} {s last : PipeRun} {entries : List PipeStepResult}

/-- The answer grows by the entries, and both lists stay aligned. -/
theorem Followed.lists (followed : Followed libs dispatches k steps s entries last) :
    last.responseSteps = s.responseSteps ++ entries ∧
      last.stepResults = s.stepResults ++ List.zipWith PipeStep.recorded steps entries := by
  -- Each step that is followed adds one entry to both lists.
  induction followed with
  | done => simp
  | stop answered stops => simp [PipeRun.add]
  | next answered goes after ih => simp [ih, PipeRun.add]

/-- The entries are those of the first steps. -/
theorem Followed.methods (followed : Followed libs dispatches k steps s entries last) :
    entries.map (fun entry => entry.method) =
      (steps.take entries.length).map fun step => step.method := by
  induction followed with
  | done => rfl
  | stop answered stops => simp [answered.entry.1]
  | next answered goes after ih => simp [answered.entry.1, ih]

/-- Every entry says one thing. -/
theorem Followed.carriesOne (followed : Followed libs dispatches k steps s entries last) :
    ∀ entry ∈ entries, entry.CarriesOne := by
  -- Every entry is that of a step that was answered.
  induction followed with
  | done => exact fun entry member => by cases member
  | stop answered stops =>
    intro entry member
    rw [List.mem_singleton.mp member]
    exact answered.entry.2
  | next answered goes after ih => exact List.forall_mem_cons.mpr ⟨answered.entry.2, ih⟩

/-- A step has an entry exactly if no step in front of it ended the pipe. -/
theorem Followed.executed (followed : Followed libs dispatches k steps s entries last) :
    ∀ i < steps.length, i < entries.length ↔ ∀ j < i, ∀ step entry,
      steps[j]? = some step → entries[j]? = some entry → step.stops entry = false := by
  -- A step is either the first one, or looked at because the first one did not end the pipe.
  induction followed with
  | done =>
    intro i bound
    simp at bound
  | stop answered stops =>
    intro i bound
    cases i with
    | zero => simp
    | succ i =>
      constructor
      · intro inside
        simp at inside
      · -- The first step ended the pipe.
        intro none
        have first := none 0 (Nat.succ_pos i) _ _ rfl rfl
        rw [stops] at first
        cases first
  | next answered goes after ih =>
    intro i bound
    cases i with
    | zero => simp
    | succ i =>
      simp only [List.length_cons, Nat.add_lt_add_iff_right] at bound ⊢
      rw [ih i bound]
      constructor
      · intro none j before step entry known found
        cases j with
        | zero =>
          simp only [List.getElem?_cons_zero, Option.some.injEq] at known found
          rw [← known, ← found]
          exact goes
        | succ j => exact none j (by omega) step entry known found
      · intro none j before step entry known found
        exact none (j + 1) (by omega) step entry known found

/--
A step is answered with what the steps in front of it recorded, and the calls are those of the
answered steps, one step after the other.
-/
theorem Followed.calls (followed : Followed libs dispatches k steps s entries last) :
    ∃ callsOf : List (List DispatchCall), last.dispatched = s.dispatched ++ callsOf.flatten ∧
      callsOf.length = entries.length ∧
      ∀ i step entry own, steps[i]? = some step → entries[i]? = some entry →
        callsOf[i]? = some own →
        Answered libs dispatches (k + i) step
          (s.stepResults ++ recordedBefore steps entries i) entry own := by
  -- The first step reads the values that were there, the others those and its own.
  induction followed with
  | done => exact ⟨[], by simp, rfl, fun i step entry own known => by simp at known⟩
  | @stop k step rest s entry calls answered stops =>
    refine ⟨[calls], by simp [PipeRun.add], rfl, ?_⟩
    intro i other its own known found called
    cases i with
    | zero =>
      simp only [List.getElem?_cons_zero, Option.some.injEq] at known found called
      subst known found called
      simpa [recordedBefore] using answered
    | succ i => simp at found
  | @next k step rest s entry calls entries last answered goes after ih =>
    obtain ⟨callsOf, same, long, each⟩ := ih
    refine ⟨calls :: callsOf, by simp [same, PipeRun.add], by simp [long], ?_⟩
    intro i other its own known found called
    cases i with
    | zero =>
      simp only [List.getElem?_cons_zero, Option.some.injEq] at known found called
      subst known found called
      simpa [recordedBefore] using answered
    | succ i =>
      -- What the first step recorded stands in front of the values of the others.
      have later := each i other its own known found called
      simpa [recordedBefore, PipeRun.add, Nat.add_assoc, Nat.add_comm 1] using later

end Followed

/-- A value recorded in front of a step is that of an earlier step. -/
theorem recordedBefore_eq_some {steps : List PipeStep} {entries : List PipeStepResult} {k idx : Nat}
    {value : Json} (found : (recordedBefore steps entries k)[idx]? = some (some value)) :
    idx < k ∧ ∃ step entry, steps[idx]? = some step ∧ entries[idx]? = some entry ∧
      step.recorded entry = some value := by
  -- The values are recorded in the order of the steps, as many as there are in front of this one.
  rw [recordedBefore, List.getElem?_take] at found
  split at found
  · rename_i before
    rw [List.getElem?_zipWith_eq_some] at found
    obtain ⟨step, entry, known, answered, recorded⟩ := found
    exact ⟨before, step, entry, known, answered, recorded⟩
  · cases found

variable (libs dispatches)

/-- What the answer of a pipe says of its steps. -/
structure PipeAnswer (steps : List PipeStep) (entries : List PipeStepResult)
    (calls : List DispatchCall) : Prop where
  /-- The entries are those of the first steps. -/
  methods : entries.map (fun entry => entry.method) =
    (steps.take entries.length).map fun step => step.method
  /-- A step is executed exactly if every earlier one was without an error or goes on. -/
  executed : ∀ k < steps.length, k < entries.length ↔ ∀ j < k, ∀ step entry,
    steps[j]? = some step → entries[j]? = some entry →
      entry.failed = false ∨ step.continueOnError = true
  carriesOne : ∀ entry ∈ entries, entry.CarriesOne
  /--
  Every entry is that of its step, with the references resolved from what the steps in front of it
  recorded, and nothing is called but what these steps call, one step after the other.
  -/
  answered : ∃ callsOf : List (List DispatchCall), calls = callsOf.flatten ∧
    callsOf.length = entries.length ∧
    ∀ k step entry own, steps[k]? = some step → entries[k]? = some entry →
      callsOf[k]? = some own →
      Answered libs dispatches k step (recordedBefore steps entries k) entry own
  /-- A reference to a step gives what an earlier step recorded, and nothing else. -/
  references : ∀ k expr idx suffix item nodes,
    parsePrefix libs expr = .ok (.step idx, suffix) →
    matchRef libs expr (recordedBefore steps entries k) item = .ok nodes →
    idx < k ∧ ∃ step entry value, steps[idx]? = some step ∧ entries[idx]? = some entry ∧
      step.recorded entry = some value ∧ refNodes libs suffix value = .ok nodes

variable {libs dispatches}

/-- Steps that have been followed from the start are answered as they should be. -/
theorem Followed.answer {steps : List PipeStep} {entries : List PipeStepResult} {last : PipeRun}
    (followed : Followed libs dispatches 0 steps .start entries last) :
    last.responseSteps = entries ∧ PipeAnswer libs dispatches steps entries last.dispatched := by
  -- Each part was shown of the steps from any number on, and here they are numbered from 0.
  refine ⟨followed.lists.1, followed.methods, ?_, followed.carriesOne, ?_, ?_⟩
  · intro k bound
    rw [followed.executed k bound]
    simp only [PipeStep.stops, Bool.and_eq_false_iff, Bool.not_eq_false']
  · obtain ⟨callsOf, same, long, each⟩ := followed.calls
    refine ⟨callsOf, same, long, ?_⟩
    intro k step entry own known found called
    simpa [PipeRun.start] using each k step entry own known found called
  · intro k expr idx suffix item nodes parsed resolved
    obtain ⟨value, held, nodes⟩ := (matchRef_step parsed).mp resolved
    obtain ⟨before, step, entry, known, found, recorded⟩ := recordedBefore_eq_some held
    exact ⟨before, step, entry, value, known, found, recorded, nodes⟩

/--
For every request with steps of which none is a pipe, and whatever the methods do: the steps are
answered in order until one has an error and does not go on, each with exactly one of result,
error and items, and a reference to a step sees only what an earlier step recorded.
-/
theorem pipe_answers {fromValue : Json → Except String (List PipeStep)} {params : Json}
    {steps : List PipeStep} (parsed : fromValue params = .ok steps) (nonempty : steps ≠ [])
    (flat : ∀ step ∈ steps, step.method ≠ pipeMethod)
    {result : Except RpcError (List PipeStepResult)} {calls : List DispatchCall}
    (returned : pipe libs dispatches fromValue params = some (result, calls)) :
    ∃ entries, result = .ok entries ∧ PipeAnswer libs dispatches steps entries calls := by
  -- The request gets as far as the loop, and the loop follows its steps.
  obtain ⟨first, rest, rfl⟩ := List.exists_cons_of_ne_nil nonempty
  simp only [pipe, parsed, Option.map_eq_some_iff, Prod.mk.injEq] at returned
  obtain ⟨⟨outcome, last⟩, ran, same, rfl⟩ := returned
  obtain ⟨rfl, entries, followed⟩ := runSteps_followed flat ran
  obtain ⟨answer, sound⟩ := followed.answer
  exact ⟨entries, by rw [← same, ← answer]; rfl, sound⟩

end

/-! A pipe of four steps, whose third one refers to the first one, which has failed. -/

/-- A read that fails and goes on, a scan, a read of what the first one recorded, and a ping. -/
def abortedSteps : List PipeStep :=
  [{ PipeStep.plain "fs.read" (pathParams (.string "missing.txt")) with continueOnError := true },
    .plain "fs.scan" .null, .plain "fs.read" (pathParams (refParams "$0")), .plain "ping" .null]

/-- The first dispatch fails, and the others return. -/
def failsFirst : Dispatches where
  plain k := if k = 0 then .error { code := -32603, message := "No such file" } else .ok .null
  fanOut _ := []

/-- Three steps are answered, and the last one is not executed. -/
theorem aborted_pipe_answers :
    ∃ entries calls, pipe plainLibs failsFirst (fun _ => .ok abortedSteps)
        (pipeRequest abortedSteps) = some (.ok entries, calls) ∧ entries.length = 3 ∧
      PipeAnswer plainLibs failsFirst abortedSteps entries calls := by
  -- The pipe is run once, to know what it answers.
  have returned : pipe plainLibs failsFirst (fun _ => .ok abortedSteps)
      (pipeRequest abortedSteps) = some (.ok _, _) := rfl
  obtain ⟨entries, same, sound⟩ := pipe_answers rfl (List.cons_ne_nil _ _) (by decide) returned
  cases same
  exact ⟨_, _, returned, rfl, sound⟩

section
variable {libs : PipeLibs} {dispatches : Dispatches}

/-! A pipe inside of a pipe is refused when its turn comes. -/

/-- The steps in front of the first one that is a pipe itself. -/
def beforeNested (steps : List PipeStep) : List PipeStep :=
  steps.takeWhile fun step => decide (step.method ≠ pipeMethod)

/-- One of the steps has ended the pipe. -/
def Stopped (steps : List PipeStep) (entries : List PipeStepResult) : Prop :=
  ∃ pair ∈ steps.zip entries, pair.1.stops pair.2 = true

/-- The step names earlier values, so that it cannot be dispatched before there are any. -/
def PipeStep.Refers (step : PipeStep) : Prop := step.forEach.isSome = true ∨ step.params.refs ≠ []

/-- The steps in front of a nested pipe are followed, and then the pipe is refused. -/
theorem runSteps_beforeNested {k : Nat} {steps : List PipeStep} {s last : PipeRun}
    {result : Except RpcError Unit}
    (ran : runSteps libs dispatches k steps s = some (result, last)) :
    runSteps libs dispatches k (beforeNested steps) s = some (.ok (), last) ∧
      ∃ entries, Followed libs dispatches k (beforeNested steps) s entries last ∧
        (result = .error nestedPipe ∧ ¬ Stopped (beforeNested steps) entries ∨
          result = .ok () ∧
            ((∀ step ∈ steps, step.method ≠ pipeMethod) ∨
              Stopped (beforeNested steps) entries)) := by
  -- The loop is followed step by step, up to the nested pipe or to the step that ends it.
  induction steps generalizing k s with
  | nil =>
    simp only [runSteps, Option.some.injEq, Prod.mk.injEq] at ran
    obtain ⟨rfl, rfl⟩ := ran
    exact ⟨rfl, [], .done, .inr ⟨rfl, .inl fun step member => by cases member⟩⟩
  | cons step rest ih =>
    by_cases nested : step.method = pipeMethod
    · -- Nothing of the list stands in front of this step.
      have front : beforeNested (step :: rest) = [] := by simp [beforeNested, nested]
      rw [runSteps, if_pos nested] at ran
      cases ran
      rw [front]
      refine ⟨rfl, [], .done, .inl ⟨rfl, ?_⟩⟩
      intro nested
      obtain ⟨pair, member, _⟩ := nested
      cases member
    · have front : beforeNested (step :: rest) = step :: beforeNested rest := by
        simp [beforeNested, nested]
      rw [runSteps, if_neg nested] at ran
      rw [front, runSteps, if_neg nested]
      cases taken : runStep libs dispatches k step s with
      | none => simp [taken] at ran
      | some outcome =>
        obtain ⟨flow, next⟩ := outcome
        obtain ⟨entry, calls, answered, rfl, same⟩ := runStep_spec taken
        cases stops : step.stops entry with
        | true =>
          simp only [taken, same, PipeStep.flow, stops, if_true, Option.some.injEq,
            Prod.mk.injEq] at ran ⊢
          obtain ⟨rfl, rfl⟩ := ran
          have stopped : Stopped (step :: beforeNested rest) [entry] :=
            ⟨(step, entry), by simp, stops⟩
          exact ⟨⟨trivial, rfl⟩, _, .stop answered stops, .inr ⟨rfl, .inr stopped⟩⟩
        | false =>
          simp only [taken, same, PipeStep.flow, stops, Bool.false_eq_true, if_false] at ran ⊢
          obtain ⟨alone, entries, after, ended⟩ := ih ran
          -- This step goes on, so that it is a later one that stops, if any does.
          have alike : Stopped (step :: beforeNested rest) (entry :: entries) ↔
              Stopped (beforeNested rest) entries := by
            simp [Stopped, List.zip_cons_cons, stops]
          refine ⟨alone, _, .next answered stops after, ?_⟩
          rw [alike, List.forall_mem_cons]
          exact ended.imp_right (And.imp_right (Or.imp_left fun flat => ⟨nested, flat⟩))

/-- A step that refers to earlier values is not dispatched when there are none. -/
theorem Answered.silent {k : Nat} {step : PipeStep} {stepResults : List (Option Json)}
    {entry : PipeStepResult} {calls : List DispatchCall}
    (answered : Answered libs dispatches k step stepResults entry calls)
    (silent : ∀ r ∈ stepResults, r = none) (refers : step.Refers) :
    calls = [] ∧ step.recorded entry = none := by
  -- Neither the array of a for_each step nor the parameters of a plain one can be resolved.
  have unmatchable : ∀ {params}, step.forEach = none →
      substitute libs stepResults none step.params ≠ .ok params := by
    intro params plain resolved
    have free := (substitute_silent silent step.params).mp (isOk_iff.mpr ⟨params, resolved⟩)
    rcases refers with wanted | refs
    · rw [plain] at wanted
      cases wanted
    · exact refs free
  cases answered with
  | @fanOut expr items results calls wanted resolved returned =>
    rw [resolveRef_many] at resolved
    cases matched : matchRef libs expr.toList stepResults none with
    | error e => simp [matched, Except.map] at resolved
    | ok nodes => exact absurd matched (matchRef_silent silent _ _)
  | unmatched wanted refused => exact ⟨rfl, rfl⟩
  | unresolved plain refused => exact ⟨rfl, rfl⟩
  | failed plain resolved returned => exact absurd resolved (unmatchable plain)
  | returned plain resolved returned => exact absurd resolved (unmatchable plain)

/-- A step that refers to nothing is dispatched. -/
theorem Answered.dispatched {k : Nat} {step : PipeStep} {stepResults : List (Option Json)}
    {entry : PipeStepResult} {calls : List DispatchCall}
    (answered : Answered libs dispatches k step stepResults entry calls)
    (free : ¬ step.Refers) : calls ≠ [] := by
  -- It is a plain step, and nothing in its parameters can fail.
  obtain ⟨unwanted, refs⟩ := not_or.mp free
  cases answered with
  | fanOut wanted resolved returned => simp [wanted] at unwanted
  | unmatched wanted refused => simp [wanted] at unwanted
  | unresolved plain refused =>
    -- Parameters without references can always be substituted.
    have resolved : (substitute libs stepResults none step.params).isOk = true := by
      rw [substitute_isOk_iff, not_not.mp refs]
      intro expr member
      cases member
    rw [refused] at resolved
    cases resolved
  | failed plain resolved returned => exact List.cons_ne_nil _ _
  | returned plain resolved returned => exact List.cons_ne_nil _ _

/-- Steps that do not end the pipe dispatch nothing exactly if all of them refer to something. -/
theorem Followed.silent_iff {k : Nat} {steps : List PipeStep} {s last : PipeRun}
    {entries : List PipeStepResult} (followed : Followed libs dispatches k steps s entries last)
    (unstopped : ¬ Stopped steps entries) (silent : ∀ r ∈ s.stepResults, r = none) :
    last.dispatched = s.dispatched ↔ ∀ step ∈ steps, step.Refers := by
  -- As long as nothing was dispatched, nothing was recorded either.
  induction followed with
  | done => simp
  | @stop k step rest s entry calls answered stops =>
    exact absurd ⟨(step, entry), by simp, stops⟩ unstopped
  | @next k step rest s entry calls entries last answered goes after ih =>
    have later : ¬ Stopped rest entries := by
      intro stopped
      obtain ⟨pair, member, stops⟩ := stopped
      exact unstopped ⟨pair, List.mem_cons_of_mem _ member, stops⟩
    rw [List.forall_mem_cons]
    by_cases refers : step.Refers
    · obtain ⟨uncalled, unrecorded⟩ := answered.silent silent refers
      have same : (s.add step entry calls).dispatched = s.dispatched := by
        rw [PipeRun.add, uncalled, List.append_nil]
      rw [← same, ih later ?_]
      · simp [refers]
      · intro r member
        rcases List.mem_append.mp member with old | own
        · exact silent r old
        · rw [List.mem_singleton.mp own, unrecorded]
    · -- A call that was made stays in the list.
      obtain ⟨callsOf, same, _⟩ := after.calls
      have called := answered.dispatched refers
      constructor
      · intro unchanged
        rw [same, PipeRun.add, List.append_assoc, List.append_right_eq_self] at unchanged
        exact absurd (List.append_eq_nil_iff.mp unchanged).1 called
      · intro both
        obtain ⟨own, _⟩ := both
        exact absurd own refers

variable (libs dispatches)

/-- One of the steps ends the pipe that consists of them. -/
def EndsPipe (steps : List PipeStep) : Prop :=
  ∃ last, runSteps libs dispatches 0 steps .start = some (.ok (), last) ∧
    Stopped steps last.responseSteps

variable {libs dispatches}

/--
A request that is answered with an error has dispatched nothing exactly if none of its steps is a
pipe, or all steps in front of the first such one refer to earlier values, or one of them ends the
pipe.
-/
theorem pipe_error_undispatched_iff {fromValue : Json → Except String (List PipeStep)}
    {params : Json} {result : Except RpcError (List PipeStepResult)} {calls : List DispatchCall}
    (returned : pipe libs dispatches fromValue params = some (result, calls)) :
    (∀ e, result = .error e → calls = []) ↔
      ∀ steps, fromValue params = .ok steps →
        (∀ step ∈ steps, step.method ≠ pipeMethod) ∨
          (∀ step ∈ beforeNested steps, step.Refers) ∨
          EndsPipe libs dispatches (beforeNested steps) := by
  -- A request without steps is refused before the loop, so the question is what the loop does.
  cases parsed : fromValue params with
  | error e =>
    simp only [pipe, parsed, Option.some.injEq, Prod.mk.injEq] at returned
    obtain ⟨rfl, rfl⟩ := returned
    simp
  | ok steps =>
    simp only [Except.ok.injEq, forall_eq']
    cases steps with
    | nil =>
      simp only [pipe, parsed, Option.some.injEq, Prod.mk.injEq] at returned
      obtain ⟨rfl, rfl⟩ := returned
      simp
    | cons first rest =>
      simp only [pipe, parsed, Option.map_eq_some_iff, Prod.mk.injEq] at returned
      obtain ⟨⟨outcome, last⟩, ran, rfl, rfl⟩ := returned
      obtain ⟨alone, entries, followed, ended⟩ := runSteps_beforeNested ran
      have answer : last.responseSteps = entries := followed.answer.1
      have ends : EndsPipe libs dispatches (beforeNested (first :: rest)) ↔
          Stopped (beforeNested (first :: rest)) entries := by
        constructor
        · intro earlier
          obtain ⟨other, again, stopped⟩ := earlier
          rw [alone] at again
          cases again
          rwa [answer] at stopped
        · intro stopped
          exact ⟨last, alone, answer ▸ stopped⟩
      rw [ends]
      rcases ended with ⟨rfl, unstopped⟩ | ⟨rfl, whole⟩
      · -- The nested pipe was reached, and the question is what had been dispatched by then.
        have silent := followed.silent_iff unstopped (fun r member => by cases member)
        have nested : ¬ ∀ step ∈ first :: rest, step.method ≠ pipeMethod := by
          intro flat
          have refused := (runSteps_followed flat ran).1
          cases refused
        have none_yet : last.dispatched = [] ↔ _ := silent
        rw [← none_yet]
        constructor
        · intro undispatched
          exact .inr (.inl (undispatched nestedPipe rfl))
        · intro holds e _
          rcases holds with flat | undispatched | stopped
          · exact absurd flat nested
          · exact undispatched
          · exact absurd stopped unstopped
      · constructor
        · intro _
          rcases whole with flat | stopped
          · exact .inl flat
          · exact .inr (.inr stopped)
        · intro _ e failed
          cases failed

end

/-- Every dispatch returns. -/
def succeeds : Dispatches where
  plain _ := .ok .null
  fanOut _ := []

/-- Two steps that refer to the first one, before it has a value, and a pipe behind them. -/
def nestedThird : List PipeStep :=
  [{ PipeStep.plain "fs.read" (pathParams (refParams "$0")) with continueOnError := true },
    { PipeStep.plain "fs.read" (pathParams (.string "a.txt")) with
      forEach := some "$0"
      continueOnError := true },
    .plain pipeMethod (pipeRequest [])]

/-- The request is refused at its third step, and nothing has been dispatched by then. -/
theorem nestedThird_undispatched :
    ∃ calls, pipe plainLibs succeeds (fun _ => .ok nestedThird) (pipeRequest nestedThird) =
        some (.error nestedPipe, calls) ∧ calls = [] := by
  have returned : pipe plainLibs succeeds (fun _ => .ok nestedThird) (pipeRequest nestedThird) =
      some (.error nestedPipe, _) := rfl
  refine ⟨_, returned, (pipe_error_undispatched_iff returned).mpr ?_ nestedPipe rfl⟩
  intro steps parsed
  cases parsed
  -- One of the steps in front of the pipe has a reference, and the other one is a `for_each` step.
  refine .inr (.inl fun step member => ?_)
  rcases List.mem_pair.mp member with rfl | rfl
  · exact .inr (List.cons_ne_nil _ _)
  · exact .inl rfl

/-- A patch, and a pipe behind it. -/
def nestedSecond : List PipeStep :=
  [.plain "fs.apply_patch"
      (.object [("patch", .string "@@ -1 +1 @@\n-a\n+b\n"), ("path", .string "a.txt")]),
    .plain pipeMethod (pipeRequest [])]

/-- The patch has been dispatched when the whole request is refused. -/
theorem nestedSecond_dispatched :
    ∃ calls, pipe plainLibs succeeds (fun _ => .ok nestedSecond) (pipeRequest nestedSecond) =
        some (.error nestedPipe, calls) ∧
      calls.map (fun call => (call.step, call.method)) = [(0, "fs.apply_patch")] :=
  ⟨_, rfl, rfl⟩

end McpCli
