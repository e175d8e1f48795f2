import McpCli.Daemon.JobLife
import McpCli.Proofs.Daemon.JobLog

/-! When the calls on a job agree that its process has ended. -/

namespace McpCli

namespace JobLife

open Transition

section
variable {job : BackgroundJob} {jobId : Nat} {waited : Option Waited}

/-- A call is told something only if it has to ask. -/
theorem told_unknown {killed : Option (Except String Waited)} {code : Option Int}
    (seen : told job waited killed = some code) : job.exitCode = none := by
  -- With an exit code written down there is nothing to be told.
  cases known : job.exitCode with
  | none => rfl
  | some code => simp [told, known] at seen

/-- Once `try_wait` has said something, nothing is killed. -/
theorem told_answer (answer : Waited) (killed : Option (Except String Waited)) :
    told job (some answer) killed = told job (some answer) none := by
  cases known : job.exitCode with
  | some code => simp [told, known]
  | none => cases answer <;> simp [told, known]

/-- Asking for the process writes down how it has ended. -/
theorem tryWait_told {asked : BackgroundJob} (ok : job.tryWait jobId waited = .ok asked) :
    asked.exitCode = (told job waited none).getD job.exitCode ∧ asked.killed = job.killed := by
  -- It is asked for only while no exit code is known.
  cases known : job.exitCode with
  | some code =>
    simp only [BackgroundJob.tryWait, known, Except.ok.injEq] at ok
    simp [← ok, told, known]
  | none =>
    match waited with
    | none =>
      simp only [BackgroundJob.tryWait, known, Except.ok.injEq] at ok
      simp [← ok, told, known]
    | some (.ok code) =>
      simp only [BackgroundJob.tryWait, known, Except.ok.injEq] at ok
      simp [← ok, told, known]
    | some (.error e) => simp [BackgroundJob.tryWait, known] at ok

/-- Nothing is learned when asking for the process fails. -/
theorem tryWait_error {error : RpcError} (failed : job.tryWait jobId waited = .error error) :
    told job waited none = none := by
  -- The call fails only where the operating system does, and then it says nothing.
  cases known : job.exitCode with
  | some code => simp [told, known]
  | none =>
    match waited with
    | none => simp [told, known]
    | some (.ok code) => simp [BackgroundJob.tryWait, known] at failed
    | some (.error e) => simp [told, known]

/-- `tool_read_logs` writes down how the process has ended, and no more. -/
theorem toolReadLogs_job (job : BackgroundJob) (waited : Option Waited)
    (params : ToolReadLogsParams) :
    (toolReadLogs job waited params).2.exitCode = (told job waited none).getD job.exitCode ∧
      (toolReadLogs job waited params).2.killed = job.killed := by
  -- The log is cut out of what the job has written, which changes nothing of the job.
  unfold toolReadLogs
  cases ok : job.tryWait params.jobId waited with
  | error error =>
    rw [tryWait_error ok]
    exact ⟨rfl, rfl⟩
  | ok asked =>
    have asTold := tryWait_told ok
    simp only
    split <;> exact asTold

/-- It reports what is written down then. -/
theorem toolReadLogs_reply {params : ToolReadLogsParams} {result : ToolReadLogsResult}
    (answered : (toolReadLogs job waited params).1 = .answered (.ok result)) :
    result.exitCode = (toolReadLogs job waited params).2.exitCode ∧
      result.running = ((toolReadLogs job waited params).2.exitCode.isNone &&
        !(toolReadLogs job waited params).2.killed) := by
  -- The answer is made of the job as it is after it was asked for.
  unfold toolReadLogs at answered ⊢
  cases ok : job.tryWait params.jobId waited with
  | error error =>
    rw [ok] at answered
    cases answered
  | ok asked =>
    rw [ok] at answered
    simp only at answered ⊢
    split at answered
    · cases answered
    · cases answered
      exact ⟨rfl, rfl⟩

/-- `tool_kill` writes down how the process has ended, and marks it if it was told after the kill. -/
theorem toolKill_job (job : BackgroundJob) (jobId : Nat) (waited : Option Waited)
    (killed : Except String Waited) :
    (toolKill job jobId waited killed).2.exitCode =
        (told job waited (some killed)).getD job.exitCode ∧
      (toolKill job jobId waited killed).2.killed =
        (job.killed || waited.isNone && (told job waited (some killed)).isSome) := by
  -- One case for each way out of the handler.
  cases known : job.exitCode with
  | some code => simp [toolKill, told, known]
  | none =>
    match waited, killed with
    | some (.ok _), _ => simp [toolKill, told, known]
    | some (.error _), _ => simp [toolKill, told, known]
    | none, .error _ => simp [toolKill, told, known]
    | none, .ok (.error _) => simp [toolKill, told, known]
    | none, .ok (.ok _) => simp [toolKill, told, known]

/-- It reports what is written down then. -/
theorem toolKill_reply {killed : Except String Waited} {result : ToolKillResult}
    (answered : (toolKill job jobId waited killed).1 = .ok result) :
    result.exitCode = (toolKill job jobId waited killed).2.exitCode := by
  unfold toolKill at answered ⊢
  split at answered <;> cases answered <;> rfl

end

/-- What `tool_read_logs` comes to at this moment. -/
def readNow (s : JobLife) (offset : Nat) (maxBytes : Option Nat) (fault : Option String) :
    CallOutcome ToolReadLogsResult × BackgroundJob :=
  toolReadLogs s.job (s.waited fault) { jobId := s.jobId, offset, maxBytes }

/-- All calls agree that the process has ended once one has been told so, and with which code. -/
structure Settled (s : JobLife) : Prop where
  /-- Whatever is asked for now, it is not reported as running. -/
  now : s.observed = true → ∀ offset maxBytes fault result,
    (s.readNow offset maxBytes fault).1 = .answered (.ok result) → result.running = false
  /-- Nor has it been so far, after a call was told. -/
  reports : ∀ report ∈ s.reports, report.late = true → report.running ≠ some true
  /-- A code that was reported is reported ever after. -/
  codes : s.reports.Pairwise fun earlier later =>
    ∀ code, earlier.exitCode = some code → later.exitCode = some code

/-- The process is not found to have ended by a signal, except by one of `tool_kill`. -/
def EndsKnown (s : JobLife) : Action → Prop
  | .readLogs _ _ none | .kill none _ =>
    s.job.exitCode = none → s.ended = some none → s.job.killed = true
  | _ => True

/-- What is written down of the job says that it has ended, once a call has been told so. -/
structure Inv (s : JobLife) : Prop where
  known : s.observed = true → s.job.exitCode.isSome = true ∨ s.job.killed = true
  reports : ∀ report ∈ s.reports, report.late = true → report.running ≠ some true
  codes : s.reports.Pairwise fun earlier later =>
    ∀ code, earlier.exitCode = some code → later.exitCode = some code
  /-- Codes that were reported are the one that is written down. -/
  kept : ∀ report ∈ s.reports, ∀ code, report.exitCode = some code → s.job.exitCode = some code

/-- A call that writes down what it is told, and reports that. -/
structure Called (s next : JobLife) (seen : Option (Option Int)) (new : List JobReport) :
    Prop where
  observed : next.observed = (s.observed || seen.isSome)
  reports : next.reports = s.reports ++ new
  unknown : ∀ code, seen = some code → s.job.exitCode = none
  exitCode : next.job.exitCode = seen.getD s.job.exitCode
  killed : s.job.killed = true → next.job.killed = true
  own : ∀ report ∈ new, report.late = s.observed ∧ report.exitCode = next.job.exitCode ∧
    ∀ running, report.running = some running →
      running = (next.job.exitCode.isNone && !next.job.killed)

/-- What is known of the job stays known, and so does what a call was told. -/
theorem Called.known {s next : JobLife} {seen : Option (Option Int)} {new : List JobReport}
    (called : Called s next seen new) (inv : s.Inv)
    (bySignal : seen = some none → next.job.killed = true) :
    (s.observed = true → next.job.exitCode.isSome = true ∨ next.job.killed = true) ∧
      (next.observed = true → next.job.exitCode.isSome = true ∨ next.job.killed = true) := by
  -- A job that was known to have ended before the call is known to have ended behind it.
  have before : s.observed = true →
      next.job.exitCode.isSome = true ∨ next.job.killed = true := by
    intro observed
    rcases inv.known observed with code | killed
    · -- A job with an exit code asks for nothing more.
      refine .inl ?_
      rw [called.exitCode]
      cases told : seen with
      | none => exact code
      | some _ =>
        have unknown := called.unknown _ told
        rw [unknown] at code
        cases code
    · exact .inr (called.killed killed)
  refine ⟨before, fun observed => ?_⟩
  rw [called.observed, Bool.or_eq_true] at observed
  -- Otherwise this call is the first one that is told, of a code or of a signal.
  rcases observed with earlier | now
  · exact before earlier
  · obtain ⟨code, told⟩ := Option.isSome_iff_exists.mp now
    cases code with
    | none => exact .inr (bySignal told)
    | some code =>
      refine .inl ?_
      rw [called.exitCode, told]
      rfl

/-- A call keeps the invariant, unless it finds an end by a signal that it takes for none. -/
theorem Called.inv {s next : JobLife} {seen : Option (Option Int)} {new : List JobReport}
    (called : Called s next seen new) (inv : s.Inv)
    (bySignal : seen = some none → next.job.killed = true) : next.Inv := by
  obtain ⟨before, after⟩ := called.known inv bySignal
  -- A code that is written down stays.
  have stays : ∀ code, s.job.exitCode = some code → next.job.exitCode = some code := by
    intro code written
    have nothing : seen = none := by
      cases told : seen with
      | none => rfl
      | some _ =>
        have unknown := called.unknown _ told
        rw [unknown] at written
        cases written
    rw [called.exitCode, nothing]
    exact written
  refine ⟨after, ?_, ?_, ?_⟩
  · rw [called.reports, List.forall_mem_append]
    refine ⟨inv.reports, ?_⟩
    intro report member late running
    obtain ⟨same, _, shown⟩ := called.own report member
    have settled := shown true running
    -- A late report is one behind a call that was told.
    rcases before (same ▸ late) with code | killed
    · rw [Option.isSome_iff_ne_none, ne_eq, ← Option.isNone_iff_eq_none] at code
      simp [code] at settled
    · simp [killed] at settled
  · rw [called.reports, List.pairwise_append]
    refine ⟨inv.codes, ?_, ?_⟩
    · refine List.pairwise_of_forall_mem_list fun report member other within code reported => ?_
      rw [(called.own other within).2.1, ← (called.own report member).2.1]
      exact reported
    · intro report member other within code reported
      rw [(called.own other within).2.1]
      exact stays code (inv.kept report member code reported)
  · rw [called.reports, List.forall_mem_append]
    refine ⟨fun report member code reported => stays code (inv.kept report member code reported), ?_⟩
    intro report member code reported
    rw [← (called.own report member).2.1]
    exact reported

/-- `tool_read_logs` is such a call. -/
theorem called_readLogs {s next : JobLife} {offset : Nat} {maxBytes : Option Nat}
    {fault : Option String} (taken : s.step (.readLogs offset maxBytes fault) = some next) :
    ∃ new, Called s next (told s.job (s.waited fault) none) new ∧
      next.job.killed = s.job.killed := by
  simp only [step, Option.some.injEq] at taken
  subst taken
  have job := toolReadLogs_job s.job (s.waited fault) { jobId := s.jobId, offset, maxBytes }
  refine ⟨_, ⟨rfl, rfl, fun _ => told_unknown, job.1, fun killed => job.2.trans killed, ?_⟩, job.2⟩
  intro report member
  -- Only an answer is reported.
  cases outcome : (toolReadLogs s.job (s.waited fault) { jobId := s.jobId, offset, maxBytes }).1 with
  | panicked =>
    rw [outcome] at member
    cases member
  | answered result =>
    rw [outcome] at member
    cases result with
    | error error => cases member
    | ok result =>
      obtain ⟨code, running⟩ := toolReadLogs_reply outcome
      rw [readReport, List.mem_singleton] at member
      subst member
      refine ⟨rfl, code, fun shown same => ?_⟩
      rw [← Option.some.inj same]
      exact running

/-- And so is `tool_kill`. -/
theorem called_kill {s next : JobLife} {fault : Option String} {killed : Except String Waited}
    (taken : s.step (.kill fault killed) = some next) :
    ∃ new, Called s next (told s.job (s.waited fault) (some killed)) new ∧
      next.job.killed = (s.job.killed || (s.waited fault).isNone &&
        (told s.job (s.waited fault) (some killed)).isSome) := by
  simp only [step, Option.some.injEq] at taken
  subst taken
  obtain ⟨written, marked⟩ := toolKill_job s.job s.jobId (s.waited fault) killed
  refine ⟨_, ⟨rfl, rfl, fun _ => told_unknown, written, ?_, ?_⟩, marked⟩
  · intro before
    rw [marked, before, Bool.true_or]
  · intro report member
    -- Only an answer is reported.
    cases answer : (toolKill s.job s.jobId (s.waited fault) killed).1 with
    | error error =>
      rw [answer] at member
      cases member
    | ok result =>
      rw [answer, killReport, List.mem_singleton] at member
      subst member
      exact ⟨rfl, toolKill_reply answer, fun _ same => by cases same⟩

/-- What is written to the log, and how the process ends, is not told to anybody yet. -/
theorem Inv.same {s next : JobLife} (inv : s.Inv) (observed : next.observed = s.observed)
    (exitCode : next.job.exitCode = s.job.exitCode) (killed : next.job.killed = s.job.killed)
    (reports : next.reports = s.reports) : next.Inv := by
  -- Each part of the invariant speaks of these four only.
  refine ⟨?_, ?_, ?_, ?_⟩
  · rw [observed, exitCode, killed]
    exact inv.known
  · rw [reports]
    exact inv.reports
  · rw [reports]
    exact inv.codes
  · rw [reports, exitCode]
    exact inv.kept

/-- What `try_wait` says is how the process has ended. -/
theorem told_waited {s : JobLife} {fault : Option String} {code : Option Int}
    (seen : told s.job (s.waited fault) none = some code) :
    fault = none ∧ s.job.exitCode = none ∧ s.ended = some code := by
  have unknown := told_unknown seen
  simp only [told, unknown] at seen
  -- A call that gets no answer is told nothing, nor is one on a process that is running.
  cases fault with
  | some e => simp [waited] at seen
  | none =>
    cases ended : s.ended with
    | none => simp [waited, ended] at seen
    | some own =>
      rw [waited, ended] at seen
      cases seen
      exact ⟨rfl, unknown, rfl⟩

/-- A step keeps the invariant, if it does not find an end by a signal. -/
theorem Inv.step {s next : JobLife} {action : Action} (inv : s.Inv)
    (known : s.EndsKnown action) (taken : s.step action = some next) : next.Inv := by
  -- The calls are the only steps that learn something.
  cases action with
  | write text =>
    cases taken
    exact inv.same rfl rfl rfl rfl
  | terminate code =>
    simp only [JobLife.step] at taken
    split at taken
    · cases taken
    · cases taken
      exact inv.same rfl rfl rfl rfl
  | readLogs offset maxBytes fault =>
    obtain ⟨new, called, same⟩ := called_readLogs taken
    refine called.inv inv fun seen => ?_
    obtain ⟨rfl, unknown, ended⟩ := told_waited seen
    rw [same]
    exact known unknown ended
  | kill fault killed =>
    obtain ⟨new, called, marked⟩ := called_kill taken
    refine called.inv inv fun seen => ?_
    rw [marked]
    cases asked : s.waited fault with
    | none =>
      -- The process was killed and waited for.
      rw [asked] at seen
      simp [seen]
    | some answer =>
      have own : told s.job (s.waited fault) none = some none := by
        rw [asked, told_answer] at seen
        rw [asked, seen]
      obtain ⟨rfl, unknown, ended⟩ := told_waited own
      rw [known unknown ended, Bool.true_or]

/-- Where the invariant holds, all calls agree. -/
theorem Inv.settled {s : JobLife} (inv : s.Inv) : s.Settled := by
  refine ⟨?_, inv.reports, inv.codes⟩
  intro observed offset maxBytes fault result answered
  -- What is reported now is what is written down, which says that the process has ended.
  obtain ⟨code, killed⟩ := toolReadLogs_job s.job (s.waited fault)
    { jobId := s.jobId, offset, maxBytes }
  rw [(toolReadLogs_reply answered).2, code, killed]
  rcases inv.known observed with known | marked
  · -- With a code there is nothing to ask for.
    obtain ⟨own, written⟩ := Option.isSome_iff_exists.mp known
    have nothing : told s.job (s.waited fault) none = none := by simp [told, written]
    rw [nothing, written]
    rfl
  · rw [marked, Bool.not_true, Bool.and_false]

/-- A process that ended by a signal of which nothing is marked is reported as running. -/
theorem readNow_running {s : JobLife} (unknown : s.job.exitCode = none)
    (ended : s.ended = some none) (unmarked : s.job.killed = false) :
    ∃ result, (s.readNow 0 none none).1 = .answered (.ok result) ∧ result.running = true := by
  have seen : told s.job (s.waited none) none = some none := by
    simp [told, unknown, waited, ended]
  -- The whole log can always be sliced.
  have answered : ∃ result, (s.readNow 0 none none).1 = .answered (.ok result) := by
    have spec := @toolReadLogs_spec s.job { jobId := s.jobId, offset := 0, maxBytes := none } []
      List.nil_prefix rfl (s.waited none)
    rw [readNow]
    generalize toolReadLogs s.job (s.waited none) _ = reply at spec ⊢
    cases spec with
    | refused failed => simp [BackgroundJob.tryWait, unknown, waited, ended] at failed
    | panicked ok within =>
      exact absurd (Text.isCharBoundary_iff.mpr ⟨_, [], (List.append_nil _).symm, rfl⟩) within
    | shown ok text stops next => exact ⟨_, rfl⟩
  obtain ⟨result, answered⟩ := answered
  obtain ⟨code, killed⟩ := toolReadLogs_job s.job (s.waited none)
    { jobId := s.jobId, offset := 0, maxBytes := none }
  refine ⟨result, answered, ?_⟩
  rw [(toolReadLogs_reply answered).2, code, killed, seen, unmarked]
  rfl

/-- A call that finds an end by a signal leaves the job as if it were running. -/
theorem endsKnown_of_settled {s next : JobLife} {action : Action}
    (taken : s.step action = some next) (settled : next.Settled) : s.EndsKnown action := by
  -- If nothing were marked, one more call would report the job as running.
  have goesOn : ∀ {seen new}, Called s next seen new → seen = some none →
      next.ended = some none → next.job.killed = true := by
    intro seen new called told ended
    by_contra unmarked
    have unknown : next.job.exitCode = none := by rw [called.exitCode, told]; rfl
    obtain ⟨result, answered, running⟩ :=
      readNow_running unknown ended (Bool.eq_false_iff.mpr unmarked)
    have observed : next.observed = true := by rw [called.observed, told]; simp
    rw [settled.now observed 0 none none result answered] at running
    cases running
  -- Only calls that get an answer can find the end of the process.
  cases action with
  | write text => trivial
  | terminate code => trivial
  | readLogs offset maxBytes fault =>
    cases fault with
    | some e => trivial
    | none =>
      intro unknown ended
      obtain ⟨new, called, same⟩ := called_readLogs taken
      have seen : told s.job (s.waited none) none = some none := by
        simp [told, unknown, waited, ended]
      have after : next.ended = some none := by
        cases taken
        exact ended
      rw [← same]
      exact goesOn called seen after
  | kill fault killed =>
    cases fault with
    | some e => trivial
    | none =>
      intro unknown ended
      obtain ⟨new, called, marked⟩ := called_kill taken
      have seen : told s.job (s.waited none) (some killed) = some none := by
        simp [told, unknown, waited, ended]
      have after : next.ended = some none := by
        cases taken
        simp [ended]
      have same : next.job.killed = s.job.killed := by
        rw [marked, waited, ended]
        simp
      rw [← same]
      exact goesOn called seen after

/--
Whatever the order of the calls on a job and the end of its process: once a call has been told that
it has ended, no call reports the job as running, and an exit code is never taken back, exactly if
the process is not found to have ended by a signal, except by one that `tool_kill` has sent before.
-/
theorem visits_settled_iff (jobId : Nat) (actions : List Action) :
    Visits step Settled (spawned jobId) actions ↔
      Along step EndsKnown (spawned jobId) actions := by
  -- One step shows both directions: in the states it leads to, and in the invariant that it keeps.
  constructor
  · intro visits
    exact visits.along fun s action next taken settled => endsKnown_of_settled taken settled
  · intro known
    have first : (spawned jobId).Inv := by
      refine ⟨?_, ?_, .nil, ?_⟩
      · exact fun observed => absurd observed Bool.false_ne_true
      · exact List.forall_mem_nil _
      · exact List.forall_mem_nil _
    have visits := visits_of_invariant Inv (fun _ _ _ inv known taken => inv.step known taken)
      first known
    exact visits.mono fun _ inv => inv.settled

/-- A process that is ended by a signal from elsewhere is reported as running ever after. -/
theorem signal_reported_running :
    (run step (spawned 1) [.terminate none, .readLogs 0 none none, .readLogs 0 none none,
      .kill none (.ok (.ok none)), .readLogs 0 none none]).map (fun s => s.reports) =
      some [
        { late := false, running := some true, exitCode := none },
        { late := true, running := some true, exitCode := none },
        { late := true, running := none, exitCode := none },
        { late := true, running := some true, exitCode := none }] := by
  decide

end JobLife

end McpCli
