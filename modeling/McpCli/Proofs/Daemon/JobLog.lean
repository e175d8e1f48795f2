import McpCli.Daemon.JobLog
import McpCli.Transition.Run

/-! A client that reads the log of a job on from where it is, and what becomes of its polls. -/

namespace McpCli

open Text (encodeUtf8 IsCharBoundary)

/-- Asking for the child does not change its log. -/
theorem BackgroundJob.tryWait_output {job asked : BackgroundJob} {jobId : Nat}
    {waited : Option Waited} (ok : job.tryWait jobId waited = .ok asked) :
    asked.output = job.output := by
  -- Only the exit code is written down.
  unfold tryWait at ok
  split at ok
  · cases ok
    rfl
  · cases ok
  · cases ok
    rfl

/-- Killing a job does not change its log. -/
theorem toolKill_output (job : BackgroundJob) (jobId : Nat) (waited : Option Waited)
    (killed : Except String Waited) : (toolKill job jobId waited killed).2.output = job.output := by
  -- Only the exit code and the mark of the kill are written down.
  unfold toolKill
  split <;> rfl

/-- A piece that begins within the log begins where it is asked for, and ends behind that. -/
theorem ToolReadLogsParams.range_bounds {params : ToolReadLogsParams} {length : Nat}
    (inside : params.offset ≤ length) : (params.range length).1 = params.offset ∧
      params.offset ≤ (params.range length).2 ∧ (params.range length).2 ≤ length := by
  -- Without a limit the piece ends with the log, and else at the limit or with the log.
  simp only [range, Nat.min_eq_left inside]
  cases params.maxBytes with
  | none => simp [inside]
  | some max =>
    simp only [Option.map_some, Option.getD_some, true_and]
    omega

/-- A piece that ends within the log has a byte at least, if one is asked for. -/
theorem ToolReadLogsParams.range_leads {params : ToolReadLogsParams} {length : Nat}
    (inside : params.offset ≤ length) (some_ : params.maxBytes ≠ some 0)
    (ahead : (params.range length).2 < length) : params.offset < (params.range length).2 := by
  -- A piece that ends in front of the end of the log has as many bytes as were asked for.
  simp only [range, Nat.min_eq_left inside] at ahead ⊢
  cases max : params.maxBytes with
  | none =>
    -- Without a limit the piece is all that is left.
    rw [max] at ahead
    exact absurd ahead (Nat.lt_irrefl _)
  | some max' =>
    have positive : max' ≠ 0 := fun zero => some_ (max.trans (congrArg some zero))
    simp only [max, Option.map_some, Option.getD_some] at ahead ⊢
    omega

/-- What a poll comes to that goes on behind a front of the log. -/
inductive ReadsLogs (job : BackgroundJob) (waited : Option Waited) (params : ToolReadLogsParams)
    (front : List Char) : CallOutcome ToolReadLogsResult × BackgroundJob → Prop
  /-- It is not known whether the child has exited. -/
  | refused {error : RpcError} (failed : job.tryWait params.jobId waited = .error error) :
      ReadsLogs job waited params front (.answered (.error error), job)
  /-- The piece ends within a character. -/
  | panicked {asked : BackgroundJob} (ok : job.tryWait params.jobId waited = .ok asked)
      (within : ¬ IsCharBoundary job.output (params.range (encodeUtf8 job.output).length).2) :
      ReadsLogs job waited params front (.panicked, asked)
  /-- The piece is the next one of the log. -/
  | shown {asked : BackgroundJob} {result : ToolReadLogsResult} {rest : List Char}
      (ok : job.tryWait params.jobId waited = .ok asked)
      (text : job.output = front ++ result.output ++ rest)
      (stops : (encodeUtf8 (front ++ result.output)).length = result.nextOffset)
      (next : result.nextOffset = (params.range (encodeUtf8 job.output).length).2) :
      ReadsLogs job waited params front (.answered (.ok result), asked)

/-- Every poll that goes on behind a front of the log comes to one of these. -/
theorem toolReadLogs_spec {job : BackgroundJob} {params : ToolReadLogsParams}
    {front : List Char} (known : front <+: job.output)
    (starts : (encodeUtf8 front).length = params.offset) (waited : Option Waited) :
    ReadsLogs job waited params front (toolReadLogs job waited params) := by
  -- The piece begins where the front ends, so that only its end can be within a character.
  obtain ⟨rest, text⟩ := known
  rw [toolReadLogs]
  cases ok : job.tryWait params.jobId waited with
  | error error => exact .refused ok
  | ok asked =>
    have inside : params.offset ≤ (encodeUtf8 job.output).length := by
      rw [← text, Text.encodeUtf8_append, List.length_append]
      omega
    obtain ⟨start, behind, _⟩ := params.range_bounds inside
    simp only [BackgroundJob.tryWait_output ok, start]
    cases sliced : Text.sliceBytes job.output params.offset
      (params.range (encodeUtf8 job.output).length).2 with
    | none =>
      -- If the end were a boundary, the piece could be sliced.
      refine .panicked ok fun boundary => ?_
      rw [← text] at boundary
      obtain ⟨part, found⟩ := Text.sliceBytes_isSome (starts ▸ text ▸ behind) boundary
      rw [text, starts, sliced] at found
      cases found
    | some output =>
      obtain ⟨front', rest', text', starts', stops⟩ := Text.sliceBytes_eq_some sliced
      -- Both fronts have as many bytes as the log has in front of the piece.
      rw [← text, List.append_assoc] at text'
      obtain ⟨rfl, rfl⟩ := Text.append_inj_bytes text' (starts.trans starts'.symm)
      exact .shown ok (by rw [← text, List.append_assoc]) stops rfl

namespace JobRun

open Transition

/-- A poll asks for a piece of the log that does not end within a character. -/
def EndsBetween (s : JobRun) : Action → Prop
  | .poll (some max) waited =>
    ∀ asked, s.job.tryWait s.jobId waited = .ok asked →
      s.nextOffset + max < (encodeUtf8 s.job.output).length →
      IsCharBoundary s.job.output (s.nextOffset + max)
  | _ => True

/-- Where the piece of a poll ends can be looked up in the log. -/
instance (s : JobRun) : (action : Action) → Decidable (s.EndsBetween action)
  | .poll (some max) waited =>
    match asked : s.job.tryWait s.jobId waited with
    | .ok _ =>
      decidable_of_iff (s.nextOffset + max < (encodeUtf8 s.job.output).length →
        IsCharBoundary s.job.output (s.nextOffset + max)) (by simp [EndsBetween, asked])
    | .error _ => isTrue (by simp [EndsBetween, asked])
  | .poll none _ | .read _ _ | .close _ | .kill _ _ => isTrue trivial

/-- No poll has panicked, each one has led on, and together they show the log so far. -/
structure PollsSound (s : JobRun) : Prop where
  calm : ∀ poll ∈ s.polls, poll.outcome ≠ .panicked
  advanced : ∀ poll ∈ s.polls, ∀ result, poll.outcome = .answered (.ok result) →
    result.nextOffset < poll.length → poll.params.offset < result.nextOffset
  shown : s.shown <+: s.job.output ∧ (encodeUtf8 s.shown).length = s.nextOffset

/-- A log that only grows keeps what was shown of it. -/
theorem PollsSound.grows {s next : JobRun} (sound : s.PollsSound) (polls : next.polls = s.polls)
    (offset : next.nextOffset = s.nextOffset) (output : s.job.output <+: next.job.output) :
    next.PollsSound := by
  -- What the client has been shown depends on its polls only.
  have shown : next.shown = s.shown := by rw [JobRun.shown, JobRun.shown, polls]
  refine ⟨by rw [polls]; exact sound.calm, by rw [polls]; exact sound.advanced, ?_⟩
  rw [shown, offset]
  exact ⟨sound.shown.1.trans output, sound.shown.2⟩

/-- A thread only adds to the log. -/
theorem prefix_push (reader : LogReader) (stream : JobStream) (piece : List UInt8)
    (output : List Char) : output <+: reader.push stream piece output := by
  rw [LogReader.push]
  split
  · exact List.prefix_append _ _
  · rw [List.append_assoc]
    exact List.prefix_append _ _

/-- A thread that ends only adds to the log. -/
theorem prefix_finish (reader : LogReader) (output : List Char) :
    output <+: reader.finish output := by
  rw [LogReader.finish]
  split
  · exact List.prefix_append _ _
  · exact List.prefix_refl _

/-- A client that sets a limit asks for a byte at least. -/
def AsksForSome : Action → Prop
  | .poll maxBytes _ => maxBytes ≠ some 0
  | _ => True

/-- What is known of the polls so far is known with one more, if it is known of that one. -/
theorem forall_polls {s next : JobRun} {poll : LogPoll} {holds : LogPoll → Prop}
    (polls : next.polls = s.polls ++ [poll]) (before : ∀ poll ∈ s.polls, holds poll)
    (own : holds poll) : ∀ poll ∈ next.polls, holds poll := by
  intro other mem
  rw [polls, List.mem_append, List.mem_singleton] at mem
  rcases mem with earlier | rfl
  · exact before other earlier
  · exact own

/-- A poll that is refused leaves everything as sound as it was. -/
theorem PollsSound.refused {s next : JobRun} {poll : LogPoll} {error : RpcError}
    (sound : s.PollsSound) (job : next.job = s.job) (offset : next.nextOffset = s.nextOffset)
    (outcome : poll.outcome = .answered (.error error)) (polls : next.polls = s.polls ++ [poll]) :
    next.PollsSound := by
  -- Nothing is shown, so the client stays where it is.
  have shown : next.shown = s.shown := by
    rw [JobRun.shown, JobRun.shown, polls, List.flatMap_append, List.flatMap_singleton, outcome]
    exact List.append_nil _
  refine ⟨forall_polls polls sound.calm ?_, forall_polls polls sound.advanced ?_, ?_⟩
  · rw [outcome]
    exact fun same => by cases same
  · intro result answered
    rw [outcome] at answered
    cases answered
  · rw [shown, job, offset]
    exact sound.shown

/-- A poll that shows the next piece of the log leaves everything as sound as it was. -/
theorem PollsSound.further {s next : JobRun} {poll : LogPoll} {result : ToolReadLogsResult}
    {rest : List Char} (sound : s.PollsSound)
    (text : next.job.output = s.shown ++ result.output ++ rest)
    (stops : (encodeUtf8 (s.shown ++ result.output)).length = result.nextOffset)
    (offset : next.nextOffset = result.nextOffset)
    (outcome : poll.outcome = .answered (.ok result))
    (leads : result.nextOffset < poll.length → poll.params.offset < result.nextOffset)
    (polls : next.polls = s.polls ++ [poll]) : next.PollsSound := by
  -- The piece follows what was shown before, and the client goes on behind it.
  have shown : next.shown = s.shown ++ result.output := by
    rw [JobRun.shown, JobRun.shown, polls, List.flatMap_append, List.flatMap_singleton, outcome]
  refine ⟨forall_polls polls sound.calm ?_, forall_polls polls sound.advanced ?_, ?_⟩
  · rw [outcome]
    exact fun same => by cases same
  · intro result' answered
    rw [outcome] at answered
    cases answered
    exact leads
  · rw [shown, text, offset]
    exact ⟨List.prefix_append _ _, stops⟩

/-- The piece that a poll asks for ends between characters exactly when the log may be sliced. -/
theorem endsBetween_iff {s : JobRun} {maxBytes : Option Nat} {waited : Option Waited}
    (inside : s.nextOffset ≤ (encodeUtf8 s.job.output).length) :
    s.EndsBetween (.poll maxBytes waited) ↔
      ∀ asked, s.job.tryWait s.jobId waited = .ok asked → IsCharBoundary s.job.output
        ((s.pollParams maxBytes).range (encodeUtf8 s.job.output).length).2 := by
  -- The end of the log is a boundary, so that only an end in front of it has to be looked at.
  have whole : IsCharBoundary s.job.output (encodeUtf8 s.job.output).length :=
    Text.isCharBoundary_iff.mpr ⟨s.job.output, [], (List.append_nil _).symm, rfl⟩
  cases maxBytes with
  | none => exact ⟨fun _ _ _ => whole, fun _ => trivial⟩
  | some max =>
    simp only [EndsBetween, pollParams, ToolReadLogsParams.range, Option.map_some,
      Option.getD_some, Nat.min_eq_left inside]
    constructor
    · intro between asked ok
      by_cases ahead : s.nextOffset + max < (encodeUtf8 s.job.output).length
      · rw [Nat.min_eq_left (Nat.le_of_lt ahead)]
        exact between asked ok ahead
      · rw [Nat.min_eq_right (Nat.le_of_not_lt ahead)]
        exact whole
    · intro between asked ok ahead
      have boundary := between asked ok
      rwa [Nat.min_eq_left (Nat.le_of_lt ahead)] at boundary

/-- What was shown of the log is within it. -/
theorem PollsSound.inside {s : JobRun} (sound : s.PollsSound) :
    s.nextOffset ≤ (encodeUtf8 s.job.output).length := by
  obtain ⟨⟨rest, text⟩, bytes⟩ := sound.shown
  rw [← text, Text.encodeUtf8_append, List.length_append]
  omega

/-- A poll whose piece does not end within a character shows the next piece of the log. -/
theorem PollsSound.poll {s next : JobRun} {maxBytes : Option Nat} {waited : Option Waited}
    (sound : s.PollsSound) (between : s.EndsBetween (.poll maxBytes waited))
    (some_ : maxBytes ≠ some 0) (taken : s.step (.poll maxBytes waited) = some next) :
    next.PollsSound := by
  -- The poll comes to what its reply says, and the reply to one of three things.
  have boundary := (endsBetween_iff sound.inside).mp between
  have spec := @toolReadLogs_spec s.job (s.pollParams maxBytes) s.shown sound.shown.1
    sound.shown.2 waited
  simp only [step, Option.some.injEq] at taken
  generalize toolReadLogs s.job waited (s.pollParams maxBytes) = reply at spec taken
  subst taken
  cases spec with
  | refused failed => exact sound.refused rfl rfl rfl rfl
  | panicked ok within => exact absurd (boundary _ ok) within
  | @shown asked result rest ok text stops next =>
    refine @further s _ _ result rest sound ?_ stops rfl rfl (fun ahead => ?_) rfl
    · rw [← text]
      exact BackgroundJob.tryWait_output ok
    · rw [next] at ahead ⊢
      exact ToolReadLogsParams.range_leads sound.inside some_ ahead

/-- A step that asks for whole characters leaves everything as sound as it was. -/
theorem PollsSound.step {s next : JobRun} {action : Action} (sound : s.PollsSound)
    (between : s.EndsBetween action) (asks : AsksForSome action)
    (taken : s.step action = some next) : next.PollsSound := by
  -- The threads and a kill leave the client alone, and the log only grows.
  cases action with
  | read stream piece =>
    simp only [JobRun.step] at taken
    split at taken
    · cases taken
    · cases taken
      exact sound.grows rfl rfl (prefix_push _ _ _ _)
  | close stream =>
    simp only [JobRun.step] at taken
    split at taken
    · cases taken
    · cases taken
      exact sound.grows rfl rfl (prefix_finish _ _)
  | kill waited killed =>
    cases taken
    exact sound.grows rfl rfl ⟨[], by rw [List.append_nil, toolKill_output]⟩
  | poll maxBytes waited => exact sound.poll between asks taken

/-- A poll that did not panic asked for whole characters. -/
theorem endsBetween_of_sound {s next : JobRun} {action : Action} (before : s.PollsSound)
    (taken : s.step action = some next) (sound : next.PollsSound) : s.EndsBetween action := by
  -- If the piece had ended within a character, the poll would have panicked.
  cases action with
  | read stream piece => trivial
  | close stream => trivial
  | kill waited killed => trivial
  | poll maxBytes waited =>
    refine (endsBetween_iff before.inside).mpr fun asked ok => ?_
    have spec := @toolReadLogs_spec s.job (s.pollParams maxBytes) s.shown before.shown.1
      before.shown.2 waited
    simp only [JobRun.step, Option.some.injEq] at taken
    generalize toolReadLogs s.job waited (s.pollParams maxBytes) = reply at spec taken
    subst taken
    cases spec with
    | refused failed =>
      rw [pollParams] at failed
      rw [failed] at ok
      cases ok
    | panicked ok within =>
      exact absurd rfl (sound.calm _ (List.mem_append_right _ (List.mem_singleton_self _)))
    | @shown asked result rest ok text stops next =>
      rw [← next]
      exact Text.isCharBoundary_iff.mpr ⟨_, rest, text, stops⟩

/--
A client that reads the log of a job piece by piece from its start never sees a panic, is led on
by each poll and is shown the log as it is, exactly when no poll ends within a character.
-/
theorem polls_sound_iff {start : JobRun} (fresh : start.nextOffset = 0 ∧ start.polls = [])
    {actions : List Action} (asks : ∀ action ∈ actions, AsksForSome action) :
    Visits step PollsSound start actions ↔ Along step EndsBetween start actions := by
  constructor
  · intro visits
    -- Each poll is judged by the state before it and the one behind it.
    have judged : Along step (fun s action => s.PollsSound → s.EndsBetween action) start actions :=
      visits.along fun s action next taken sound before => endsBetween_of_sound before taken sound
    exact visits.strengthen judged fun s action next sound between _ => between sound
  · intro between
    have nothing : start.shown = [] := by rw [shown, fresh.2, List.flatMap_nil]
    have sound : start.PollsSound := by
      refine ⟨by simp [fresh.2], by simp [fresh.2], ?_⟩
      rw [nothing, fresh.1]
      exact ⟨List.nil_prefix, rfl⟩
    have asks : Along step (fun _ action => AsksForSome action) start actions :=
      .of_forall fun action mem _ => asks action mem
    refine visits_of_invariant PollsSound ?_ sound (between.and asks)
    intro s action next sound asked taken
    obtain ⟨between, asks⟩ := asked
    exact sound.step between asks taken

/-- A job that has written nothing yet. -/
def silentJob : JobRun where
  jobId := 1
  job := { output := [], killed := false, exitCode := none }
  readers := fun _ => { wrotePrefix := false, ended := false }
  nextOffset := 0
  polls := []

/-- It writes a letter of two bytes, and a client asks for the heading and one byte of that. -/
def letterCut : List Action := [.read .stdout [0xC3, 0xA9], .poll (some 10) none]

/-- The same letter, for a client whose pieces end with the heading, and then with the letter. -/
def letterWhole : List Action :=
  [.read .stdout [0xC3, 0xA9], .poll (some 9) none, .read .stderr [0x21], .poll (some 2) none,
    .close .stdout, .close .stderr, .poll (some 5) (some (.error "interrupted")),
    .poll none (some (.ok (some 0)))]

/-- Each of the polls ends between characters, or is refused, so the client sees the whole log. -/
theorem letterWhole_sound :
    Visits step PollsSound silentJob letterWhole ∧
      (run step silentJob letterWhole).map (fun s => (s.polls.length, s.shown)) =
        some (4, "$ stdout\né$ stderr\n!\n".toList) := by
  refine ⟨(polls_sound_iff ⟨rfl, rfl⟩ ?_).mpr ?_, ?_⟩
  · simp [letterWhole, AsksForSome]
  · decide +kernel
  · decide +kernel

/-- The poll panics. -/
theorem letterCut_panics :
    ∃ s, run step silentJob letterCut = some s ∧ ∃ poll ∈ s.polls, poll.outcome = .panicked :=
  ⟨_, rfl, _, List.mem_singleton_self _, rfl⟩

end JobRun

end McpCli
