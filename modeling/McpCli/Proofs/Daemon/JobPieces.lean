import McpCli.Proofs.Daemon.JobLog
import McpCli.Text.LossyPieces

/-! The log of a job that writes on one stream, however its bytes are read. -/

namespace McpCli

open Text (decodeLossy CutsBetween shownCount)

/-- The text with a line end behind it, unless it has one. -/
def endLine (text : List Char) : List Char :=
  if text.getLast? = some '\n' then text else text ++ ['\n']

/-- The log of a job that writes these bytes on one stream. -/
def jobLog (stream : JobStream) (bytes : List UInt8) : List Char :=
  endLine (stream.logPrefix ++ decodeLossy bytes)

namespace JobRun

open Transition

/-- What an action reads of a stream. -/
def pieceOf (stream : JobStream) : Action → Option (List UInt8)
  | .read other piece => if other = stream then some piece else none
  | _ => none

/-- The pieces in which a stream is read. -/
def piecesOf (stream : JobStream) (actions : List Action) : List (List UInt8) :=
  actions.filterMap (pieceOf stream)

/-- Nothing is read of any other stream. -/
def ReadsOnly (stream : JobStream) : Action → Prop
  | .read other _ => other = stream
  | _ => True

/-- A run of a job that writes on one stream only, until that stream has ended. -/
structure WritesAlone (start : JobRun) (stream : JobStream) (actions : List Action)
    (last : JobRun) : Prop where
  empty : start.job.output = []
  fresh : ∀ other, start.readers other = { wrotePrefix := false, ended := false }
  alone : ∀ action ∈ actions, ReadsOnly stream action
  ran : run step start actions = some last
  closed : (last.readers stream).ended = true

/-- The log as it is while the stream is read, and once it has ended. -/
def logOf (stream : JobStream) (pieces : List (List UInt8)) (ended : Bool) : List Char :=
  if pieces = [] then []
  else if ended then endLine (stream.logPrefix ++ pieces.flatMap decodeLossy)
  else stream.logPrefix ++ pieces.flatMap decodeLossy

/-- So far only these pieces of the stream have been read. -/
structure HasRead (s : JobRun) (stream : JobStream) (pieces : List (List UInt8)) : Prop where
  others : ∀ other, other ≠ stream → (s.readers other).wrotePrefix = false
  wrote : (s.readers stream).wrotePrefix = !pieces.isEmpty
  output : s.job.output = logOf stream pieces (s.readers stream).ended
  nonempty : ∀ piece ∈ pieces, piece ≠ []

/-- What leaves the log and its readers alone changes nothing about that. -/
theorem HasRead.same {s next : JobRun} {stream : JobStream} {pieces : List (List UInt8)}
    (has : s.HasRead stream pieces) (readers : next.readers = s.readers)
    (output : next.job.output = s.job.output) : next.HasRead stream pieces := by
  -- Only the readers and the log are spoken of.
  refine ⟨?_, ?_, ?_, has.nonempty⟩
  · rw [readers]
    exact has.others
  · rw [readers]
    exact has.wrote
  · rw [readers, output]
    exact has.output

/-- A poll does not change the log. -/
theorem toolReadLogs_output (job : BackgroundJob) (waited : Option Waited)
    (params : ToolReadLogsParams) : (toolReadLogs job waited params).2.output = job.output := by
  -- A poll asks for the process, which leaves the log alone, and then only cuts out of it.
  unfold toolReadLogs
  cases ok : job.tryWait params.jobId waited with
  | error error => rfl
  | ok asked =>
    have kept := BackgroundJob.tryWait_output ok
    simp only
    split <;> exact kept

/-- A piece of the stream that is read comes behind the others. -/
theorem HasRead.read {s next : JobRun} {stream : JobStream} {pieces : List (List UInt8)}
    {piece : List UInt8} (has : s.HasRead stream pieces)
    (taken : s.step (.read stream piece) = some next) :
    next.HasRead stream (pieces ++ [piece]) := by
  simp only [step] at taken
  -- A stream that has ended is not read any more.
  split at taken
  · cases taken
  · rename_i going
    obtain ⟨open_, some_bytes⟩ := not_or.mp going
    cases taken
    have goesOn : (s.readers stream).ended = false := by simpa using open_
    have before := has.output
    have wrote := has.wrote
    refine ⟨?_, ?_, ?_, ?_⟩
    · intro other different
      simp only [if_neg different]
      exact has.others other different
    · simp
    · simp only [if_true, goesOn] at before ⊢
      rw [LogReader.push, wrote, before, logOf, logOf, List.flatMap_append,
        List.flatMap_singleton, if_neg (List.append_ne_nil_of_right_ne_nil _ (List.cons_ne_nil _ _))]
      -- The heading is written in front of the first piece only.
      cases pieces with
      | nil => simp
      | cons first rest => simp
    · intro other member
      rcases List.mem_append.mp member with earlier | own
      · exact has.nonempty other earlier
      · rw [List.mem_singleton.mp own]
        exact some_bytes

/-- A thread that has written something ends with a line end. -/
theorem finish_eq_endLine {reader : LogReader} (wrote : reader.wrotePrefix = true)
    (output : List Char) : reader.finish output = endLine output := by
  rw [LogReader.finish, endLine]
  by_cases newline : output.getLast? = some '\n' <;> simp [wrote, newline]

/-- The end of a stream puts a line end behind the log, if the stream has written something. -/
theorem HasRead.close {s next : JobRun} {stream closed : JobStream} {pieces : List (List UInt8)}
    (has : s.HasRead stream pieces) (taken : s.step (.close closed) = some next) :
    next.HasRead stream pieces := by
  simp only [step] at taken
  -- A stream ends once.
  split at taken
  · cases taken
  · rename_i open_
    cases taken
    have before := has.output
    have wrote := has.wrote
    by_cases same : closed = stream
    · subst same
      have goesOn : (s.readers closed).ended = false := by simpa using open_
      refine ⟨?_, ?_, ?_, has.nonempty⟩
      · intro other different
        simp only [if_neg different]
        exact has.others other different
      · simpa using wrote
      · simp only [if_true, goesOn] at before ⊢
        rw [before, logOf, logOf]
        -- A thread that has written nothing puts no line end behind it.
        cases pieces with
        | nil =>
          have nothing : (s.readers closed).wrotePrefix = false := wrote
          simp [LogReader.finish, nothing]
        | cons first rest =>
          rw [finish_eq_endLine wrote]
          simp
    · -- The other stream has not written anything.
      have silent := has.others closed same
      refine ⟨?_, ?_, ?_, has.nonempty⟩
      · intro other different
        by_cases own : other = closed
        · subst own
          simpa using silent
        · simp only [if_neg own]
          exact has.others other different
      · simpa only [if_neg (Ne.symm same)] using wrote
      · simp only [if_neg (Ne.symm same)]
        rw [LogReader.finish, silent]
        simpa using before

/-- A step reads at most one piece more. -/
theorem HasRead.step {s next : JobRun} {stream : JobStream} {pieces : List (List UInt8)}
    {action : Action} (has : s.HasRead stream pieces) (alone : ReadsOnly stream action)
    (taken : s.step action = some next) :
    next.HasRead stream (pieces ++ (pieceOf stream action).toList) := by
  -- Only reads of the stream add a piece.
  cases action with
  | read other piece =>
    obtain rfl : other = stream := alone
    rw [pieceOf, if_pos rfl]
    exact has.read taken
  | close other =>
    rw [show pieceOf stream _ = none from rfl, Option.toList_none, List.append_nil]
    exact has.close taken
  | kill waited killed =>
    cases taken
    rw [show pieceOf stream _ = none from rfl, Option.toList_none, List.append_nil]
    exact has.same rfl (toolKill_output _ _ _ _)
  | poll maxBytes waited =>
    cases taken
    rw [show pieceOf stream _ = none from rfl, Option.toList_none, List.append_nil]
    exact has.same rfl (toolReadLogs_output _ _ _)

/-- A run reads the pieces that its actions do. -/
theorem HasRead.run {s last : JobRun} {stream : JobStream} {pieces : List (List UInt8)}
    {actions : List Action} (has : s.HasRead stream pieces)
    (alone : ∀ action ∈ actions, ReadsOnly stream action)
    (ran : Transition.run JobRun.step s actions = some last) :
    last.HasRead stream (pieces ++ piecesOf stream actions) := by
  -- The pieces of a run are those of its first step and of the rest.
  induction actions generalizing s pieces with
  | nil =>
    cases ran
    rw [piecesOf, List.filterMap_nil, List.append_nil]
    exact has
  | cons action rest ih =>
    obtain ⟨next, taken, ran⟩ := run_cons_eq_some.mp ran
    rw [List.forall_mem_cons] at alone
    have later := ih (has.step alone.1 taken) alone.2 ran
    have parts : piecesOf stream (action :: rest) =
        (pieceOf stream action).toList ++ piecesOf stream rest := by
      rw [piecesOf, List.filterMap_cons]
      cases pieceOf stream action <;> rfl
    rwa [parts, ← List.append_assoc]

/-- The final log is made of the pieces, each of them decoded on its own. -/
theorem WritesAlone.output {start last : JobRun} {stream : JobStream} {actions : List Action}
    (writes : WritesAlone start stream actions last) :
    (∀ piece ∈ piecesOf stream actions, piece ≠ []) ∧
      last.job.output = logOf stream (piecesOf stream actions) true := by
  -- Nothing has been read when the run starts.
  have first : start.HasRead stream [] := by
    refine ⟨?_, ?_, writes.empty, fun _ member => nomatch member⟩
    · intro other _
      rw [writes.fresh]
    · rw [writes.fresh]
      rfl
  have read := first.run writes.alone writes.ran
  rw [List.nil_append] at read
  have output := read.output
  rw [writes.closed] at output
  exact ⟨read.nonempty, output⟩

/-- A line end is not counted. -/
theorem countP_endLine (text : List Char) :
    (endLine text).countP (fun c => c ≠ '\n') = text.countP fun c => c ≠ '\n' := by
  -- The only thing that is added is a line end.
  rw [endLine]
  split
  · rfl
  · rw [List.countP_append]
    simp

/-- The final log is that of the whole exactly if something is read, and in whole characters. -/
theorem WritesAlone.output_iff {start last : JobRun} {stream : JobStream} {actions : List Action}
    (writes : WritesAlone start stream actions last) :
    last.job.output = jobLog stream (piecesOf stream actions).flatten ↔
      (piecesOf stream actions).flatten ≠ [] ∧ CutsBetween (piecesOf stream actions) := by
  obtain ⟨nonempty, output⟩ := writes.output
  rw [output, logOf, jobLog]
  generalize piecesOf stream actions = pieces at nonempty
  obtain ⟨same, more⟩ := Text.flatMap_decodeLossy pieces
  cases pieces with
  | nil =>
    -- Nothing is written, not even in front of it.
    refine iff_of_false ?_ (fun both => both.1 rfl)
    cases stream <;> decide
  | cons first rest =>
    have some_bytes : (first :: rest).flatten ≠ [] := by
      rw [List.flatten_cons]
      exact List.append_ne_nil_of_left_ne_nil (nonempty first List.mem_cons_self) _
    rw [if_neg (List.cons_ne_nil _ _), if_pos rfl, and_iff_right some_bytes]
    constructor
    · intro logs
      by_contra cut
      -- There are more characters than line ends could make up for.
      have counts := congrArg (List.countP fun c => c ≠ '\n') logs
      rw [countP_endLine, countP_endLine, List.countP_append, List.countP_append] at counts
      have fewer := more cut
      rw [shownCount] at fewer
      omega
    · intro between
      rw [same between]

/--
However the bytes that a job writes on one stream are read in two runs, the final log is in both the
heading of the stream, the text of the bytes and a final line end, exactly if there are any bytes
and no read ends within a character of the whole, or within bytes that are replaced together.
-/
theorem finalLogs_iff {first second last last' : JobRun} {stream : JobStream}
    {actions actions' : List Action} (writes : WritesAlone first stream actions last)
    (writes' : WritesAlone second stream actions' last')
    (same : (piecesOf stream actions).flatten = (piecesOf stream actions').flatten) :
    (last.job.output = last'.job.output ∧
      last.job.output = jobLog stream (piecesOf stream actions).flatten) ↔
      (piecesOf stream actions).flatten ≠ [] ∧
        CutsBetween (piecesOf stream actions) ∧ CutsBetween (piecesOf stream actions') := by
  have log := writes.output_iff
  have log' := writes'.output_iff
  rw [← same] at log'
  -- Both logs are compared with that of the whole, which is the same for both runs.
  constructor
  · intro both
    obtain ⟨alike, whole⟩ := both
    exact ⟨(log.mp whole).1, (log.mp whole).2, (log'.mp (alike ▸ whole)).2⟩
  · intro each
    obtain ⟨some_bytes, between, between'⟩ := each
    have whole := log.mpr ⟨some_bytes, between⟩
    exact ⟨whole.trans (log'.mpr ⟨some_bytes, between'⟩).symm, whole⟩

/-- A job whose standard output is read in these pieces. -/
def readPieces (pieces : List (List UInt8)) : List Action :=
  pieces.map (.read .stdout) ++ [.close .stdout]

/-- A run of it, which ends with this log. -/
theorem writesAlone_readPieces {pieces : List (List UInt8)} {last : JobRun}
    (ran : run step silentJob (readPieces pieces) = some last)
    (closed : (last.readers .stdout).ended = true) :
    WritesAlone silentJob .stdout (readPieces pieces) last := by
  -- The actions are reads of the one stream, and its end.
  refine ⟨rfl, fun _ => rfl, ?_, ran, closed⟩
  intro action member
  rcases List.mem_append.mp member with read | close
  · obtain ⟨piece, _, rfl⟩ := List.mem_map.mp read
    rfl
  · rw [List.mem_singleton.mp close]
    trivial

/-- Read between the two letters or at once, the log is the same. -/
theorem finalLogs_letters :
    ∃ last last', run step silentJob (readPieces [[0x61], [0xC3, 0xA9]]) = some last ∧
      run step silentJob (readPieces [[0x61, 0xC3, 0xA9]]) = some last' ∧
      last.job.output = last'.job.output ∧ last.job.output = "$ stdout\naé\n".toList := by
  -- Both runs are evaluated, and none of their reads ends within a letter.
  obtain ⟨last, ran, closed⟩ : ∃ last, run step silentJob (readPieces [[0x61], [0xC3, 0xA9]]) =
      some last ∧ (last.readers .stdout).ended = true := ⟨_, rfl, rfl⟩
  obtain ⟨last', ran', closed'⟩ : ∃ last, run step silentJob (readPieces [[0x61, 0xC3, 0xA9]]) =
      some last ∧ (last.readers .stdout).ended = true := ⟨_, rfl, rfl⟩
  obtain ⟨alike, whole⟩ := (finalLogs_iff (writesAlone_readPieces ran closed)
    (writesAlone_readPieces ran' closed') rfl).mpr ⟨by decide, by decide, by decide⟩
  exact ⟨last, last', ran, ran', alike, whole.trans (by decide)⟩

/-- Read in the middle of a letter, its two bytes are replaced one by one. -/
theorem finalLogs_cutLetter :
    (run step silentJob (readPieces [[0xC3, 0xA9]])).map (fun s => s.job.output) =
        some "$ stdout\né\n".toList ∧
      (run step silentJob (readPieces [[0xC3], [0xA9]])).map (fun s => s.job.output) =
        some "$ stdout\n\uFFFD\uFFFD\n".toList :=
  ⟨by decide, by decide⟩

end JobRun

end McpCli
