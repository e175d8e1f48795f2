import McpCli.Proofs.Daemon.Search

/-! The hits of a search, each with the lines in front of it and those behind it. -/

namespace McpCli

/-- A hit with the lines in front of it, and the lines behind it. -/
structure HitParts where
  hit : SearchHit
  behind : List SearchContextLine

/-- The hit with all its lines. -/
def HitParts.whole (parts : HitParts) : SearchHit :=
  { parts.hit with context := parts.hit.context ++ parts.behind }

/-- The first hits of all, of which the one that reaches the limit lacks the lines behind it. -/
def firstHits : Nat → List HitParts → List SearchHit
  | 0, _ => []
  | _, [] => []
  | 1, parts :: _ => [parts.hit]
  | max + 2, parts :: rest => parts.whole :: firstHits (max + 1) rest

/-- Where there are no hits, there are no first ones. -/
@[simp] theorem firstHits_nil (max : Nat) : firstHits max [] = [] := by
  cases max with
  | zero => rfl
  | succ max => simp only [firstHits]

/-- There are as many of them as there can be. -/
@[simp] theorem firstHits_length (max : Nat) (all : List HitParts) :
    (firstHits max all).length = min max all.length := by
  fun_induction firstHits max all with
  | case1 all => simp
  | case2 max => simp
  | case3 parts rest => simp
  | case4 max parts rest ih =>
    simp only [List.length_cons, ih]
    omega

/-- Below the limit, every hit is whole. -/
theorem firstHits_few {max : Nat} {all : List HitParts} (few : all.length < max) :
    firstHits max all = all.map HitParts.whole := by
  fun_induction firstHits max all with
  | case1 all => cases few
  | case2 max => rfl
  | case3 parts rest => exact absurd few (by simp)
  | case4 max parts rest ih =>
    rw [List.map_cons, ih (Nat.lt_of_succ_lt_succ few)]

/-- No hit follows on the one that reaches the limit. -/
theorem firstHits_append (max : Nat) (all more : List HitParts) :
    firstHits max (all ++ more) = firstHits max all ++ firstHits (max - all.length) more := by
  -- The hits of the first list use up the limit one by one.
  fun_induction firstHits max all with
  | case1 all => simp [firstHits]
  | case2 max => simp
  | case3 parts rest => simp [firstHits]
  | case4 max parts rest ih =>
    have left : max + 2 - (parts :: rest).length = max + 1 - rest.length := by
      rw [List.length_cons]
      omega
    rw [List.cons_append, firstHits, ih, left, List.cons_append]

namespace ContextSink

/-- A line as it is given near a match. -/
def contextLine (lineNumber : Option Nat) (line : List Char) : SearchContextLine :=
  { lineNumber := lineNumber.getD 0, line := stripCrlf line }

/-- The lines behind a match, up to the next one. -/
def behind : List SinkLine → List SearchContextLine
  | [] => []
  | .matched _ _ :: _ => []
  | .context .before _ _ :: rest => behind rest
  | .context .after lineNumber line :: rest => contextLine lineNumber line :: behind rest
  | .context .other lineNumber line :: rest => contextLine lineNumber line :: behind rest

/-- The hits of a file with their lines, where some lines wait for the first one. -/
def parts (path : RelPath) : List SearchContextLine → List SinkLine → List HitParts
  | _, [] => []
  | pending, .matched lineNumber line :: rest =>
    { hit :=
        { path
          lineNumber := lineNumber.getD 0
          line := stripCrlf line
          context := pending }
      behind := behind rest } :: parts path [] rest
  | pending, .context .before lineNumber line :: rest =>
    parts path (pending ++ [contextLine lineNumber line]) rest
  | pending, .context .after _ _ :: rest => parts path pending rest
  | pending, .context .other _ _ :: rest => parts path pending rest

/-- The hits, of which the most recent one of this file gets more lines behind it. -/
def extended (sink : ContextSink) (more : List SearchContextLine) : List SearchHit :=
  match sink.lastHitIdx with
  | some idx => sink.hits.modify idx fun hit => { hit with context := hit.context ++ more }
  | none => sink.hits

/-- Nothing more leaves the hits as they are. -/
@[simp] theorem extended_nil (sink : ContextSink) : sink.extended [] = sink.hits := by
  unfold extended
  split
  · simp only [List.append_nil]
    exact List.modify_id _ _
  · rfl

variable {sink : ContextSink}

/-- A sink that is full takes nothing. -/
theorem take_full (full : sink.maxHits ≤ sink.hits.length) (lines : List SinkLine) :
    sink.take lines = sink := by
  cases lines with
  | nil => rfl
  | cons first rest =>
    cases first with
    | matched lineNumber line => simp only [take, matched, if_pos full]
    | context kind lineNumber line => simp only [take, context, if_pos full]

/-- There are as many hits as before. -/
@[simp] theorem extended_length (more : List SearchContextLine) :
    (sink.extended more).length = sink.hits.length := by
  unfold extended
  split
  · rw [List.length_modify]
  · rfl

/-- Two portions of lines are one. -/
theorem extended_extended (more others : List SearchContextLine) :
    ({ sink with hits := sink.extended more }).extended others = sink.extended (more ++ others) := by
  unfold extended
  -- Without a hit in this file, the lines are lost.
  cases sink.lastHitIdx with
  | none => rfl
  | some idx =>
    simp only [List.modify_modify_eq]
    congr 1
    funext hit
    simp only [Function.comp, List.append_assoc]

/-- A sink with room takes a match as its next hit, and goes on unless that fills it. -/
theorem matched_eq (room : sink.hits.length < sink.maxHits) (lineNumber : Option Nat)
    (line : List Char) :
    sink.matched lineNumber line = (decide (sink.hits.length + 1 < sink.maxHits),
      { sink with
        hits := sink.hits ++ [
          { path := sink.path
            lineNumber := lineNumber.getD 0
            line := stripCrlf line
            context := sink.pendingBefore }]
        lastHitIdx := some sink.hits.length
        pendingBefore := [] }) := by
  -- There is room, so the match is pushed; it may then be the one that reaches the limit.
  rw [matched, if_neg (Nat.not_le.mpr room)]
  simp only [List.length_append, List.length_singleton]

/-- A line in front of a match waits. -/
theorem context_before (room : sink.hits.length < sink.maxHits) (lineNumber : Option Nat)
    (line : List Char) :
    sink.context .before lineNumber line =
      (true, { sink with
        pendingBefore := sink.pendingBefore ++ [contextLine lineNumber line] }) := by
  rw [context, if_neg (Nat.not_le.mpr room)]
  rfl

/-- A line behind a match is one more behind the most recent hit. -/
theorem context_behind (room : sink.hits.length < sink.maxHits) {kind : SinkContextKind}
    (other : kind ≠ .before) (lineNumber : Option Nat) (line : List Char) :
    sink.context kind lineNumber line =
      (true, { sink with hits := sink.extended [contextLine lineNumber line] }) := by
  rw [context, if_neg (Nat.not_le.mpr room), extended]
  obtain ⟨path, hits, maxHits, lastHitIdx, pendingBefore⟩ := sink
  -- Lines behind a match and lines that are passed through are treated alike.
  cases kind with
  | before => exact absurd rfl other
  | after => cases lastHitIdx <;> rfl
  | other => cases lastHitIdx <;> rfl

/-- The most recent hit is one of the hits. -/
def Pointed (sink : ContextSink) : Prop :=
  ∀ idx, sink.lastHitIdx = some idx → idx < sink.hits.length

/-- A line behind a match leaves the place of the most recent hit as it is. -/
theorem Pointed.extended (pointed : sink.Pointed) (more : List SearchContextLine) :
    Pointed { sink with hits := sink.extended more } := by
  intro idx last
  rw [extended_length]
  exact pointed idx last

/-- Behind a new hit, the hits before it stay, and it gets what is added. -/
theorem extended_new (hits : List SearchHit) (hit : SearchHit) (more : List SearchContextLine) :
    ({ sink with
        hits := hits ++ [hit]
        lastHitIdx := some hits.length
        pendingBefore := [] } : ContextSink).extended more =
      hits ++ [{ hit with context := hit.context ++ more }] := by
  simp only [extended]
  rw [List.modify_eq_take_drop, List.take_left, List.drop_left]
  rfl

/--
The lines of a file give the most recent hit those up to the next match, and add the hits of the
file up to the limit.
-/
theorem take_hits {pending : List SearchContextLine} (waiting : sink.pendingBefore = pending)
    (pointed : sink.Pointed) (room : sink.hits.length < sink.maxHits) (lines : List SinkLine) :
    (sink.take lines).hits = sink.extended (behind lines) ++
      firstHits (sink.maxHits - sink.hits.length) (parts sink.path pending lines) := by
  -- The induction follows the lines, and each of them is taken as there is still room.
  induction lines generalizing sink pending with
  | nil => simp [take, behind, parts]
  | cons first rest ih =>
    cases first with
    | matched lineNumber line =>
      subst waiting
      simp only [take, matched_eq room, behind, parts, extended_nil]
      by_cases more : sink.hits.length + 1 < sink.maxHits
      · -- The new hit gets the lines up to the next one, whether the limit comes there or not.
        let hit : SearchHit :=
          { path := sink.path
            lineNumber := lineNumber.getD 0
            line := stripCrlf line
            context := sink.pendingBefore }
        have grown : (sink.hits ++ [hit]).length = sink.hits.length + 1 := by simp
        have later := @ih { sink with
            hits := sink.hits ++ [hit]
            lastHitIdx := some sink.hits.length
            pendingBefore := [] } [] rfl
          (by rintro idx ⟨⟩; rw [grown]; exact Nat.lt_succ_self _) (grown ▸ more)
        obtain ⟨left, there⟩ : ∃ left, sink.maxHits - sink.hits.length = left + 2 :=
          ⟨sink.maxHits - sink.hits.length - 2, by omega⟩
        have fewer : sink.maxHits - (sink.hits.length + 1) = left + 1 := by omega
        rw [extended_new, grown, fewer, List.append_assoc] at later
        rw [there, firstHits]
        simp only [more, decide_true]
        exact later
      · -- The new hit is the last one.
        have last : sink.maxHits - sink.hits.length = 1 := by omega
        simp only [more, decide_false, last, firstHits]
    | context kind lineNumber line =>
      by_cases before : kind = .before
      · subst before waiting
        simp only [take, context_before room]
        exact @ih { sink with
          pendingBefore := sink.pendingBefore ++ [contextLine lineNumber line] } _ rfl pointed room
      · have later := @ih { sink with hits := sink.extended [contextLine lineNumber line] } pending
          waiting (pointed.extended _) (by simpa using room)
        rw [extended_extended, extended_length] at later
        simp only [take, context_behind room before, later]
        cases kind with
        | before => exact absurd rfl before
        | after => rfl
        | other => rfl

end ContextSink

namespace SearchTools

variable {Content Matcher Overrides Walker : Type}
  {tools : SearchTools Content Matcher Overrides Walker} {disk : Disk Content} {root : AbsPath}
  {params : SearchGrepParams}

/-- The hits of a file with their lines, if it is still there. -/
def parts (tools : SearchTools Content Matcher Overrides Walker) (disk : Disk Content)
    (root : AbsPath) (params : SearchGrepParams) (matcher : Matcher) (path : RelPath) :
    List HitParts :=
  match disk (root ++ path) with
  | none => []
  | some content =>
    ContextSink.parts path [] (tools.report matcher params.contextLines content)

/-- A walker over this tree yields these files, one after another, and comes to its end. -/
inductive Walked (tools : SearchTools Content Matcher Overrides Walker) (disk : Disk Content) :
    Walker → List RelPath → Prop where
  | ended {walker} (found : tools.next disk walker = none) : Walked tools disk walker []
  | error {walker rest files} (found : tools.next disk walker = some (none, rest))
    (later : Walked tools disk rest files) : Walked tools disk walker files
  | other {walker rest files entry} (found : tools.next disk walker = some (some entry, rest))
    (directory : entry.isFile = false) (later : Walked tools disk rest files) :
    Walked tools disk walker files
  | file {walker rest files entry} (found : tools.next disk walker = some (some entry, rest))
    (regular : entry.isFile = true) (later : Walked tools disk rest files) :
    Walked tools disk walker (entry.path :: files)

/-- A search starts without hits. -/
theorem begin_hits {walk : SearchWalk Matcher Walker}
    (begun : tools.begin root params = .ok walk) : walk.hits = [] := by
  unfold begin at begun
  -- A walk that begins has no hits, whichever way it was begun.
  split at begun
  · cases begun
  · split at begun
    · cases begun
      rfl
    · simp only at begun
      split at begun
      · cases begun
      · cases begun
      · cases begun
        rfl

/-- The hits of a file are added up to the limit. -/
theorem searchPath_eq (matcher : Matcher) (hits : List SearchHit) (path : RelPath) :
    tools.searchPath disk root params matcher hits path =
      hits ++ firstHits (params.maxHits - hits.length)
        (tools.parts disk root params matcher path) := by
  unfold searchPath parts
  cases disk (root ++ path) with
  | none => simp
  | some content =>
    simp only
    -- The sink starts with the hits of the files before and none of this file.
    by_cases room : hits.length < params.maxHits
    · rw [@ContextSink.take_hits (.new path hits params.maxHits) _ rfl (by rintro idx ⟨⟩) room]
      rfl
    · -- Without room, the file is looked at for nothing.
      have none_left : params.maxHits - hits.length = 0 :=
        Nat.sub_eq_zero_of_le (Nat.le_of_not_lt room)
      rw [ContextSink.take_full (Nat.le_of_not_lt room), none_left, firstHits, List.append_nil]
      rfl

/-- A walk with room for one more hit comes to its end with the hits of the files up to the limit. -/
theorem finish_walked {walker : Walker} {files : List RelPath}
    (walked : tools.Walked disk walker files) {matcher : Matcher} {hits : List SearchHit}
    (room : hits.length < params.maxHits) :
    ∃ fuel, tools.finish disk root params fuel { matcher, walker, hits } =
      some
        { hits := hits ++ firstHits (params.maxHits - hits.length)
            (files.flatMap (tools.parts disk root params matcher))
          truncated := decide (params.maxHits ≤
            hits.length + (files.flatMap (tools.parts disk root params matcher)).length) } := by
  -- The induction follows the walker to its end, unless the limit comes first.
  induction walked generalizing hits with
  | ended found =>
    refine ⟨1, ?_⟩
    simp [finish, advance, found, room]
  | error found later ih =>
    obtain ⟨fuel, ended⟩ := ih room
    refine ⟨fuel + 1, ?_⟩
    simpa only [finish, advance, found] using ended
  | other found directory later ih =>
    obtain ⟨fuel, ended⟩ := ih room
    refine ⟨fuel + 1, ?_⟩
    simpa only [finish, advance, found, directory, Bool.not_false, if_true] using ended
  | @file walker rest files entry found regular later ih =>
    have own := @searchPath_eq _ _ _ _ tools disk root params matcher hits entry.path
    -- The file adds its hits as far as there is room for them.
    have more : (tools.searchPath disk root params matcher hits entry.path).length =
        hits.length + min (params.maxHits - hits.length)
          (tools.parts disk root params matcher entry.path).length := by
      rw [own, List.length_append, firstHits_length]
    by_cases full : params.maxHits ≤
        (tools.searchPath disk root params matcher hits entry.path).length
    · -- The hits of this file reach the limit, so those of the others are not looked for.
      refine ⟨1, ?_⟩
      have none_left : params.maxHits - hits.length -
          (tools.parts disk root params matcher entry.path).length = 0 := by omega
      have reached : params.maxHits ≤ hits.length +
          ((tools.parts disk root params matcher entry.path).length +
            (files.flatMap (tools.parts disk root params matcher)).length) := by omega
      simp only [finish, advance, found, regular, Bool.not_true, Bool.false_eq_true, if_false, full,
        if_true]
      simp only [own, List.flatMap_cons, firstHits_append, none_left, firstHits, List.append_nil,
        List.length_append, reached, decide_true]
    · -- There is still room behind this file, all of whose hits are there.
      obtain ⟨fuel, ended⟩ := ih (Nat.lt_of_not_le full)
      refine ⟨fuel + 1, ?_⟩
      have all : (tools.searchPath disk root params matcher hits entry.path).length =
          hits.length + (tools.parts disk root params matcher entry.path).length := by omega
      rw [all] at ended
      simp only [finish, advance, found, regular, Bool.not_true, Bool.false_eq_true, if_false, full,
        ended]
      simp only [own, List.flatMap_cons, firstHits_append, List.length_append, Nat.add_assoc,
        Nat.sub_add_eq, List.append_assoc]

/-- A search with a limit comes to its end with the first hits of all. -/
theorem produces_firstHits {walk : SearchWalk Matcher Walker} {files : List RelPath}
    (begun : tools.begin root params = .ok walk) (walked : tools.Walked disk walk.walker files)
    (limited : 0 < params.maxHits) :
    tools.Produces disk root params
      { hits := firstHits params.maxHits
          (files.flatMap (tools.parts disk root params walk.matcher))
        truncated := decide (params.maxHits ≤
          (files.flatMap (tools.parts disk root params walk.matcher)).length) } := by
  have fresh := begin_hits begun
  obtain ⟨matcher, walker, hits⟩ := walk
  simp only at fresh
  subst fresh
  -- The walk begins without hits, so the whole limit is left.
  obtain ⟨fuel, ended⟩ := @finish_walked _ _ _ _ tools disk root params _ _ walked matcher [] limited
  rw [List.nil_append, List.length_nil, Nat.sub_zero, Nat.zero_add] at ended
  exact ⟨_, fuel, begun, ended⟩

end SearchTools

end McpCli
