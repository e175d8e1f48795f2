import McpCli.Proofs.Daemon.SearchHits
import McpCli.Text.Replace

/-! Which lines around the matches a search gives, if the searcher reports what it documents. -/

namespace McpCli

/-- A line of a file with what ends it, and whether it matches. -/
structure FileLine where
  text : List Char
  hit : Bool
  deriving DecidableEq, Repr

section

variable (n : Nat) (lines : List FileLine)

/-- The line at an index matches. -/
def HitAt (index : Nat) : Prop := ∃ line, lines[index]? = some line ∧ line.hit = true

/-- A match is at most so many lines in front of this line. -/
def HitBefore (index : Nat) : Prop := ∃ at_, HitAt lines at_ ∧ at_ < index ∧ index ≤ at_ + n

/-- A match is at most so many lines behind this line. -/
def HitBehind (index : Nat) : Prop := ∃ at_, HitAt lines at_ ∧ index < at_ ∧ at_ ≤ index + n

/-- A match is at most so many lines away. -/
def HitNear (index : Nat) : Prop := ∃ at_, HitAt lines at_ ∧ index ≤ at_ + n ∧ at_ ≤ index + n

end

/-- A place where a match may be is one of the lines. -/
theorem HitAt.lt {lines : List FileLine} {index : Nat} (hit : HitAt lines index) :
    index < lines.length := by
  obtain ⟨line, there, _⟩ := hit
  exact (List.getElem?_eq_some_iff.mp there).1

instance (lines : List FileLine) (index : Nat) : Decidable (HitAt lines index) :=
  decidable_of_iff (lines[index]?.any FileLine.hit = true) (by
    rw [Option.any_eq_true]
    rfl)

instance (n : Nat) (lines : List FileLine) (index : Nat) : Decidable (HitBefore n lines index) :=
  decidable_of_iff (∃ at_ < lines.length, HitAt lines at_ ∧ at_ < index ∧ index ≤ at_ + n) (by
    constructor
    · rintro ⟨at_, _, met⟩
      exact ⟨at_, met⟩
    · rintro ⟨at_, met⟩
      exact ⟨at_, met.1.lt, met⟩)

instance (n : Nat) (lines : List FileLine) (index : Nat) : Decidable (HitBehind n lines index) :=
  decidable_of_iff (∃ at_ < lines.length, HitAt lines at_ ∧ index < at_ ∧ at_ ≤ index + n) (by
    constructor
    · rintro ⟨at_, _, met⟩
      exact ⟨at_, met⟩
    · rintro ⟨at_, met⟩
      exact ⟨at_, met.1.lt, met⟩)

/-- How a line is reported: as a match, behind one, in front of one or not at all. -/
def reportedLine (n : Nat) (lines : List FileLine) (line : FileLine) (index : Nat) :
    Option SinkLine :=
  if HitAt lines index then some (.matched (some (index + 1)) line.text)
  else if HitBefore n lines index then some (.context .after (some (index + 1)) line.text)
  else if HitBehind n lines index then some (.context .before (some (index + 1)) line.text)
  else none

/-- What is reported of the lines from an index on. -/
def reportedFrom (n : Nat) (lines : List FileLine) (index : Nat) (rest : List FileLine) :
    List SinkLine :=
  (rest.zipIdx index).filterMap fun entry => reportedLine n lines entry.1 entry.2

/-- What the searcher reports of a file, with so many lines around each match. -/
def reported (n : Nat) (lines : List FileLine) : List SinkLine := reportedFrom n lines 0 lines

/-- The line that is reported, as it is given to the client. -/
def SinkLine.given : SinkLine → SearchContextLine
  | .matched lineNumber line => ContextSink.contextLine lineNumber line
  | .context _ lineNumber line => ContextSink.contextLine lineNumber line

/-- The line is reported as a match. -/
def SinkLine.isMatch : SinkLine → Bool
  | .matched _ _ => true
  | .context _ _ _ => false

/-- A match is among the reported lines. -/
def HasMatch (stream : List SinkLine) : Prop := ∃ lineNumber line, .matched lineNumber line ∈ stream

/-- A line behind a match does not stand for the match that follows. -/
theorem HasMatch.behind {kind : SinkContextKind} {lineNumber : Option Nat} {line : List Char}
    {rest : List SinkLine} (there : HasMatch (.context kind lineNumber line :: rest)) :
    HasMatch rest := by
  obtain ⟨number, text, member⟩ := there
  rcases List.mem_cons.mp member with same | later
  · cases same
  · exact ⟨number, text, later⟩

/-- Every line in front of a match is followed by one. -/
def Fulfilled (stream : List SinkLine) : Prop :=
  ∀ lineNumber line rest, .context .before lineNumber line :: rest <:+ stream → HasMatch rest

/-- The line of a hit that matches. -/
def SearchHit.own (hit : SearchHit) : SearchContextLine :=
  { lineNumber := hit.lineNumber, line := hit.line }

/-- That line, and the lines around it. -/
def SearchHit.lines (hit : SearchHit) : List SearchContextLine := hit.own :: hit.context

namespace ContextSink

/--
The lines of the hits, with those for the hit before them, are the lines that wait and those that
are reported.
-/
theorem parts_lines (path : RelPath) {pending : List SearchContextLine} {stream : List SinkLine}
    (fulfilled : Fulfilled stream) (awaited : pending = [] ∨ HasMatch stream) :
    (behind stream ++ (parts path pending stream).flatMap fun hit => hit.whole.lines).Perm
      (pending ++ stream.map SinkLine.given) := by
  have later {first : SinkLine} {rest : List SinkLine} (fulfilled : Fulfilled (first :: rest)) :
      Fulfilled rest := fun lineNumber line more there =>
    fulfilled lineNumber line more (there.trans (List.suffix_cons first rest))
  -- The induction follows the stream; where it ends, nothing waits any more.
  fun_induction parts path pending stream with
  | case1 pending =>
    rcases awaited with rfl | ⟨lineNumber, line, there⟩
    · exact .nil
    · cases there
  | case2 pending lineNumber line rest ih =>
    -- A match takes the lines that wait, and none waits behind it.
    have others := ih (later fulfilled) (.inl rfl)
    simp only [behind, List.nil_append, List.flatMap_cons, HitParts.whole, SearchHit.lines,
      List.map_cons, SinkLine.given, List.cons_append, List.append_assoc] at others ⊢
    exact ((others.append_left pending).cons _).trans List.perm_middle.symm
  | case3 pending lineNumber line rest ih =>
    -- A line in front of a match waits with the others, and a match is still to come.
    have others := ih (later fulfilled) (.inr (fulfilled lineNumber line rest (List.suffix_refl _)))
    simpa only [behind, List.map_cons, SinkLine.given, List.append_assoc, List.cons_append,
      List.nil_append] using others
  | case4 pending lineNumber line rest ih =>
    -- A line behind a match belongs to the hit before, and those that wait go on waiting.
    have others := ih (later fulfilled) (awaited.imp_right HasMatch.behind)
    exact (others.cons _).trans List.perm_middle.symm
  | case5 pending lineNumber line rest ih =>
    have others := ih (later fulfilled) (awaited.imp_right HasMatch.behind)
    exact (others.cons _).trans List.perm_middle.symm

/-- The hits of a file are its matches, whatever waits for them. -/
theorem parts_own (path : RelPath) (pending : List SearchContextLine) (stream : List SinkLine) :
    (parts path pending stream).map (fun hit => (hit.whole.path, hit.whole.own)) =
      (stream.filter SinkLine.isMatch).map fun line => (path, line.given) := by
  -- Only the matches make hits, whatever waits.
  fun_induction parts path pending stream with
  | case1 pending => rfl
  | case2 pending lineNumber line rest ih =>
    rw [List.map_cons, ih]
    rfl
  | case3 pending lineNumber line rest ih => exact ih
  | case4 pending lineNumber line rest ih => exact ih
  | case5 pending lineNumber line rest ih => exact ih

end ContextSink

section

variable {n : Nat} {lines : List FileLine}

/-- A line near a match is one, or is behind or in front of one. -/
theorem hitNear_iff {index : Nat} :
    HitNear n lines index ↔
      HitAt lines index ∨ HitBefore n lines index ∨ HitBehind n lines index := by
  constructor
  · rintro ⟨at_, hit, low, high⟩
    -- The match is in front of the line, it is the line, or it is behind it.
    rcases Nat.lt_trichotomy at_ index with before | rfl | behind
    · exact .inr (.inl ⟨at_, hit, before, low⟩)
    · exact .inl hit
    · exact .inr (.inr ⟨at_, hit, behind, high⟩)
  · rintro (hit | ⟨at_, hit, before, low⟩ | ⟨at_, hit, behind, high⟩)
    · exact ⟨index, hit, Nat.le_add_right _ _, Nat.le_add_right _ _⟩
    · exact ⟨at_, hit, low, by omega⟩
    · exact ⟨at_, hit, by omega, high⟩

/-- A line that is there matches if it says so. -/
theorem hitAt_iff {index : Nat} {line : FileLine} (there : lines[index]? = some line) :
    HitAt lines index ↔ line.hit = true := by
  simp [HitAt, there]

/-- A reported line matches, or is behind a match, or is in front of one. -/
theorem reportedLine_cases {line : FileLine} {index : Nat} {event : SinkLine}
    (reports : reportedLine n lines line index = some event) :
    HitAt lines index ∧ event = .matched (some (index + 1)) line.text ∨
      HitBefore n lines index ∧ event = .context .after (some (index + 1)) line.text ∨
      HitBehind n lines index ∧ event = .context .before (some (index + 1)) line.text := by
  unfold reportedLine at reports
  split at reports
  · rename_i hit
    exact .inl ⟨hit, (Option.some.inj reports).symm⟩
  · split at reports
    · rename_i before
      exact .inr (.inl ⟨before, (Option.some.inj reports).symm⟩)
    · -- What is left is reported only if a match comes soon.
      obtain ⟨behind, same⟩ := Option.ite_none_right_eq_some.mp reports
      exact .inr (.inr ⟨behind, (Option.some.inj same).symm⟩)

/-- What is reported of a line is given with its number, counted from 1. -/
theorem reportedLine_given {line : FileLine} {index : Nat} {event : SinkLine}
    (reports : reportedLine n lines line index = some event) :
    HitNear n lines index ∧
      event.given = ContextSink.contextLine (some (index + 1)) line.text := by
  rw [hitNear_iff]
  rcases reportedLine_cases reports with ⟨hit, rfl⟩ | ⟨before, rfl⟩ | ⟨behind, rfl⟩
  · exact ⟨.inl hit, rfl⟩
  · exact ⟨.inr (.inl before), rfl⟩
  · exact ⟨.inr (.inr behind), rfl⟩

/-- Every line near a match is reported. -/
theorem reportedLine_near {line : FileLine} {index : Nat} (near : HitNear n lines index) :
    ∃ event, reportedLine n lines line index = some event := by
  unfold reportedLine
  split
  · exact ⟨_, rfl⟩
  · rename_i other
    split
    · exact ⟨_, rfl⟩
    · rename_i not_before
      -- The line does not match and no match is in front of it, so one is behind it.
      have behind := ((hitNear_iff.mp near).resolve_left other).resolve_left not_before
      exact ⟨_, if_pos behind⟩

/-- Only what stands in front of a match is reported so. -/
theorem reportedLine_before {line : FileLine} {index : Nat} {lineNumber : Option Nat}
    {text : List Char}
    (reports : reportedLine n lines line index = some (.context .before lineNumber text)) :
    HitBehind n lines index := by
  rcases reportedLine_cases reports with ⟨_, same⟩ | ⟨_, same⟩ | ⟨behind, _⟩
  · cases same
  · cases same
  · exact behind

/-- The first line is reported in front of the others. -/
theorem reportedFrom_cons (index : Nat) (line : FileLine) (rest : List FileLine) :
    reportedFrom n lines index (line :: rest) =
      (reportedLine n lines line index).toList ++ reportedFrom n lines (index + 1) rest := by
  rw [reportedFrom, List.zipIdx_cons, List.filterMap_cons]
  cases reportedLine n lines line index <;> rfl

/-- The lines from an index on begin with the line there. -/
theorem drop_eq_cons {index : Nat} {line : FileLine} {rest : List FileLine}
    (there : lines.drop index = line :: rest) :
    lines[index]? = some line ∧ lines.drop (index + 1) = rest := by
  constructor
  · rw [← List.head?_drop, there]
    rfl
  · rw [← List.tail_drop, there]
    rfl

/-- A match that comes is reported. -/
theorem reportedFrom_hasMatch {index at_ : Nat} (hit : HitAt lines at_) (ahead : index ≤ at_) :
    HasMatch (reportedFrom n lines index (lines.drop index)) := by
  obtain ⟨line, there, _⟩ := id hit
  refine ⟨some (at_ + 1), line.text, List.mem_filterMap.mpr ⟨(line, at_), ?_, if_pos hit⟩⟩
  -- The place of the match is counted from the index on.
  rw [List.mk_mem_zipIdx_iff_le_and_getElem?_sub, List.getElem?_drop, Nat.add_sub_cancel' ahead]
  exact ⟨ahead, there⟩

/-- A line in front of a match is reported before it. -/
theorem reportedFrom_fulfilled {index : Nat} {rest : List FileLine}
    (there : lines.drop index = rest) : Fulfilled (reportedFrom n lines index rest) := by
  -- The induction goes on with the lines behind the first one, where the matches to come are.
  induction rest generalizing index with
  | nil =>
    intro lineNumber line more suffix
    cases List.suffix_nil.mp suffix
  | cons first rest ih =>
    obtain ⟨_, others⟩ := drop_eq_cons there
    have fulfilled := ih others
    rw [reportedFrom_cons]
    cases reports : reportedLine n lines first index with
    | none => exact fulfilled
    | some event =>
      intro lineNumber line more suffix
      rcases List.suffix_cons_iff.mp suffix with same | later
      · -- This very line stands in front of a match, which is still to come.
        obtain ⟨rfl, rfl⟩ := List.cons.inj same
        obtain ⟨at_, hit, ahead, _⟩ := reportedLine_before reports
        have comes := @reportedFrom_hasMatch n lines (index + 1) at_ hit ahead
        rw [others] at comes
        exact comes
      · exact fulfilled lineNumber line more later

/-- Before the first match, no line is reported as one behind a match. -/
theorem behind_reportedFrom {index : Nat} {rest : List FileLine} (there : lines.drop index = rest)
    (none_yet : ∀ at_ < index, ¬ HitAt lines at_) :
    ContextSink.behind (reportedFrom n lines index rest) = [] := by
  induction rest generalizing index with
  | nil => rfl
  | cons first rest ih =>
    obtain ⟨_, others⟩ := drop_eq_cons there
    rw [reportedFrom_cons, reportedLine]
    by_cases hit : HitAt lines index
    · rw [if_pos hit]
      rfl
    · -- A line behind a match would have a match in front of it.
      have none_before : ¬ HitBefore n lines index := by
        rintro ⟨at_, hit, before, _⟩
        exact none_yet at_ before hit
      have later := ih others (by
        intro at_ before
        rcases Nat.lt_succ_iff_lt_or_eq.mp before with earlier | rfl
        · exact none_yet at_ earlier
        · exact hit)
      rw [if_neg hit, if_neg none_before]
      split
      · exact later
      · exact later

/-- The matching lines of a file, as they are given. -/
def matching (lines : List FileLine) : List SearchContextLine :=
  lines.zipIdx.filterMap fun entry =>
    if entry.1.hit then some (ContextSink.contextLine (some (entry.2 + 1)) entry.1.text) else none

/-- The lines that are reported as matches are those that match. -/
theorem reported_matching :
    ((reported n lines).filter SinkLine.isMatch).map SinkLine.given = matching lines := by
  rw [reported, reportedFrom, List.filter_filterMap, List.map_filterMap, matching]
  refine List.filterMap_congr fun entry member => ?_
  have there := hitAt_iff (List.mem_zipIdx_iff_getElem?.mp member)
  unfold reportedLine
  -- A line is reported as a match if it is one, and as a line around one if at all.
  by_cases hit : entry.1.hit = true
  · rw [if_pos hit, if_pos (there.mpr hit)]
    rfl
  · rw [if_neg hit, if_neg fun so => hit (there.mp so)]
    split
    · rfl
    · split <;> rfl

/-- The given lines are those near a match. -/
theorem mem_reported {entry : SearchContextLine} :
    entry ∈ (reported n lines).map SinkLine.given ↔
      ∃ index line, lines[index]? = some line ∧ HitNear n lines index ∧
        entry = ContextSink.contextLine (some (index + 1)) line.text := by
  rw [List.mem_map]
  constructor
  · rintro ⟨event, member, rfl⟩
    -- What is given is given for some line of the file, which is near a match.
    obtain ⟨⟨line, index⟩, there, reports⟩ := List.mem_filterMap.mp member
    obtain ⟨near, given⟩ := reportedLine_given reports
    exact ⟨index, line, List.mk_mem_zipIdx_iff_getElem?.mp there, near, given⟩
  · rintro ⟨index, line, there, near, rfl⟩
    obtain ⟨event, reports⟩ := @reportedLine_near n lines line index near
    exact ⟨event, List.mem_filterMap.mpr ⟨(line, index),
      List.mk_mem_zipIdx_iff_getElem?.mpr there, reports⟩, (reportedLine_given reports).2⟩

/-- The lines from an index on are given in order. -/
theorem reportedFrom_sorted (index : Nat) (rest : List FileLine) :
    (((reportedFrom n lines index rest).map SinkLine.given).map
      SearchContextLine.lineNumber).Pairwise (· < ·) ∧
      ∀ number ∈ ((reportedFrom n lines index rest).map SinkLine.given).map
        SearchContextLine.lineNumber, index < number := by
  induction rest generalizing index with
  | nil => exact ⟨.nil, fun number member => by cases member⟩
  | cons first rest ih =>
    obtain ⟨sorted, above⟩ := ih (index + 1)
    rw [reportedFrom_cons]
    cases reports : reportedLine n lines first index with
    | none => exact ⟨sorted, fun number member => Nat.lt_of_succ_lt (above number member)⟩
    | some event =>
      -- The first line has the number next to the index, and the others have greater ones.
      have own : event.given.lineNumber = index + 1 := by rw [(reportedLine_given reports).2]; rfl
      simp only [Option.toList_some, List.singleton_append, List.map_cons, own,
        List.pairwise_cons, List.forall_mem_cons]
      exact ⟨⟨above, sorted⟩, Nat.lt_succ_self index,
        fun number member => Nat.lt_of_succ_lt (above number member)⟩

/-- The hits of a file are its matches, and their lines are those near a match, each of them once. -/
structure Attached (n : Nat) (path : RelPath) (lines : List FileLine) (hits : List SearchHit) :
    Prop where
  own : hits.map (fun hit => (hit.path, hit.own)) = (matching lines).map fun line => (path, line)
  given : ∀ entry, entry ∈ hits.flatMap SearchHit.lines ↔
    ∃ index line, lines[index]? = some line ∧ HitNear n lines index ∧
      entry = ContextSink.contextLine (some (index + 1)) line.text
  once : ((hits.flatMap SearchHit.lines).map SearchContextLine.lineNumber).Nodup

/-- If a file is reported as documented, so are the lines of its hits. -/
theorem attached_parts (n : Nat) (path : RelPath) (lines : List FileLine) :
    Attached n path lines
      ((ContextSink.parts path [] (reported n lines)).map HitParts.whole) := by
  have whole : lines.drop 0 = lines := rfl
  -- Nothing waits at the start of a file, and nothing there is behind a match.
  have perm := ContextSink.parts_lines path (@reportedFrom_fulfilled n lines 0 lines whole) (.inl rfl)
  rw [@behind_reportedFrom n lines 0 lines whole (by simp), List.nil_append, List.nil_append] at perm
  refine ⟨?_, ?_, ?_⟩
  · rw [List.map_map, ← @reported_matching n lines, List.map_map]
    exact ContextSink.parts_own path [] (reported n lines)
  · intro entry
    rw [List.flatMap_map, ← mem_reported]
    exact perm.mem_iff
  · rw [List.flatMap_map]
    exact (perm.map SearchContextLine.lineNumber).nodup_iff.mpr
      ((@reportedFrom_sorted n lines 0 lines).1.imp Nat.ne_of_lt)

end

namespace SearchTools

variable {Content Matcher Overrides Walker : Type}
  {tools : SearchTools Content Matcher Overrides Walker} {disk : Disk Content} {root : AbsPath}
  {params : SearchGrepParams}

/-- The lines of a file, if it is still there. -/
def fileLines (lines : Content → List FileLine) (disk : Disk Content) (root : AbsPath)
    (path : RelPath) : List FileLine :=
  match disk (root ++ path) with
  | none => []
  | some content => lines content

/--
If the searcher reports the files with so many lines around each match, and there are fewer matches
than the limit, a search gives every match of every file in order, and with the matches of each file
the lines of that file near a match, each of them once.
-/
theorem produces_attached {n : Nat} {lines : Content → List FileLine}
    {walk : SearchWalk Matcher Walker} {files : List RelPath}
    (documented : ∀ content, tools.report walk.matcher params.contextLines content =
      reported n (lines content))
    (begun : tools.begin root params = .ok walk) (walked : tools.Walked disk walk.walker files)
    (few : (files.flatMap fun file => matching (fileLines lines disk root file)).length <
      params.maxHits) :
    ∃ hits : RelPath → List SearchHit,
      tools.Produces disk root params { hits := files.flatMap hits, truncated := false } ∧
        ∀ file, Attached n file (fileLines lines disk root file) (hits file) := by
  have attached (file : RelPath) : Attached n file (fileLines lines disk root file)
      ((tools.parts disk root params walk.matcher file).map HitParts.whole) := by
    unfold fileLines SearchTools.parts
    cases disk (root ++ file) with
    | none => exact attached_parts n file []
    | some content =>
      simp only [documented]
      exact attached_parts n file (lines content)
  -- A file has as many hits as matching lines, so the limit is not reached.
  have as_many (file : RelPath) : (tools.parts disk root params walk.matcher file).length =
      (matching (fileLines lines disk root file)).length := by
    have own := congrArg List.length (attached file).own
    simpa using own
  have fewer : (files.flatMap (tools.parts disk root params walk.matcher)).length <
      params.maxHits := by
    simpa only [List.length_flatMap, as_many] using few
  refine ⟨fun file => (tools.parts disk root params walk.matcher file).map HitParts.whole, ?_,
    attached⟩
  have produced := produces_firstHits begun walked (Nat.zero_lt_of_lt few)
  rw [firstHits_few fewer, decide_eq_false (Nat.not_le.mpr fewer), List.map_flatMap] at produced
  exact produced

/-- A file of text, of which the lines with the pattern in them match. -/
def textLines (pattern : List Char) (content : List (List Char)) : List FileLine :=
  content.map fun text => { text, hit := Text.contains pattern text }

/-- A searcher for texts, over a project whose files are listed. -/
def textTools (files : List RelPath) :
    SearchTools (List (List Char)) (List Char) Unit (List DirEntry) where
  compile _ pattern := .ok pattern.toList
  addGlob _ _ := .ok ()
  walk _ _ := files.map fun path => { path, isFile := true }
  next _ walker :=
    match walker with
    | [] => none
    | entry :: rest => some (some entry, rest)
  report pattern n content := reported n (textLines pattern content)

/-- Its walker yields the files of its list. -/
theorem textTools_walked (files rest : List RelPath) (disk : Disk (List (List Char))) :
    (textTools files).Walked disk (rest.map fun path => { path, isFile := true }) rest := by
  -- The walker takes the entries of its list one by one, and all of them are files.
  induction rest with
  | nil => exact .ended rfl
  | cons path rest ih => exact @Walked.file _ _ _ _ _ _ _ _ rest { path, isFile := true } rfl rfl ih

/-- A project with two files of text. -/
def twoTexts : Disk (List (List Char)) := fun path =>
  if path = ["p", "a"] then some ["one".toList, "two".toList, "one".toList, "three".toList]
  else if path = ["p", "b"] then some ["two".toList, "one".toList]
  else none

/-- A request for a word with the lines next to it. -/
def nextToOne : SearchGrepParams where
  pattern := "one"
  path := none
  glob := none
  maxResults := none
  caseInsensitive := false
  context := 1

/-- A line between two matches is given once, and no line of one file with a match of the other. -/
theorem produces_attached_two_texts :
    ∃ hits : RelPath → List SearchHit,
      (textTools [["a"], ["b"]]).Produces twoTexts ["p"] nextToOne
          { hits := [["a"], ["b"]].flatMap hits, truncated := false } ∧
        ∀ file, Attached 1 file
          (fileLines (textLines "one".toList) twoTexts ["p"] file) (hits file) :=
  produces_attached (fun _ => rfl) rfl (textTools_walked _ _ _) (by decide)

end SearchTools

end McpCli
