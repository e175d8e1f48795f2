import McpCli.Proofs.Daemon.Occurrences
import McpCli.Proofs.Daemon.SearchContext

/-! What a limit on a listing leaves of it, and what the listing says of that. -/

namespace McpCli

/-- Where more or fewer entries are there than the limit, the flag says whether some are missing. -/
structure Flagged (max total : Nat) (truncated : Bool) : Prop where
  more : max < total → truncated = true
  fewer : total < max → truncated = false

/-- A flag that is set from the limit on is right except at the limit. -/
theorem Flagged.reached (max total : Nat) : Flagged max total (decide (max ≤ total)) := by
  refine ⟨fun more => ?_, fun fewer => ?_⟩
  · exact decide_eq_true (Nat.le_of_lt more)
  · exact decide_eq_false (Nat.not_le.mpr fewer)

/-- The files among what the walker yields. -/
def yieldedFiles (yielded : List (Option DirEntry)) : List RelPath :=
  yielded.filterMap fun e => e.bind fun entry => if entry.isFile then some entry.path else none

/-- A scan has the files up to the limit, and its flag says whether there are more. -/
theorem Walk.entries_eq {walk : Walk} (room : walk.files.length ≤ walk.max)
    (yielded : List (Option DirEntry)) :
    walk.entries yielded =
      { version := walk.version
        files := (walk.files ++ yieldedFiles yielded).take walk.max
        truncated := decide (walk.max < walk.files.length + (yieldedFiles yielded).length) } := by
  -- The limit is only looked at when there is one more file.
  induction yielded generalizing walk with
  | nil => simp [Walk.entries, Walk.finish, yieldedFiles, List.take_of_length_le room, room]
  | cons first rest ih =>
    cases first with
    | none => exact ih room
    | some entry =>
      by_cases regular : entry.isFile = true
      · -- A file is one more, and with a full list it sets the flag.
        have here : yieldedFiles (some entry :: rest) = entry.path :: yieldedFiles rest := by
          simp [yieldedFiles, regular]
        rw [Walk.entries, here]
        by_cases full : walk.max ≤ walk.files.length
        · have more : walk.max < walk.files.length + (entry.path :: yieldedFiles rest).length := by
            rw [List.length_cons]
            omega
          rw [take_append_full room full]
          simp only [Walk.entry, regular, Bool.not_true, Bool.false_eq_true, if_false, full, if_true,
            Walk.finish, more, decide_true]
        · have grown : (walk.files ++ [entry.path]).length ≤ walk.max := by
            rw [List.length_append, List.length_singleton]
            omega
          have later := @ih { walk with files := walk.files ++ [entry.path] } grown
          rw [List.append_assoc, List.length_append, Nat.add_assoc, Nat.add_comm [entry.path].length]
            at later
          simp only [Walk.entry, regular, Bool.not_true, Bool.false_eq_true, if_false, full]
          exact later
      · -- A directory is passed.
        have here : yieldedFiles (some entry :: rest) = yieldedFiles rest := by
          simp [yieldedFiles, regular]
        rw [Walk.entries, here, Walk.entry]
        simp only [regular, Bool.not_false, if_true]
        exact ih room

section

variable {column : Node → Nat} {calls : SourceCalls} {needle : String} {max : Nat}

/-- The flag of the occurrences is set from the limit on. -/
theorem collectFromFiles_truncated {files : List RelPath} {out : List CodeOccurrence}
    (room : out.length < max) {result : CodeFindOccurrencesResult}
    (same : collectFromFiles column calls needle max files out = .ok result) :
    result.truncated = decide (max ≤
      (out ++ files.flatMap (callsOccurrences column calls needle)).length) := by
  -- The loop goes on behind each file as long as there is room.
  induction files generalizing out with
  | nil =>
    rw [collectFromFiles] at same
    cases same
    simpa using room
  | cons rel rest ih =>
    rw [collectFromFiles] at same
    rw [List.flatMap_cons, ← List.append_assoc]
    cases parsed : calls.parse rel with
    | error e =>
      rw [parsed] at same
      cases same
    | ok tree =>
      rw [parsed] at same
      cases tree with
      | none =>
        rw [callsOccurrences_none parsed, List.append_nil]
        exact ih room same
      | some file =>
        have here := @collect_eq column file.source rel needle max [] (by simp) file.tree out
          (Nat.le_of_lt room)
        simp only at same
        rw [callsOccurrences_some parsed, fileOccurrences]
        split at same
        · -- The occurrences in this file reach the limit, whatever is in the others.
          rename_i full
          cases same
          rw [here, List.length_take] at full
          have reached : max ≤ (out ++ occurrencesAmong column file.source rel needle
              (file.tree.preorder [])).length := Nat.le_trans full (Nat.min_le_right _ _)
          rw [List.length_append]
          exact (decide_eq_true (Nat.le_trans reached (Nat.le_add_right _ _))).symm
        · rename_i left
          have shorter := Nat.lt_of_not_le left
          have all : collectIdentifierOccurrences column file.source rel needle max file.tree out =
              out ++ occurrencesAmong column file.source rel needle (file.tree.preorder []) := by
            rw [here, List.length_take] at shorter
            rw [here, List.take_of_length_le (by omega)]
          rw [all] at same shorter
          exact ih shorter same

/-- If all files have trees, or are of no known language, the loop comes to its end. -/
theorem collectFromFiles_ok {files : List RelPath} {out : List CodeOccurrence}
    (room : out.length ≤ max) (parsed : ∀ rel ∈ files, ∃ tree, calls.parse rel = .ok tree) :
    ∃ result, collectFromFiles column calls needle max files out = .ok result := by
  cases same : collectFromFiles column calls needle max files out with
  | ok result => exact ⟨result, rfl⟩
  | error e =>
    -- An error would be that of a file, and no file has one.
    obtain ⟨rel, mem, failed⟩ := (collectFromFiles_eq room).2 e same
    obtain ⟨tree, fine⟩ := parsed rel mem
    rw [failed] at fine
    cases fine

end

/-- All hits in some files, each with the lines in front of it and those behind it. -/
def SearchTools.allParts {Content Matcher Overrides Walker : Type}
    (tools : SearchTools Content Matcher Overrides Walker) (disk : Disk Content) (root : AbsPath)
    (params : SearchGrepParams) (matcher : Matcher) (files : List RelPath) : List HitParts :=
  files.flatMap (tools.parts disk root params matcher)

/-- All occurrences in the files that a request is about. -/
def CodeFindOccurrencesParams.all (column : Node → Nat) (calls : SourceCalls) (root : AbsPath)
    (yielded : List (Option DirEntry)) (params : CodeFindOccurrencesParams) : List CodeOccurrence :=
  (params.files root yielded).flatMap (callsOccurrences column calls params.identifier)

/-- With a limit, a request for the occurrences gets the first ones, and a flag set from it on. -/
theorem codeFindOccurrences_limit {column : Node → Nat} {calls : SourceCalls} {root : AbsPath}
    {yielded : List (Option DirEntry)} {params : CodeFindOccurrencesParams}
    (named : params.identifier ≠ "")
    (parsed : ∀ rel ∈ params.files root yielded, ∃ tree, calls.parse rel = .ok tree) {max : Nat}
    (limited : 0 < max) :
    codeFindOccurrences column calls root yielded { params with maxResults := some max } =
      .ok
        { occurrences := (params.all column calls root yielded).take max
          truncated := decide (max ≤ (params.all column calls root yielded).length) } := by
  obtain ⟨result, same⟩ := @collectFromFiles_ok column calls params.identifier max _ []
    (Nat.zero_le _) parsed
  -- The occurrences and the flag of the result are those of the loop.
  have found := (collectFromFiles_eq (Nat.zero_le max)).1 result same
  have flag := collectFromFiles_truncated limited same
  rw [List.nil_append] at found flag
  obtain ⟨occurrences, truncated⟩ := result
  simp only at found flag
  subst found flag
  rw [codeFindOccurrences, if_neg named]
  exact same

/--
A scan has the first files of all, and its flag says exactly whether there are more. A search has
the first hits of all, except that lines behind the last one may be missing, and an identifier has
its first occurrences; their flags say whether there are more, except where all of them just fit.
-/
theorem capped_listings :
    (∀ (log : ChangeLog) (yielded : List (Option DirEntry)),
      (∀ limit : Option Nat, (yieldedFiles yielded).length ≤ limit.getD (2 ^ 64 - 1) →
        fsScan log limit yielded =
          { version := log.snapshot.1, files := yieldedFiles yielded, truncated := false }) ∧
      ∀ max, (fsScan log (some max) yielded).files = (yieldedFiles yielded).take max ∧
        ((fsScan log (some max) yielded).truncated = true ↔ max < (yieldedFiles yielded).length)) ∧
    (∀ {Content Matcher Overrides Walker : Type}
      (tools : SearchTools Content Matcher Overrides Walker) (disk : Disk Content) (root : AbsPath)
      (params : SearchGrepParams) (walk : SearchWalk Matcher Walker) (files : List RelPath),
      tools.begin root params = .ok walk → tools.Walked disk walk.walker files →
      (∀ limit, (tools.allParts disk root params walk.matcher files).length < limit →
        tools.Produces disk root { params with maxResults := some limit }
          { hits := (tools.allParts disk root params walk.matcher files).map HitParts.whole
            truncated := false }) ∧
      ∀ max, 0 < max → ∃ truncated,
        tools.Produces disk root { params with maxResults := some max }
          { hits := firstHits max (tools.allParts disk root params walk.matcher files)
            truncated } ∧
        Flagged max (tools.allParts disk root params walk.matcher files).length truncated) ∧
    ∀ (column : Node → Nat) (calls : SourceCalls) (root : AbsPath)
      (yielded : List (Option DirEntry)) (params : CodeFindOccurrencesParams),
      params.identifier ≠ "" →
      (∀ rel ∈ params.files root yielded, ∃ tree, calls.parse rel = .ok tree) →
      (∀ limit, (params.all column calls root yielded).length < limit →
        codeFindOccurrences column calls root yielded { params with maxResults := some limit } =
          .ok { occurrences := params.all column calls root yielded, truncated := false }) ∧
      ∀ max, 0 < max → ∃ truncated,
        codeFindOccurrences column calls root yielded { params with maxResults := some max } =
          .ok { occurrences := (params.all column calls root yielded).take max, truncated } ∧
        Flagged max (params.all column calls root yielded).length truncated := by
  refine ⟨?_, ?_, ?_⟩
  · -- A scan looks for one more file than it may give.
    intro log yielded
    have scanned (limit : Option Nat) := @Walk.entries_eq (.start log limit) (Nat.zero_le _) yielded
    simp only [Walk.start, List.nil_append, List.length_nil, Nat.zero_add] at scanned
    constructor
    · intro limit fits
      rw [fsScan, Walk.start, scanned, List.take_of_length_le fits]
      simp only [decide_eq_false (Nat.not_lt.mpr fits)]
    · intro max
      rw [fsScan, Walk.start, scanned]
      exact ⟨rfl, decide_eq_true_iff⟩
  · -- A search stops at the limit, without the lines behind the last hit.
    intro Content Matcher Overrides Walker tools disk root params walk files begun walked
    have produced (max : Nat) (limited : 0 < max) :
        tools.Produces disk root { params with maxResults := some max }
          { hits := firstHits max (tools.allParts disk root params walk.matcher files)
            truncated := decide (max ≤
              (tools.allParts disk root params walk.matcher files).length) } :=
      @SearchTools.produces_firstHits _ _ _ _ tools disk root
        { params with maxResults := some max } walk files begun walked limited
    constructor
    · intro limit fewer
      have whole := produced limit (Nat.zero_lt_of_lt fewer)
      rw [firstHits_few fewer, decide_eq_false (Nat.not_le.mpr fewer)] at whole
      exact whole
    · intro max limited
      exact ⟨_, produced max limited, .reached _ _⟩
  · -- So does the search for an identifier.
    intro column calls root yielded params named parsed
    constructor
    · intro limit fewer
      rw [codeFindOccurrences_limit named parsed (Nat.zero_lt_of_lt fewer),
        List.take_of_length_le (Nat.le_of_lt fewer), decide_eq_false (Nat.not_le.mpr fewer)]
    · intro max limited
      exact ⟨_, codeFindOccurrences_limit named parsed limited, .reached _ _⟩

/-- A project with one file of text. -/
def oneText : Disk (List (List Char)) := fun path =>
  if path = ["p", "a"] then some ["one".toList, "two".toList, "one".toList] else none

/--
Of two hits, a search for one at most gives the first without the line behind it, and a search for
two at most says that there are more.
-/
theorem search_one_and_two :
    ∃ first second : SearchHit, first.context ≠ [] ∧
      (SearchTools.textTools [["a"]]).Produces oneText ["p"]
        { SearchTools.nextToOne with maxResults := some 3 }
        { hits := [first, second], truncated := false } ∧
      (SearchTools.textTools [["a"]]).Produces oneText ["p"]
        { SearchTools.nextToOne with maxResults := some 1 }
        { hits := [{ first with context := [] }], truncated := true } ∧
      (SearchTools.textTools [["a"]]).Produces oneText ["p"]
        { SearchTools.nextToOne with maxResults := some 2 }
        { hits := [first, second], truncated := true } := by
  refine ⟨{ path := ["a"], lineNumber := 1, line := "one".toList, context := [⟨2, "two".toList⟩] },
    { path := ["a"], lineNumber := 3, line := "one".toList, context := [] }, by simp, ?_, ?_, ?_⟩
  · exact ⟨_, 2, rfl, by decide⟩
  · exact ⟨_, 2, rfl, by decide⟩
  · exact ⟨_, 2, rfl, by decide⟩

end McpCli
