import McpCli.Daemon.Patch
import McpCli.Text.Cut

/-! A patch taken hunk by hunk: when it fits the original, and what it makes of it. -/

namespace McpCli

open Text

/-- A hunk of a patch: its header, and the lines behind it that are applied. -/
structure PatchHunk where
  header : List Char
  body : List (List Char)

/-- The line goes on with a hunk, which a hunk header or a file header would end. -/
def inBody (line : List Char) : Bool :=
  !(startsWith line "@@ " || startsWith line "--- " || startsWith line "+++ ")

/-- The hunks of a patch. -/
def hunksOf : List (List Char) → List PatchHunk
  | [] => []
  | line :: rest =>
    if startsWith line "@@ " then { header := line, body := rest.takeWhile inBody } :: hunksOf rest
    else hunksOf rest

/-- The remark that the line in front of it has no end. -/
def isRemark (line : List Char) : Bool := startsWith line "\\ No newline at end of file"

/-- What a line of a hunk is in the old text. -/
def oldSide : List Char → Option (List Char)
  | [] => none
  | tag :: content => if tag = ' ' ∨ tag = '-' then some content else none

/-- What a line of a hunk is in the new text. -/
def newSide : List Char → Option (List Char)
  | [] => none
  | tag :: content => if tag = ' ' ∨ tag = '+' then some content else none

/-- The line has one of the tags of a hunk. -/
def isTagged (line : List Char) : Bool :=
  line.head?.any fun tag => tag = ' ' || tag = '-' || tag = '+'

/-- The line begins with a character of more than one byte. -/
def isWide (line : List Char) : Bool := line.head?.any fun tag => tag.utf8Size ≠ 1

namespace PatchHunk

/-- How many lines of the original stand in front of the hunk. -/
def start (hunk : PatchHunk) : Nat :=
  match parseHunkHeader hunk.header with
  | .ok (oldStart, _) => oldStart - 1
  | .error _ => 0

/-- The lines of the hunk in the old text. -/
def old (hunk : PatchHunk) : List (List Char) := hunk.body.filterMap oldSide

/-- The lines of the hunk in the new text. -/
def new (hunk : PatchHunk) : List (List Char) := hunk.body.filterMap newSide

/-- The hunk can be read, and its old lines are the ones that stand at its place. -/
structure FitsAt (hunk : PatchHunk) (lines : List (List Char)) (reached : Nat) : Prop where
  header : ∃ range, parseHunkHeader hunk.header = .ok range
  behind : reached ≤ hunk.start
  inside : hunk.start ≤ lines.length
  tagged : ∀ line ∈ hunk.body, isRemark line = true ∨ isTagged line = true
  same : hunk.old <+: lines.drop hunk.start

end PatchHunk

/-- The hunks fit one behind the other. -/
def Fits (lines : List (List Char)) : (reached : Nat) → List PatchHunk → Prop
  | _, [] => True
  | reached, hunk :: rest =>
    hunk.FitsAt lines reached ∧ Fits lines (hunk.start + hunk.old.length) rest

/-- What the original is replaced by, from a line on. -/
def pieces (lines : List (List Char)) : (reached : Nat) → List PatchHunk → List (List Char)
  | reached, [] => lines.drop reached
  | reached, hunk :: rest =>
    (lines.take hunk.start).drop reached ++
      (hunk.new ++ pieces lines (hunk.start + hunk.old.length) rest)

/-- The inner loop, on the body of one hunk. -/
def walkBody (lines : List (List Char)) :
    List (List Char) → PatchState → Except HandlerFault PatchState
  | [], st => .ok st
  | line :: rest, st =>
    if isRemark line then walkBody lines rest st
    else
      match applyHunkLine lines line st with
      | .error fault => .error fault
      | .ok st => walkBody lines rest st

/-- One pass of the outer loop that finds a hunk. -/
def walkHunk (lines : List (List Char)) (hunk : PatchHunk) (st : PatchState) :
    Except HandlerFault PatchState :=
  match enterHunk lines hunk.header st with
  | .error fault => .error fault
  | .ok st => walkBody lines hunk.body st

/-- The outer loop, on the hunks. -/
def walkHunks (lines : List (List Char)) :
    List PatchHunk → PatchState → Except HandlerFault PatchState
  | [], st => .ok st
  | hunk :: rest, st =>
    match walkHunk lines hunk st with
    | .error fault => .error fault
    | .ok st => walkHunks lines rest st

/-- Going through the lines of a patch is going through its hunks. -/
theorem applyPatchLines_eq (lines patch : List (List Char)) (st : PatchState) :
    applyPatchLines lines false patch st = walkHunks lines (hunksOf patch) st ∧
      applyPatchLines lines true patch st =
        match walkBody lines (patch.takeWhile inBody) st with
        | .error fault => .error fault
        | .ok st => walkHunks lines (hunksOf patch) st := by
  -- In the inner loop the lines of the body come first, and then the hunks behind it.
  induction patch generalizing st with
  | nil => exact ⟨rfl, rfl⟩
  | cons line rest ih =>
    by_cases header : startsWith line "@@ " = true
    · -- Either loop enters the hunk, and its body is what the inner loop goes on with.
      have outside : inBody line = false := by simp [inBody, header]
      have entered : walkHunks lines (hunksOf (line :: rest)) st =
          match enterHunk lines line st with
          | .error fault => .error fault
          | .ok st => applyPatchLines lines true rest st := by
        rw [hunksOf, if_pos header, walkHunks, walkHunk]
        cases enterHunk lines line st with
        | error fault => rfl
        | ok next => exact (ih next).2.symm
      rw [entered, List.takeWhile_cons_of_neg (by simp [outside])]
      refine ⟨?_, ?_⟩
      · exact if_pos header
      · rw [applyPatchLines, if_pos header, walkBody]
        exact entered.symm
    · have passed : hunksOf (line :: rest) = hunksOf rest := by rw [hunksOf, if_neg header]
      refine ⟨?_, ?_⟩
      · rw [passed, applyPatchLines, if_neg header, if_pos rfl]
        exact (ih st).1
      · rw [passed, applyPatchLines, if_neg header, if_neg (by decide)]
        by_cases file : startsWith line "--- " = true ∨ startsWith line "+++ " = true
        · have outside : inBody line = false := by
            rcases file with file | file <;> simp [inBody, file]
          rw [if_pos file, List.takeWhile_cons_of_neg (by simp [outside])]
          exact (ih st).1
        · have inside : inBody line = true := by
            rw [not_or] at file
            simp [inBody, header, file]
          rw [if_neg file, List.takeWhile_cons_of_pos inside, walkBody]
          by_cases remark : isRemark line = true
          · have noted : startsWith line "\\ No newline at end of file" = true := remark
            rw [if_pos remark, if_pos noted]
            exact (ih st).2
          · have unnoted : ¬ startsWith line "\\ No newline at end of file" = true := remark
            rw [if_neg remark, if_neg unnoted]
            cases applyHunkLine lines line st with
            | error fault => rfl
            | ok next => exact (ih next).2

/-- A list is one list behind another in a third exactly if both stand there one after the other. -/
theorem append_isPrefix_drop {α : Type} {first second whole : List α} {start : Nat} :
    first ++ second <+: whole.drop start ↔
      first <+: whole.drop start ∧ second <+: whole.drop (start + first.length) := by
  -- The second list is found where the first one ends.
  constructor
  · intro both
    obtain ⟨rest, same⟩ := both
    refine ⟨⟨second ++ rest, by rw [← same, List.append_assoc]⟩, rest, ?_⟩
    rw [← List.drop_drop, ← same, List.append_assoc, List.drop_left]
  · intro each
    obtain ⟨⟨rest, same⟩, rest', same'⟩ := each
    rw [← List.drop_drop, ← same, List.drop_left] at same'
    exact ⟨rest', by rw [← same, ← same', List.append_assoc]⟩

/-- What the first element gives comes in front of what the others give. -/
theorem filterMap_cons_eq {α β : Type} (f : α → Option β) (first : α) (rest : List α) :
    (first :: rest).filterMap f = (f first).toList ++ rest.filterMap f := by
  cases given : f first with
  | none => rw [List.filterMap_cons_none given, Option.toList_none, List.nil_append]
  | some value => rw [List.filterMap_cons_some given, Option.toList_some, List.singleton_append]

/-- A line stands at a place if it is the one that is found there. -/
theorem singleton_isPrefix_drop {α : Type} {line : α} {whole : List α} {start : Nat} :
    [line] <+: whole.drop start ↔ whole[start]? = some line := by
  rw [← List.head?_drop]
  -- One line in front is the head of what is left.
  constructor
  · intro at_
    obtain ⟨rest, same⟩ := at_
    rw [← same]
    rfl
  · intro found
    obtain ⟨rest, same⟩ := List.head?_eq_some_iff.mp found
    exact ⟨rest, same.symm⟩

/-- The run after a line of a hunk: its old side is passed, and its new side written. -/
def PatchState.over (st : PatchState) (olds news : List (List Char)) : PatchState :=
  { st with
    output := st.output ++ news.flatten
    originalIdx := st.originalIdx + olds.length }

/-- Going over lines in two parts is going over all of them. -/
theorem PatchState.over_over (st : PatchState) (olds olds' news news' : List (List Char)) :
    (st.over olds news).over olds' news' = st.over (olds ++ olds') (news ++ news') := by
  simp [PatchState.over, Nat.add_assoc]

/-- A line is applied exactly when it has a tag and its old side stands where the walk is. -/
theorem applyHunkLine_eq_ok {lines : List (List Char)} {line : List Char} {st after : PatchState} :
    applyHunkLine lines line st = .ok after ↔
      isTagged line = true ∧ (oldSide line).toList <+: lines.drop st.originalIdx ∧
        after = st.over (oldSide line).toList (newSide line).toList := by
  -- One case for each tag; no other character is one.
  cases line with
  | nil => simp [applyHunkLine, isTagged]
  | cons tag content =>
    by_cases wide : tag.utf8Size = 1
    · by_cases blank : tag = ' '
      · subst blank
        simp only [applyHunkLine, oldSide, newSide, isTagged]
        cases found : lines[st.originalIdx]? with
        | none => simp [singleton_isPrefix_drop, found, wide]
        | some current =>
          by_cases same : current = content
          · simp [singleton_isPrefix_drop, found, same, PatchState.over, wide, eq_comm]
          · simp [singleton_isPrefix_drop, found, same, wide]
      · by_cases minus : tag = '-'
        · subst minus
          simp only [applyHunkLine, oldSide, newSide, isTagged]
          cases found : lines[st.originalIdx]? with
          | none => simp [singleton_isPrefix_drop, found, wide]
          | some current =>
            by_cases same : current = content
            · simp [singleton_isPrefix_drop, found, same, PatchState.over, wide, eq_comm]
            · simp [singleton_isPrefix_drop, found, same, wide]
        · by_cases plus : tag = '+'
          · subst plus
            simp [applyHunkLine, oldSide, newSide, isTagged, wide, PatchState.over, eq_comm]
          · simp [applyHunkLine, isTagged, wide, blank, minus, plus]
    · have untagged : isTagged (tag :: content) = false := by
        simp only [isTagged, List.head?_cons, Option.any_some, Bool.or_eq_false_iff,
          decide_eq_false_iff_not]
        refine ⟨⟨?_, ?_⟩, ?_⟩ <;>
        · intro same
          subst same
          exact absurd rfl wide
      simp [applyHunkLine, wide, untagged]

/-- Applying a line panics exactly when it cannot be split behind its first byte. -/
theorem applyHunkLine_eq_panic {lines : List (List Char)} {line : List Char} {st : PatchState} :
    applyHunkLine lines line st = .error .panic ↔ line = [] ∨ isWide line = true := by
  -- All other ways out are a success or an error of the patch.
  cases line with
  | nil => simp [applyHunkLine]
  | cons tag content =>
    by_cases wide : tag.utf8Size = 1
    · simp only [applyHunkLine, isWide, wide, List.head?_cons, Option.any_some]
      simp only [ne_eq, not_true_eq_false, if_false]
      repeat' split
      all_goals simp
    · simp [applyHunkLine, isWide, wide]

/-- A remark belongs to neither side. -/
theorem sides_remark {line : List Char} (remark : isRemark line = true) :
    oldSide line = none ∧ newSide line = none ∧ isWide line = false := by
  -- It begins with a backslash, which is no tag.
  obtain ⟨rest, rfl⟩ := List.isPrefixOf_iff_prefix.mp remark
  exact ⟨rfl, rfl, rfl⟩

/-- A body is applied exactly when its lines have tags and its old side stands there. -/
theorem walkBody_eq_ok {lines body : List (List Char)} {st after : PatchState} :
    walkBody lines body st = .ok after ↔
      (∀ line ∈ body, isRemark line = true ∨ isTagged line = true) ∧
        body.filterMap oldSide <+: lines.drop st.originalIdx ∧
        after = st.over (body.filterMap oldSide) (body.filterMap newSide) := by
  -- Each line is applied where the ones in front of it have led to.
  induction body generalizing st with
  | nil =>
    rw [walkBody, Except.ok.injEq]
    simp [PatchState.over, @eq_comm _ st]
  | cons line rest ih =>
    by_cases remark : isRemark line = true
    · obtain ⟨noOld, noNew, _⟩ := sides_remark remark
      rw [walkBody, if_pos remark, ih, List.filterMap_cons_none noOld,
        List.filterMap_cons_none noNew, List.forall_mem_cons]
      simp [remark]
    · rw [walkBody, if_neg remark, filterMap_cons_eq, filterMap_cons_eq, append_isPrefix_drop,
        List.forall_mem_cons]
      cases applied : applyHunkLine lines line st with
      | error fault =>
        -- The line does not apply, so it has no tag or its old side is not there.
        constructor
        · intro went
          cases went
        · intro fits
          obtain ⟨⟨tagged, _⟩, ⟨there, _⟩, _⟩ := fits
          have applies := applyHunkLine_eq_ok.mpr ⟨tagged.resolve_left remark, there, rfl⟩
          rw [applied] at applies
          cases applies
      | ok next =>
        obtain ⟨tagged, there, rfl⟩ := applyHunkLine_eq_ok.mp applied
        simp only
        rw [ih, PatchState.over_over]
        simp [tagged, there, PatchState.over]

/-- A body panics at its first wide line, when what is in front of it can be applied. -/
theorem walkBody_eq_panic {lines body : List (List Char)} (nonempty : ∀ line ∈ body, line ≠ [])
    {st : PatchState} :
    walkBody lines body st = .error .panic ↔
      ∃ front line back after, body = front ++ line :: back ∧ isWide line = true ∧
        walkBody lines front st = .ok after := by
  -- Either the first line is the one, or it is applied and the others are looked at.
  induction body generalizing st with
  | nil => simp [walkBody]
  | cons first rest ih =>
    have others : ∀ line ∈ rest, line ≠ [] := fun line mem =>
      nonempty line (List.mem_cons_of_mem _ mem)
    constructor
    · intro panicked
      rw [walkBody] at panicked
      by_cases remark : isRemark first = true
      · rw [if_pos remark, ih others] at panicked
        obtain ⟨front, line, back, after, rfl, wide, went⟩ := panicked
        exact ⟨first :: front, line, back, after, rfl, wide, by rw [walkBody, if_pos remark, went]⟩
      · rw [if_neg remark] at panicked
        cases applied : applyHunkLine lines first st with
        | error fault =>
          rw [applied] at panicked
          cases panicked
          have wide := (applyHunkLine_eq_panic.mp applied).resolve_left
            (nonempty first List.mem_cons_self)
          exact ⟨[], first, rest, st, rfl, wide, rfl⟩
        | ok next =>
          rw [applied] at panicked
          obtain ⟨front, line, back, after, rfl, wide, went⟩ := (ih others).mp panicked
          exact ⟨first :: front, line, back, after, rfl, wide,
            by rw [walkBody, if_neg remark, applied]; exact went⟩
    · intro reached
      obtain ⟨front, line, back, after, parts, wide, went⟩ := reached
      cases front with
      | nil =>
        cases parts
        have unremarked : ¬ isRemark first = true := by
          intro remark
          rw [(sides_remark remark).2.2] at wide
          cases wide
        rw [walkBody, if_neg unremarked, applyHunkLine_eq_panic.mpr (.inr wide)]
      | cons head front =>
        cases parts
        rw [walkBody] at went ⊢
        by_cases remark : isRemark first = true
        · rw [if_pos remark] at went ⊢
          exact (ih others).mpr ⟨front, line, back, after, rfl, wide, went⟩
        · rw [if_neg remark] at went ⊢
          cases applied : applyHunkLine lines first st with
          | error fault =>
            rw [applied] at went
            cases went
          | ok next =>
            rw [applied] at went
            exact (ih others).mpr ⟨front, line, back, after, rfl, wide, went⟩

/-- A hunk is entered exactly when its header can be read and it starts inside what is left. -/
theorem enterHunk_eq_ok {lines : List (List Char)} {hunk : PatchHunk} {st after : PatchState} :
    enterHunk lines hunk.header st = .ok after ↔
      (∃ range, parseHunkHeader hunk.header = .ok range) ∧ st.originalIdx ≤ hunk.start ∧
        hunk.start ≤ lines.length ∧
        after =
          { output := st.output ++ ((lines.take hunk.start).drop st.originalIdx).flatten
            originalIdx := hunk.start, sawHunk := true } := by
  unfold enterHunk
  cases parsed : parseHunkHeader hunk.header with
  | error error => simp
  | ok range =>
    obtain ⟨oldStart, count⟩ := range
    have start : oldStart - 1 = hunk.start := by rw [PatchHunk.start, parsed]
    simp only [start]
    -- The test in front of the slice is the one that the slice itself makes.
    by_cases outside : hunk.start < st.originalIdx ∨ lines.length < hunk.start
    · rw [if_pos outside]
      constructor
      · intro went
        cases went
      · intro fits
        omega
    · have inside : st.originalIdx ≤ hunk.start ∧ hunk.start ≤ lines.length := by omega
      rw [if_neg outside, sliceLines, if_pos inside]
      simp [inside, @eq_comm _ after]

/-- Entering a hunk does not panic: its slice is always in order and inside. -/
theorem enterHunk_ne_panic (lines : List (List Char)) (header : List Char) (st : PatchState) :
    enterHunk lines header st ≠ .error .panic := by
  -- The test in front of the slice is the one that the slice itself makes.
  intro panicked
  unfold enterHunk at panicked
  cases parsed : parseHunkHeader header with
  | error error =>
    rw [parsed] at panicked
    cases panicked
  | ok range =>
    simp only [parsed] at panicked
    split at panicked
    · cases panicked
    · rename_i inside
      rw [sliceLines, if_pos (by omega)] at panicked
      cases panicked

/-- A hunk that fits is applied, and nothing else is. -/
theorem walkHunk_eq_ok {lines : List (List Char)} {hunk : PatchHunk} {st after : PatchState} :
    walkHunk lines hunk st = .ok after ↔
      hunk.FitsAt lines st.originalIdx ∧
        after =
          { output := st.output ++ ((lines.take hunk.start).drop st.originalIdx ++ hunk.new).flatten
            originalIdx := hunk.start + hunk.old.length, sawHunk := true } := by
  -- The header leads to the place of the hunk, and the body is compared from there.
  unfold walkHunk
  cases entered : enterHunk lines hunk.header st with
  | error fault =>
    constructor
    · intro went
      cases went
    · intro fits
      obtain ⟨⟨header, behind, inside, _, _⟩, _⟩ := fits
      have enters := enterHunk_eq_ok.mpr ⟨header, behind, inside, rfl⟩
      rw [entered] at enters
      cases enters
  | ok opened =>
    obtain ⟨header, behind, inside, rfl⟩ := enterHunk_eq_ok.mp entered
    simp only [walkBody_eq_ok, PatchState.over, List.append_assoc, ← List.flatten_append]
    constructor
    · intro went
      obtain ⟨tagged, same, rfl⟩ := went
      exact ⟨⟨header, behind, inside, tagged, same⟩, rfl⟩
    · intro fits
      obtain ⟨⟨_, _, _, tagged, same⟩, rfl⟩ := fits
      exact ⟨tagged, same, rfl⟩

/-- The hunk ends inside the original. -/
theorem PatchHunk.FitsAt.ends {hunk : PatchHunk} {lines : List (List Char)} {reached : Nat}
    (fits : hunk.FitsAt lines reached) : hunk.start + hunk.old.length ≤ lines.length := by
  have length := fits.same.length_le
  have inside := fits.inside
  rw [List.length_drop] at length
  omega

/-- Hunks that fit are applied. -/
theorem walkHunks_of_fits {lines : List (List Char)} {hunks : List PatchHunk} {st : PatchState}
    (fits : Fits lines st.originalIdx hunks) : ∃ after, walkHunks lines hunks st = .ok after := by
  -- Each hunk is applied where the one in front of it ends.
  induction hunks generalizing st with
  | nil => exact ⟨st, rfl⟩
  | cons hunk rest ih =>
    obtain ⟨first, others⟩ := fits
    rw [walkHunks, walkHunk_eq_ok.mpr ⟨first, rfl⟩]
    exact ih others

/-- What has been applied did fit, and what is written are the pieces up to where the walk is. -/
theorem walkHunks_spec {lines : List (List Char)} {hunks : List PatchHunk} {st after : PatchState}
    (inside : st.originalIdx ≤ lines.length) (went : walkHunks lines hunks st = .ok after) :
    Fits lines st.originalIdx hunks ∧ after.originalIdx ≤ lines.length ∧
      after.sawHunk = (st.sawHunk || !hunks.isEmpty) ∧
      after.output ++ (lines.drop after.originalIdx).flatten =
        st.output ++ (pieces lines st.originalIdx hunks).flatten := by
  -- The lines that are left behind the last hunk are the last pieces.
  induction hunks generalizing st with
  | nil =>
    cases went
    exact ⟨trivial, inside, by simp, rfl⟩
  | cons hunk rest ih =>
    rw [walkHunks] at went
    cases applied : walkHunk lines hunk st with
    | error fault =>
      rw [applied] at went
      cases went
    | ok next =>
      rw [applied] at went
      obtain ⟨first, rfl⟩ := walkHunk_eq_ok.mp applied
      obtain ⟨others, bound, saw, written⟩ := ih first.ends went
      refine ⟨⟨first, others⟩, bound, ?_, ?_⟩
      · rw [saw]
        simp
      · rw [written, pieces]
        simp

/-- The lines of a hunk are lines of the patch. -/
theorem mem_of_mem_hunksOf {patch : List (List Char)} {hunk : PatchHunk}
    (member : hunk ∈ hunksOf patch) : ∀ line ∈ hunk.body, line ∈ patch := by
  -- A body is the front of the lines behind its header.
  induction patch with
  | nil => cases member
  | cons first rest ih =>
    intro line inside
    rw [hunksOf] at member
    split at member
    · rcases List.mem_cons.mp member with rfl | later
      · exact List.mem_cons_of_mem _ ((List.takeWhile_sublist _).subset inside)
      · exact List.mem_cons_of_mem _ (ih later line inside)
    · exact List.mem_cons_of_mem _ (ih member line inside)

/-- A hunk panics at a wide line, when its header and its lines in front of that fit. -/
theorem walkHunk_eq_panic {lines : List (List Char)} {hunk : PatchHunk}
    (nonempty : ∀ line ∈ hunk.body, line ≠ []) {st : PatchState} :
    walkHunk lines hunk st = .error .panic ↔
      ∃ done line left, hunk.body = done ++ line :: left ∧ isWide line = true ∧
        PatchHunk.FitsAt { hunk with body := done } lines st.originalIdx := by
  -- Entering the hunk does not panic, so its body does.
  constructor
  · intro panicked
    rw [walkHunk] at panicked
    cases entered : enterHunk lines hunk.header st with
    | error fault =>
      rw [entered] at panicked
      cases panicked
      exact absurd entered (enterHunk_ne_panic lines hunk.header st)
    | ok opened =>
      rw [entered] at panicked
      obtain ⟨done, line, left, after, parts, wide, went⟩ :=
        (walkBody_eq_panic nonempty).mp panicked
      refine ⟨done, line, left, parts, wide, ?_⟩
      -- The lines in front were applied, and so would be a hunk with no others.
      have whole : walkHunk lines { hunk with body := done } st = .ok after := by
        rw [walkHunk, entered]
        exact went
      exact (walkHunk_eq_ok.mp whole).1
  · intro reached
    obtain ⟨done, line, left, parts, wide, fits⟩ := reached
    have whole := walkHunk_eq_ok.mpr ⟨fits, rfl⟩
    rw [walkHunk] at whole ⊢
    cases entered : enterHunk lines hunk.header st with
    | error fault =>
      rw [entered] at whole
      cases whole
    | ok opened =>
      rw [entered] at whole
      exact (walkBody_eq_panic nonempty).mpr ⟨done, line, left, _, parts, wide, whole⟩

/-- The walk panics in the body of a hunk, when everything in front of the wide line fits. -/
theorem walkHunks_eq_panic {lines : List (List Char)} {hunks : List PatchHunk}
    (nonempty : ∀ hunk ∈ hunks, ∀ line ∈ hunk.body, line ≠ []) {st : PatchState} :
    walkHunks lines hunks st = .error .panic ↔
      ∃ front hunk back done line left, hunks = front ++ hunk :: back ∧
        hunk.body = done ++ line :: left ∧ isWide line = true ∧
        Fits lines st.originalIdx (front ++ [{ hunk with body := done }]) := by
  -- Either the first hunk panics, or it is applied and the others are looked at.
  induction hunks generalizing st with
  | nil => simp [walkHunks]
  | cons first rest ih =>
    have own := nonempty first List.mem_cons_self
    have others : ∀ hunk ∈ rest, ∀ line ∈ hunk.body, line ≠ [] :=
      fun hunk member => nonempty hunk (List.mem_cons_of_mem _ member)
    constructor
    · intro panicked
      rw [walkHunks] at panicked
      cases applied : walkHunk lines first st with
      | error fault =>
        rw [applied] at panicked
        cases panicked
        obtain ⟨done, line, left, parts, wide, fits⟩ := (walkHunk_eq_panic own).mp applied
        exact ⟨[], first, rest, done, line, left, rfl, parts, wide, fits, trivial⟩
      | ok next =>
        rw [applied] at panicked
        obtain ⟨fits, rfl⟩ := walkHunk_eq_ok.mp applied
        obtain ⟨front, hunk, back, done, line, left, rfl, parts, wide, others⟩ :=
          (ih others).mp panicked
        exact ⟨first :: front, hunk, back, done, line, left, rfl, parts, wide, fits, others⟩
    · intro reached
      obtain ⟨front, hunk, back, done, line, left, parts, body, wide, fits⟩ := reached
      cases front with
      | nil =>
        cases parts
        rw [walkHunks, (walkHunk_eq_panic own).mpr ⟨done, line, left, body, wide, fits.1⟩]
      | cons head front =>
        cases parts
        obtain ⟨here, later⟩ := fits
        rw [walkHunks, walkHunk_eq_ok.mpr ⟨here, rfl⟩]
        exact (ih others).mpr ⟨front, hunk, back, done, line, left, rfl, body, wide, later⟩

section
variable {original patch : List Char}

/-- The hunks of a patch. -/
def patchHunks (patch : List Char) : List PatchHunk := hunksOf (splitInclusive '\n' patch)

/-- A patch is applied exactly when it has a hunk and its hunks fit, and then gives the pieces. -/
theorem applyUnifiedPatch_eq_ok {out : List Char} :
    applyUnifiedPatch original patch = .ok out ↔
      patchHunks patch ≠ [] ∧ Fits (splitInclusive '\n' original) 0 (patchHunks patch) ∧
        out = (pieces (splitInclusive '\n' original) 0 (patchHunks patch)).flatten := by
  unfold applyUnifiedPatch
  simp only
  rw [(applyPatchLines_eq _ _ _).1]
  cases walked : walkHunks (splitInclusive '\n' original) (hunksOf (splitInclusive '\n' patch))
      { output := [], originalIdx := 0, sawHunk := false } with
  | error fault =>
    constructor
    · intro went
      cases went
    · intro applied
      obtain ⟨after, went⟩ := @walkHunks_of_fits (splitInclusive '\n' original) (patchHunks patch)
        { output := [], originalIdx := 0, sawHunk := false } applied.2.1
      rw [patchHunks, walked] at went
      cases went
  | ok after =>
    -- The lines behind the last hunk are sliced off the end, which is always possible.
    obtain ⟨fits, inside, saw, written⟩ := walkHunks_spec (Nat.zero_le _) walked
    have sliced : sliceLines (splitInclusive '\n' original) after.originalIdx
        (splitInclusive '\n' original).length =
        some ((splitInclusive '\n' original).drop after.originalIdx) := by
      rw [sliceLines, if_pos ⟨inside, Nat.le_refl _⟩, List.take_length]
    rw [List.nil_append] at written
    simp only [sliced, written]
    cases hunks : hunksOf (splitInclusive '\n' patch) with
    | nil => simp [saw, hunks, patchHunks]
    | cons first rest =>
      rw [hunks] at fits saw
      simp [saw, fits, hunks, patchHunks, @eq_comm _ out]

/-- Applying a patch panics exactly at a wide line of a hunk with nothing refused in front of it. -/
theorem applyUnifiedPatch_eq_panic :
    applyUnifiedPatch original patch = .error .panic ↔
      ∃ front hunk back done line left, patchHunks patch = front ++ hunk :: back ∧
        hunk.body = done ++ line :: left ∧ isWide line = true ∧
        Fits (splitInclusive '\n' original) 0 (front ++ [{ hunk with body := done }]) := by
  have nonempty : ∀ hunk ∈ patchHunks patch, ∀ line ∈ hunk.body, line ≠ [] :=
    fun hunk member line inside =>
      (splitInclusive_spec '\n' patch).1.ne_nil (mem_of_mem_hunksOf member line inside)
  rw [← @walkHunks_eq_panic _ _ nonempty { output := [], originalIdx := 0, sawHunk := false }]
  unfold applyUnifiedPatch
  simp only
  rw [(applyPatchLines_eq _ _ _).1, patchHunks]
  cases walked : walkHunks (splitInclusive '\n' original) (hunksOf (splitInclusive '\n' patch))
      { output := [], originalIdx := 0, sawHunk := false } with
  | error fault => simp
  | ok after =>
    -- A walk that came to its end leaves nothing to panic at.
    have inside := (walkHunks_spec (Nat.zero_le _) walked).2.1
    simp only [sliceLines, inside, Nat.le_refl, and_self, if_true]
    split <;> simp

end

end McpCli
