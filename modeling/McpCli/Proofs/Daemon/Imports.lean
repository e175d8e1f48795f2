import McpCli.Daemon.Imports
import McpCli.Listing.ByKey
import McpCli.Text.Numbered

/-! Statements of TypeScript in any layout, and which of them are reported. -/

namespace McpCli

open Text

/-- Some white space. -/
def Blank (text : List Char) : Prop := ∀ c ∈ text, isWhitespace c = true

instance : DecidablePred Blank := fun text =>
  decidable_of_iff (text.all isWhitespace = true) (by simp [Blank])

/-- An `import … from 'm'` or `export … from 'm'`, with its layout. -/
structure FromStatement where
  isExport : Bool
  /-- What is between the keyword and `from`, each token behind its white space. -/
  clause : List (List Char × List Char)
  beforeFrom : List Char
  beforeModule : List Char
  quote : Char
  module : List Char
  blanks : (∀ token ∈ clause, Blank token.1) ∧ Blank beforeFrom ∧ Blank beforeModule
  quoted : isQuote quote = true
  plain : quote ∉ module

namespace FromStatement

/-- The keyword that a statement begins with. -/
def keyword (s : FromStatement) : List Char :=
  if s.isExport then "export".toList else "import".toList

/-- A statement as it is written. -/
def text (s : FromStatement) : List Char :=
  s.keyword ++ s.clause.flatMap (fun token => token.1 ++ token.2) ++ s.beforeFrom ++
    "from".toList ++ s.beforeModule ++ s.quote :: s.module ++ [s.quote]

/-- The same tokens in another layout. -/
def Relaid (s t : FromStatement) : Prop :=
  s.isExport = t.isExport ∧ s.clause.map Prod.snd = t.clause.map Prod.snd ∧ s.quote = t.quote ∧
    s.module = t.module

end FromStatement

/-- A piece of a source. -/
inductive Piece where
  | statement (s : FromStatement)
  /-- Whatever else there is. -/
  | other (text : List Char)

namespace Piece

/-- A piece as it is written. -/
def text : Piece → List Char
  | .statement s => s.text
  | .other text => text

/-- The same piece, in which a statement may have another layout. -/
def Relaid : Piece → Piece → Prop
  | .statement s, .statement t => s.Relaid t
  | .other text, .other own => text = own
  | .statement _, .other _ | .other _, .statement _ => False

end Piece

/-- A source, piece by piece. -/
def sourceText (source : List Piece) : List Char := source.flatMap Piece.text

/-- The first text in quotes is the module, on a line that begins like an import or an export. -/
structure ImportsHere (line module : List Char) : Prop where
  starts : looksLikeImport line = true
  quotes : ∃ before quote after, line = before ++ quote :: module ++ quote :: after ∧
    isQuote quote = true ∧ (∀ c ∈ before, isQuote c = false) ∧ quote ∉ module

/-- A line of a text, the first of which is the line 1. -/
def lineAt (text : List Char) : Nat → Option (List Char)
  | 0 => none
  | idx + 1 => (lines text)[idx]?

/-- Whether a character ends a line. -/
def endsLine (c : Nat × Char) : Bool := c.2 = '\n'

/-- The lines of a source, with the number of its piece at each character. -/
def pieceLines (source : List Piece) : List (List (Nat × Char)) :=
  splitBehind endsLine (numberedFrom 0 (source.map Piece.text))

/-- The piece that the first quote of a line is from. -/
def firstQuote (line : List (Nat × Char)) : Option Nat :=
  (line.find? fun c => isQuote c.2).map Prod.fst

/-- The piece that the first quote of the line with this number is from. -/
def quotePiece (source : List Piece) : Nat → Option Nat
  | 0 => none
  | idx + 1 => (pieceLines source)[idx]?.bind firstQuote

/--
Of every statement there is one entry, and it has the statement's module. An entry is the
statement's if the quote that its module was found behind is one of the statement.
-/
def ReportedOnce (source : List Piece) (entries : List ImportEntry) : Prop :=
  ∀ k s, source[k]? = some (.statement s) →
    ∃ entry, entries.filter (fun e => quotePiece source e.line = some k) = [entry] ∧
      entry.module = String.ofList s.module

/-- The first quotes of a line are from a piece, and with them the line imports a module. -/
def NamedOn (source : List Piece) (k n : Nat) (module : List Char) : Prop :=
  quotePiece source n = some k ∧
    ∃ line ∈ lineAt (sourceText source) n, ImportsHere (trim line) module

/-- Every statement has one line that imports what it quotes first, and this is the module. -/
def EachOnOneLine (source : List Piece) : Prop :=
  ∀ k s, source[k]? = some (.statement s) →
    ∃ n, NamedOn source k n s.module ∧ ∀ n' module, NamedOn source k n' module → n' = n

/-- The number of the line that a piece ends on. -/
def endingLine (source : List Piece) (k : Nat) : Nat :=
  (sourceText (source.take (k + 1))).count '\n' + 1

/--
The line that a text besides the statements ends on, which may go on with a statement, imports the
same in both layouts, if the first quote of the line is from the text.
-/
def EndsAlike (source reformatted : List Piece) : Prop :=
  ∀ k text, source[k]? = some (.other text) → ∀ module,
    NamedOn source k (endingLine source k) module ↔
      NamedOn reformatted k (endingLine reformatted k) module

/-- The modules of some entries, each with the piece that its quotes are from. -/
def placedModules (source : List Piece) (entries : List ImportEntry) :
    List (Option Nat × String) :=
  entries.map fun e => (quotePiece source e.line, e.module)

/-- What is left behind some elements begins with the first one that is not among them. -/
theorem dropWhile_eq_cons {α : Type*} {p : α → Bool} {text rest : List α} {c : α} :
    text.dropWhile p = c :: rest ↔
      ∃ before, text = before ++ c :: rest ∧ (∀ x ∈ before, p x = true) ∧ p c = false := by
  -- What is skipped is the longest front of such elements.
  constructor
  · intro left
    refine ⟨text.takeWhile p, ?_, fun x member => List.mem_takeWhile_imp member, ?_⟩
    · rw [← left, List.takeWhile_append_dropWhile]
    · have first := List.head?_dropWhile_not p text
      rw [left] at first
      simpa using first
  · rintro ⟨before, rfl, skipped, stops⟩
    rw [List.dropWhile_append_of_pos skipped, List.dropWhile_cons_of_neg (by simp [stops])]

/-- The first quote is looked for, and the next one of its kind. -/
theorem quotedModule_eq_some {line module : List Char} :
    quotedModule line = some module ↔
      ∃ before quote after, line = before ++ quote :: module ++ quote :: after ∧
        isQuote quote = true ∧ (∀ c ∈ before, isQuote c = false) ∧ quote ∉ module := by
  -- The text in front of the second quote is what has no quote of this kind in it.
  unfold quotedModule
  constructor
  · intro found
    split at found
    · cases found
    · rename_i quote tail left
      obtain ⟨before, rfl, unquoted, isQuote⟩ := dropWhile_eq_cons.mp left
      split at found
      · rename_i again
        obtain ⟨inside, after, rfl, plain⟩ := List.eq_append_cons_of_mem again
        have skipped : ∀ c ∈ inside, decide (c ≠ quote) = true := by
          intro c member
          rw [decide_eq_true_eq]
          exact fun same => plain (same ▸ member)
        rw [List.takeWhile_append_of_pos skipped, List.takeWhile_cons_of_neg (by simp),
          List.append_nil, Option.some.injEq] at found
        subst found
        refine ⟨before, quote, after, by simp, by simpa using isQuote, ?_, plain⟩
        intro c member
        simpa using unquoted c member
      · cases found
  · rintro ⟨before, quote, after, rfl, isQuote, unquoted, plain⟩
    have left : (before ++ quote :: module ++ quote :: after).dropWhile
        (fun c => !McpCli.isQuote c) = quote :: (module ++ quote :: after) :=
      dropWhile_eq_cons.mpr ⟨before, by simp, fun c member => by simp [unquoted c member],
        by simp [isQuote]⟩
    have skipped : ∀ c ∈ module, decide (c ≠ quote) = true := by
      intro c member
      rw [decide_eq_true_eq]
      exact fun same => plain (same ▸ member)
    rw [left]
    simp only [List.mem_append, List.mem_cons, true_or, or_true, if_true]
    rw [List.takeWhile_append_of_pos skipped, List.takeWhile_cons_of_neg (by simp),
      List.append_nil]

/-- A line of TypeScript imports the module that is found on it. -/
theorem mem_typeScriptModules {line module : List Char} :
    module ∈ typeScriptModules line ↔ ImportsHere line module := by
  -- What the line looks like is asked only if there is something in quotes.
  unfold typeScriptModules
  cases found : quotedModule line with
  | none =>
    refine ⟨nofun, fun here => ?_⟩
    rw [quotedModule_eq_some.mpr here.quotes] at found
    cases found
  | some first =>
    simp only
    constructor
    · intro member
      split at member
      · rename_i looks
        rw [List.mem_singleton] at member
        subst member
        exact ⟨looks, quotedModule_eq_some.mp found⟩
      · cases member
    · intro here
      rw [quotedModule_eq_some.mpr here.quotes, Option.some.injEq] at found
      rw [if_pos here.starts, found]
      exact List.mem_singleton_self _

/-- A line of TypeScript imports one module at most. -/
theorem length_typeScriptModules_le (line : List Char) : (typeScriptModules line).length ≤ 1 := by
  unfold typeScriptModules
  grind

/-- What a line of the pieces imports. -/
def lineImports (line : List (Nat × Char)) : List (List Char) :=
  typeScriptModules (trim (stripLineEnd (line.map Prod.snd)))

/-- A line that imports something has a quote. -/
theorem firstQuote_of_mem_lineImports {line : List (Nat × Char)} {module : List Char}
    (member : module ∈ lineImports line) : ∃ k, firstQuote line = some k := by
  obtain ⟨before, quote, after, whole, isQuote, -, -⟩ := (mem_typeScriptModules.mp member).quotes
  -- What is left out at the ends of the line does not matter.
  have inside : quote ∈ line.map Prod.snd := by
    refine (stripLineEnd_sublist _).subset ((trim_sublist _).subset ?_)
    rw [whole]
    simp
  obtain ⟨c, inLine, rfl⟩ := List.mem_map.mp inside
  unfold firstQuote
  cases found : line.find? fun c => McpCli.isQuote c.2 with
  | some first => exact ⟨first.1, rfl⟩
  | none => exact absurd isQuote (List.find?_eq_none.mp found c inLine)

/-- The lines of a source are those of its pieces. -/
theorem lines_sourceText (source : List Piece) :
    lines (sourceText source) = (pieceLines source).map fun line =>
      stripLineEnd (line.map Prod.snd) := by
  have whole := numberedFrom_map_snd 0 (source.map Piece.text)
  rw [sourceText, List.flatMap_def, ← whole, lines, splitInclusive_eq_splitBehind,
    splitBehind_map, List.map_map]
  rfl

/-- What a line imports with quotes from a piece. -/
def ownImports (k : Nat) (line : List (Nat × Char)) : List (List Char) :=
  if firstQuote line = some k then lineImports line else []

/-- Lists of at most one element are the same if they have the same elements. -/
theorem eq_of_length_le_one {α : Type*} {l l' : List α} (few : l.length ≤ 1) (few' : l'.length ≤ 1)
    (same : ∀ a, a ∈ l ↔ a ∈ l') : l = l' := by
  -- The one element there may be is in both lists.
  cases l with
  | nil => exact (List.eq_nil_iff_forall_not_mem.mpr fun a mem => nomatch (same a).mpr mem).symm
  | cons a rest =>
    have rest_nil : rest = [] := by simpa using few
    subst rest_nil
    have mem := (same a).mp List.mem_cons_self
    obtain ⟨b, rfl⟩ := List.length_eq_one_iff.mp
      (Nat.le_antisymm few' (List.length_pos_of_mem mem))
    rw [List.mem_singleton.mp mem]

/-- The numbers of the lines are those of the lines of the pieces. -/
theorem namedOn_iff {source : List Piece} {k idx : Nat} {module : List Char} :
    NamedOn source k (idx + 1) module ↔
      ∃ line, (pieceLines source)[idx]? = some line ∧ module ∈ ownImports k line := by
  simp only [NamedOn, quotePiece, lineAt, ownImports, lineImports, lines_sourceText,
    List.getElem?_map]
  -- A line of the text names a module exactly if the line of pieces has it as its own.
  cases (pieceLines source)[idx]? with
  | none => simp
  | some line =>
    simp only [Option.bind_some, Option.map_some, Option.mem_some_iff, exists_eq_left',
      Option.some.injEq, ← mem_typeScriptModules]
    split
    · rename_i own
      simp [own]
    · rename_i other
      simp [other]

/-- A line imports at most one module. -/
theorem NamedOn.unique {source : List Piece} {k n : Nat} {module other : List Char}
    (named : NamedOn source k n module) (again : NamedOn source k n other) : module = other := by
  obtain ⟨-, line, at_, here⟩ := named
  obtain ⟨-, line', at_', there⟩ := again
  cases (show line = line' from Option.some.inj (at_.symm.trans at_'))
  have found := (quotedModule_eq_some.mpr here.quotes).symm.trans
    (quotedModule_eq_some.mpr there.quotes)
  exact Option.some.inj found

/-- What a text imports with quotes from a piece. -/
def ownedBy (k : Nat) (text : List (Nat × Char)) : List (List Char) :=
  (splitBehind endsLine text).flatMap (ownImports k)

/-- Nothing is imported with quotes from a piece that nothing is from. -/
theorem ownImports_of_apart {k : Nat} {line : List (Nat × Char)} (apart : ∀ c ∈ line, c.1 ≠ k) :
    ownImports k line = [] := by
  rw [ownImports, if_neg]
  intro own
  obtain ⟨c, found, same⟩ := Option.map_eq_some_iff.mp own
  exact apart c (List.mem_of_find?_eq_some found) same

/-- The same for a text. -/
theorem ownedBy_of_apart {k : Nat} {text : List (Nat × Char)} (apart : ∀ c ∈ text, c.1 ≠ k) :
    ownedBy k text = [] := by
  rw [ownedBy, List.flatMap_eq_nil_iff]
  intro line member
  refine ownImports_of_apart fun c inside => apart c ?_
  rw [← flatten_splitBehind endsLine text]
  exact List.mem_flatten_of_mem member inside

/-- Behind the end of a line, what is in front does not count. -/
theorem ownedBy_append {front : List (Nat × Char)}
    (ended : ∀ c ∈ front.getLast?, endsLine c = true) (k : Nat) (text : List (Nat × Char)) :
    ownedBy k (front ++ text) = ownedBy k front ++ ownedBy k text := by
  simp only [ownedBy, splitBehind_append ended, List.flatMap_append]

/-- The first quote of a line is that of its beginning. -/
theorem firstQuote_append {line : List (Nat × Char)} {k : Nat} (found : firstQuote line = some k)
    (more : List (Nat × Char)) : firstQuote (line ++ more) = some k := by
  obtain ⟨c, first, same⟩ := Option.map_eq_some_iff.mp found
  rw [firstQuote, List.find?_append, first]
  exact congrArg some same

/-- A line that begins with a quote of another piece does not count. -/
theorem ownedBy_behind_quote {line : List (Nat × Char)}
    (inside : ∀ c ∈ line, endsLine c = false) {j k : Nat} (found : firstQuote line = some j)
    (other : j ≠ k) (text : List (Nat × Char)) :
    ownedBy k (line ++ text) = (splitBehind endsLine text).tail.flatMap (ownImports k) := by
  have nonempty : line ≠ [] := by
    rintro rfl
    cases found
  -- The first line goes on in the text, and its first quote is the one it begins with.
  rw [ownedBy, splitBehind_open inside nonempty, List.flatMap_cons, ownImports, if_neg,
    List.nil_append]
  rw [firstQuote_append found]
  simpa using other

/-- The pieces in front of one. -/
def upTo (source : List Piece) (k : Nat) : List (Nat × Char) :=
  numberedFrom 0 ((source.take k).map Piece.text)

/-- One piece more. -/
theorem upTo_succ {source : List Piece} {k : Nat} {piece : Piece}
    (at_ : source[k]? = some piece) :
    upTo source (k + 1) = upTo source k ++ piece.text.map (k, ·) := by
  obtain ⟨inside, -⟩ := List.getElem?_eq_some_iff.mp at_
  rw [upTo, upTo, List.take_add_one, at_, Option.toList_some, List.map_append, numberedFrom_append,
    List.length_map, List.length_take, Nat.min_eq_left (Nat.le_of_lt inside)]
  simp [numberedFrom]

/-- The pieces in front of one have smaller numbers. -/
theorem upTo_lt {source : List Piece} {k : Nat} {c : Nat × Char} (member : c ∈ upTo source k) :
    c.1 < k := by
  have bounds := (numberedFrom_bounds member).2
  rw [List.length_map, List.length_take] at bounds
  omega

/-- Where a statement has been, the line has a quote. -/
theorem firstQuote_openLine {source : List Piece} {k : Nat} {s : FromStatement}
    (at_ : source[k]? = some (.statement s)) :
    ∃ j < k + 1, firstQuote (openLine endsLine (upTo source (k + 1))) = some j := by
  -- The statement's last character is a quote.
  obtain ⟨body, text⟩ : ∃ body, s.text = body ++ [s.quote] := ⟨_, rfl⟩
  have whole : upTo source (k + 1) = upTo source k ++ body.map (k, ·) ++ [(k, s.quote)] := by
    rw [upTo_succ at_, Piece.text, text, List.map_append, List.append_assoc]
    rfl
  have other : endsLine (k, s.quote) = false := by
    have quoted := s.quoted
    simp only [endsLine, decide_eq_false_iff_not]
    rintro same
    rw [same] at quoted
    cases quoted
  have last : (k, s.quote) ∈ openLine endsLine (upTo source (k + 1)) := by
    rw [whole, openLine, List.rtakeWhile_concat, other]
    simp
  unfold firstQuote
  cases found : (openLine endsLine (upTo source (k + 1))).find? fun c => isQuote c.2 with
  | none => exact absurd s.quoted (List.find?_eq_none.mp found _ last)
  | some first =>
    have member := List.mem_of_find?_eq_some found
    exact ⟨first.1, upTo_lt (List.rtakeWhile_suffix _ _ |>.subset member), rfl⟩

/-- The pieces of two layouts are the same, one by one. -/
theorem relaid_getElem? {source reformatted : List Piece}
    (relaid : List.Forall₂ Piece.Relaid source reformatted) (k : Nat) :
    source[k]? = none ∧ reformatted[k]? = none ∨
      ∃ piece other, source[k]? = some piece ∧ reformatted[k]? = some other ∧
        piece.Relaid other := by
  induction relaid generalizing k with
  | nil => exact .inl ⟨rfl, rfl⟩
  | @cons piece other _ _ same _ ih =>
    cases k with
    | zero => exact .inr ⟨piece, other, rfl, rfl, same⟩
    | succ k => exact ih k

/-- In both layouts, a piece begins on the same line, or on one with a quote in front of it. -/
theorem openLine_alike {source reformatted : List Piece}
    (relaid : List.Forall₂ Piece.Relaid source reformatted) (k : Nat) :
    openLine endsLine (upTo source k) = openLine endsLine (upTo reformatted k) ∨
      (∃ j < k, firstQuote (openLine endsLine (upTo source k)) = some j) ∧
        ∃ j < k, firstQuote (openLine endsLine (upTo reformatted k)) = some j := by
  -- The lines can only differ from a statement on, up to the next end of a line.
  induction k with
  | zero => exact .inl rfl
  | succ k ih =>
    rcases relaid_getElem? relaid k with ⟨behind, behind'⟩ | ⟨piece, other, at_, at_', same⟩
    · have stays {pieces : List Piece} (behind : pieces[k]? = none) :
          upTo pieces (k + 1) = upTo pieces k := by
        rw [upTo, List.take_add_one, behind, Option.toList_none, List.append_nil]
        rfl
      rw [stays behind, stays behind']
      refine ih.imp_right fun ⟨⟨j, less, found⟩, j', less', found'⟩ => ?_
      exact ⟨⟨j, Nat.lt_succ_of_lt less, found⟩, j', Nat.lt_succ_of_lt less', found'⟩
    cases piece with
    | statement s =>
      cases other with
      | statement t => exact .inr ⟨firstQuote_openLine at_, firstQuote_openLine at_'⟩
      | other text => cases same
    | other text =>
      cases other with
      | statement t => cases same
      | other own =>
        cases (show text = own from same)
        rw [upTo_succ at_, upTo_succ at_']
        by_cases ended : wholeLines endsLine ((Piece.other text).text.map (k, ·)) = []
        · have inside := wholeLines_eq_nil.mp ended
          rw [(openLine_append_of_inside _ inside).1, (openLine_append_of_inside _ inside).1]
          refine ih.imp (fun equal => by rw [equal]) fun ⟨⟨j, less, found⟩, j', less', found'⟩ => ?_
          exact ⟨⟨j, Nat.lt_succ_of_lt less, firstQuote_append found _⟩, j',
            Nat.lt_succ_of_lt less', firstQuote_append found' _⟩
        · rw [(openLine_append_of_ended _ ended).1, (openLine_append_of_ended _ ended).1]
          exact .inl rfl

/-- Before the line that other text ends on, it counts the same in both layouts. -/
theorem ownedBy_wholeLines {source reformatted : List Piece}
    (relaid : List.Forall₂ Piece.Relaid source reformatted) {k : Nat} {text : List Char}
    (at_ : source[k]? = some (.other text)) (at_' : reformatted[k]? = some (.other text)) :
    ownedBy k (wholeLines endsLine (upTo source (k + 1))) =
      ownedBy k (wholeLines endsLine (upTo reformatted (k + 1))) := by
  have front (pieces : List Piece) : ownedBy k (wholeLines endsLine (upTo pieces k)) = [] := by
    refine ownedBy_of_apart fun c member => ?_
    have inside := (List.rdropWhile_prefix _ _).subset member
    exact Nat.ne_of_lt (upTo_lt inside)
  rw [upTo_succ at_, upTo_succ at_']
  by_cases ended : wholeLines endsLine ((Piece.other text).text.map (k, ·)) = []
  · have inside := wholeLines_eq_nil.mp ended
    rw [(openLine_append_of_inside _ inside).2, (openLine_append_of_inside _ inside).2, front,
      front]
  · rw [(openLine_append_of_ended _ ended).2, (openLine_append_of_ended _ ended).2]
    -- What counts begins on the line that is open in front of the text.
    generalize wholeLines endsLine ((Piece.other text).text.map (k, ·)) = lines
    have opened (pieces : List Piece) : ownedBy k (upTo pieces k ++ lines) =
        ownedBy k (openLine endsLine (upTo pieces k) ++ lines) := by
      have cut := wholeLines_append_openLine endsLine (upTo pieces k)
      rw [← cut, List.append_assoc, ownedBy_append (ended_wholeLines _ _), front,
        List.nil_append, cut]
    rw [opened, opened]
    rcases openLine_alike relaid k with equal | ⟨⟨j, less, found⟩, j', less', found'⟩
    · rw [equal]
    · rw [ownedBy_behind_quote inside_openLine found (Nat.ne_of_lt less),
        ownedBy_behind_quote inside_openLine found' (Nat.ne_of_lt less')]

/-- What the line that a piece ends on imports with quotes from the piece. -/
def endImports (source : List Piece) (k : Nat) : List (List Char) :=
  (pieceLines source)[(sourceText (source.take (k + 1))).count '\n']?.elim [] (ownImports k)

/-- That line is the one that the layouts are compared on. -/
theorem mem_endImports {source : List Piece} {k : Nat} {module : List Char} :
    module ∈ endImports source k ↔ NamedOn source k (endingLine source k) module := by
  rw [endingLine, namedOn_iff, endImports]
  cases (pieceLines source)[(sourceText (source.take (k + 1))).count '\n']? with
  | none => simp
  | some line => simp

/-- It imports one module at most. -/
theorem length_endImports_le (source : List Piece) (k : Nat) :
    (endImports source k).length ≤ 1 := by
  -- A line counts for one piece only, and it names one module at most.
  unfold endImports
  cases (pieceLines source)[(sourceText (source.take (k + 1))).count '\n']? with
  | none => simp
  | some line =>
    rw [Option.elim_some, ownImports]
    split
    · exact length_typeScriptModules_le _
    · exact Nat.zero_le 1

/-- A piece counts on the lines that end in it and on the one that it ends on. -/
theorem ownedBy_numbered {source : List Piece} {k : Nat} {piece : Piece}
    (at_ : source[k]? = some piece) :
    ownedBy k (numberedFrom 0 (source.map Piece.text)) =
      ownedBy k (wholeLines endsLine (upTo source (k + 1))) ++ endImports source k := by
  obtain ⟨inside, -⟩ := List.getElem?_eq_some_iff.mp at_
  obtain ⟨rest, whole, behind⟩ : ∃ rest,
      numberedFrom 0 (source.map Piece.text) = upTo source (k + 1) ++ rest ∧
        ∀ c ∈ rest, c.1 ≠ k := by
    refine ⟨numberedFrom (0 + (source.take (k + 1)).length) ((source.drop (k + 1)).map Piece.text),
      ?_, fun c member => ?_⟩
    · rw [upTo, ← List.length_map Piece.text, ← numberedFrom_append, ← List.map_append,
        List.take_append_drop]
    · have bounds := (numberedFrom_bounds member).1
      rw [List.length_take] at bounds
      omega
  have cut := wholeLines_append_openLine endsLine (upTo source (k + 1))
  have ended := ended_wholeLines endsLine (upTo source (k + 1))
  -- The line that the piece ends on is the first one that is not whole.
  have index : (splitBehind endsLine (wholeLines endsLine (upTo source (k + 1)))).length =
      (sourceText (source.take (k + 1))).count '\n' := by
    have text : (upTo source (k + 1)).map Prod.snd = sourceText (source.take (k + 1)) := by
      rw [upTo, numberedFrom_map_snd, sourceText, List.flatMap_def]
    have none_left : (openLine endsLine (upTo source (k + 1))).countP endsLine = 0 := by
      rw [List.countP_eq_zero]
      intro c member
      simp [inside_openLine c member]
    have all := congrArg (List.countP endsLine) cut
    rw [List.countP_append, none_left, Nat.add_zero] at all
    rw [length_splitBehind ended, all, ← text, List.count, List.countP_map]
    rfl
  rw [whole, endImports, ← index, pieceLines, whole]
  generalize wholeLines endsLine (upTo source (k + 1)) = lines at *
  have inside : ∀ c ∈ openLine endsLine (upTo source (k + 1)), endsLine c = false :=
    inside_openLine
  generalize openLine endsLine (upTo source (k + 1)) = line at *
  rw [← cut, List.append_assoc, ownedBy_append ended, splitBehind_append ended,
    List.getElem?_append_right (Nat.le_refl _), Nat.sub_self]
  refine congrArg (_ ++ ·) ?_
  -- The lines behind it have nothing of the piece.
  have apart (lines : List (List (Nat × Char)))
      (inRest : ∀ line ∈ lines, line ∈ splitBehind endsLine rest) :
      lines.flatMap (ownImports k) = [] := by
    rw [List.flatMap_eq_nil_iff]
    intro line member
    refine ownImports_of_apart fun c inLine => behind c ?_
    rw [← flatten_splitBehind endsLine rest]
    exact List.mem_flatten_of_mem (inRest line member) inLine
  rcases eq_or_ne line [] with rfl | nonempty
  · rw [List.nil_append, ownedBy_of_apart behind]
    cases cut : splitBehind endsLine rest with
    | nil => rfl
    | cons next others =>
      have none_left := apart [next] fun line member => by simp_all
      simpa using none_left.symm
  · have none_left := apart (splitBehind endsLine rest).tail fun line => List.mem_of_mem_tail
    rw [ownedBy, splitBehind_open inside nonempty, List.flatMap_cons, none_left, List.append_nil]
    rfl

section

variable (tree : FileTree) (root baseDir : OsPath) {language : Language}
  (typeScript : language = .typeScript ∨ language = .tsx)

include typeScript

/-- A line of TypeScript is looked at on its own. -/
theorem lineModules_typeScript (goBlock : Bool) (line : List Char) :
    lineModules language goBlock line = (typeScriptModules line, goBlock) := by
  rcases typeScript with rfl | rfl
  all_goals rfl

/-- The loop makes an entry for each module of each line. -/
theorem importsFrom_typeScript (idx : Nat) (goBlock : Bool) (rest : List (List Char)) :
    importsFrom tree root language baseDir idx goBlock rest =
      (rest.zipIdx idx).flatMap fun line => (typeScriptModules (trim line.1)).map fun module =>
        importEntry tree root module (line.2 + 1) baseDir language := by
  induction rest generalizing idx with
  | nil => rfl
  | cons rawLine rest ih =>
    rw [List.zipIdx_cons, List.flatMap_cons, ← ih, importsFrom, lineModules_typeScript typeScript]

/-- The entries of a source are those of its lines. -/
theorem mem_extractImports {content : List Char} {entry : ImportEntry} :
    entry ∈ extractImports tree root language content baseDir ↔
      ∃ n line module, lineAt content n = some line ∧ ImportsHere (trim line) module ∧
        entry = importEntry tree root module n baseDir language := by
  rw [extractImports, importsFrom_typeScript tree root baseDir typeScript]
  simp only [List.mem_flatMap, List.mem_map, Prod.exists, List.mk_mem_zipIdx_iff_getElem?,
    mem_typeScriptModules]
  -- The lines are counted from 1, and their indices from 0.
  constructor
  · rintro ⟨line, idx, at_, module, here, rfl⟩
    exact ⟨idx + 1, line, module, at_, here, rfl⟩
  · rintro ⟨n, line, module, at_, here, rfl⟩
    cases n with
    | zero => cases at_
    | succ idx => exact ⟨line, idx, at_, module, here, rfl⟩

/-- The entries are in the order of the lines, with no two of one line. -/
theorem pairwise_extractImports (content : List Char) :
    (extractImports tree root language content baseDir).Pairwise fun a b => a.line < b.line := by
  rw [extractImports, importsFrom_typeScript tree root baseDir typeScript, List.pairwise_flatMap]
  constructor
  · intro line _
    -- The line has at most one entry.
    have few := length_typeScriptModules_le (trim line.1)
    match imported : typeScriptModules (trim line.1), few with
    | [], _ => exact .nil
    | [module], _ => exact List.pairwise_singleton _ _
  · -- Entries of later lines have larger numbers.
    have indices : ((lines content).zipIdx.map Prod.snd).Pairwise (· < ·) := by
      rw [List.zipIdx_map_snd]
      exact List.pairwise_lt_range'
    refine (List.pairwise_map.mp indices).imp fun {a b} later => ?_
    intro x first y second
    obtain ⟨_, -, rfl⟩ := List.mem_map.mp first
    obtain ⟨_, -, rfl⟩ := List.mem_map.mp second
    exact Nat.succ_lt_succ later

/-- Every statement is reported once exactly if one line imports what it quotes. -/
theorem reportedOnce_iff (source : List Piece) :
    ReportedOnce source (extractImports tree root language (sourceText source) baseDir) ↔
      EachOnOneLine source := by
  have member := @mem_extractImports tree root baseDir language typeScript (sourceText source)
  have sorted := pairwise_extractImports tree root baseDir typeScript (sourceText source)
  generalize extractImports tree root language (sourceText source) baseDir = entries at *
  -- The entries of a piece are those of the lines that import with its quotes.
  have own (k : Nat) (entry : ImportEntry) :
      entry ∈ entries.filter (fun e => quotePiece source e.line = some k) ↔
        ∃ n module, NamedOn source k n module ∧
          entry = importEntry tree root module n baseDir language := by
    rw [List.mem_filter, member, decide_eq_true_eq]
    constructor
    · rintro ⟨⟨n, line, module, at_, here, rfl⟩, quotes⟩
      exact ⟨n, module, ⟨quotes, line, at_, here⟩, rfl⟩
    · rintro ⟨n, module, ⟨quotes, line, at_, here⟩, rfl⟩
      exact ⟨⟨n, line, module, at_, here, rfl⟩, quotes⟩
  refine forall_congr' fun k => forall_congr' fun s => forall_congr' fun _ => ?_
  constructor
  · rintro ⟨entry, single, same⟩
    have mine := own k
    simp only [single, List.mem_singleton] at mine
    obtain ⟨n, module, named, rfl⟩ := (mine entry).mp rfl
    have isModule : module = s.module := String.ofList_injective same
    subst isModule
    refine ⟨n, named, fun n' module again => ?_⟩
    -- The entry of another line would be the same one.
    have equal := (mine _).mpr ⟨n', module, again, rfl⟩
    exact congrArg ImportEntry.line equal
  · rintro ⟨n, named, only⟩
    refine ⟨importEntry tree root s.module n baseDir language, ?_, rfl⟩
    have distinct : (entries.filter fun e => quotePiece source e.line = some k).Nodup :=
      (sorted.filter _).imp fun less same => absurd less (by rw [same]; exact lt_irrefl _)
    refine List.perm_singleton.mp ((List.perm_ext_iff_of_nodup distinct
      (List.nodup_singleton _)).mpr fun entry => ?_)
    rw [own, List.mem_singleton]
    constructor
    · rintro ⟨n', module, again, rfl⟩
      cases only n' module again
      rw [again.unique named]
    · rintro rfl
      exact ⟨n, s.module, named, rfl⟩

end


section

variable (tree : FileTree) (root baseDir : OsPath) {language : Language}
  (typeScript : language = .typeScript ∨ language = .tsx)

include typeScript

/-- The entries of a source have the modules of its lines. -/
theorem placedModules_extractImports (source : List Piece) :
    placedModules source (extractImports tree root language (sourceText source) baseDir) =
      (pieceLines source).flatMap fun line => (lineImports line).map fun module =>
        (firstQuote line, String.ofList module) := by
  rw [placedModules, extractImports, importsFrom_typeScript tree root baseDir typeScript,
    lines_sourceText, List.zipIdx_map, List.flatMap_map, List.map_flatMap]
  -- The quotes of an entry are looked up by the number of its line.
  have looked : ∀ line ∈ (pieceLines source).zipIdx,
      quotePiece source (line.2 + 1) = firstQuote line.1 := by
    rintro ⟨line, idx⟩ member
    rw [quotePiece, List.mk_mem_zipIdx_iff_getElem?.mp member, Option.bind_some]
  conv_rhs => rw [← List.zipIdx_map_fst 0 (pieceLines source), List.flatMap_map]
  refine List.flatMap_congr fun line member => ?_
  simp only [List.map_map, Prod.map]
  refine List.map_congr_left fun module _ => ?_
  simp [importEntry, looked line member]

/-- Of the modules, those with quotes from one piece. -/
theorem filter_placedModules (source : List Piece) (k : Nat) :
    (placedModules source (extractImports tree root language (sourceText source) baseDir)).filter
        (fun placed => placed.1 = some k) =
      (ownedBy k (numberedFrom 0 (source.map Piece.text))).map fun module =>
        (some k, String.ofList module) := by
  rw [placedModules_extractImports tree root baseDir typeScript, List.filter_flatMap, ownedBy,
    List.map_flatMap]
  refine List.flatMap_congr fun line _ => ?_
  -- All modules of a line have the same quotes.
  rw [List.filter_map, ownImports]
  by_cases own : firstQuote line = some k
  · simp [own, Function.comp_def]
  · simp [own, Function.comp_def]

/-- The modules are in the order of the pieces. -/
theorem pairwise_placedModules (source : List Piece) :
    (placedModules source (extractImports tree root language (sourceText source) baseDir)).Pairwise
      fun a b => a.1.getD 0 ≤ b.1.getD 0 := by
  rw [placedModules_extractImports tree root baseDir typeScript, List.pairwise_flatMap]
  constructor
  · intro line _
    rw [List.pairwise_map]
    exact List.pairwise_of_forall fun _ _ => Nat.le_refl _
  · -- The quotes are from pieces in the order of the lines.
    have sorted := numberedFrom_sorted 0 (source.map Piece.text)
    rw [← flatten_splitBehind endsLine (numberedFrom 0 (source.map Piece.text)),
      List.pairwise_flatten] at sorted
    refine sorted.2.imp fun {line later} below => ?_
    intro a first b second
    obtain ⟨module, inLine, rfl⟩ := List.mem_map.mp first
    obtain ⟨module', inLater, rfl⟩ := List.mem_map.mp second
    obtain ⟨i, quoted⟩ := firstQuote_of_mem_lineImports inLine
    obtain ⟨j, quoted'⟩ := firstQuote_of_mem_lineImports inLater
    simp only [quoted, quoted', Option.getD_some]
    obtain ⟨c, found, rfl⟩ := Option.map_eq_some_iff.mp quoted
    obtain ⟨c', found', rfl⟩ := Option.map_eq_some_iff.mp quoted'
    exact below c (List.mem_of_find?_eq_some found) c' (List.mem_of_find?_eq_some found')

/-- Two sources have the same modules if they have the same ones of every piece. -/
theorem placedModules_eq_iff (source reformatted : List Piece) :
    placedModules source (extractImports tree root language (sourceText source) baseDir) =
        placedModules reformatted
          (extractImports tree root language (sourceText reformatted) baseDir) ↔
      ∀ k, ownedBy k (numberedFrom 0 (source.map Piece.text)) =
        ownedBy k (numberedFrom 0 (reformatted.map Piece.text)) := by
  have own := fun pieces => filter_placedModules tree root baseDir typeScript pieces
  have injective (k : Nat) : Function.Injective fun module : List Char =>
      (some k, String.ofList module) :=
    fun _ _ same => String.ofList_injective (Prod.mk.inj same).2
  constructor
  · intro same k
    have filtered := congrArg (List.filter fun placed => placed.1 = some k) same
    rw [own, own] at filtered
    exact List.map_injective_iff.mpr (injective k) filtered
  · intro same
    refine Listing.eq_of_filter_key (pairwise_placedModules tree root baseDir typeScript source)
      (pairwise_placedModules tree root baseDir typeScript reformatted) fun k => ?_
    -- Every module has a piece that its quotes are from.
    have placed (pieces : List Piece) :
        (placedModules pieces
            (extractImports tree root language (sourceText pieces) baseDir)).filter
          (fun placed => placed.1.getD 0 = k) =
        (ownedBy k (numberedFrom 0 (pieces.map Piece.text))).map fun module =>
          (some k, String.ofList module) := by
      rw [← own]
      refine List.filter_congr fun entry member => ?_
      rw [placedModules_extractImports tree root baseDir typeScript, List.mem_flatMap] at member
      obtain ⟨line, -, inLine⟩ := member
      obtain ⟨module, imported, rfl⟩ := List.mem_map.mp inLine
      obtain ⟨j, quoted⟩ := firstQuote_of_mem_lineImports imported
      simp [quoted]
    rw [placed, placed, same]

/-- A statement that is reported once counts with its module only. -/
theorem ownedBy_statement {source : List Piece}
    (once : ReportedOnce source (extractImports tree root language (sourceText source) baseDir))
    {k : Nat} {s : FromStatement} (at_ : source[k]? = some (.statement s)) :
    ownedBy k (numberedFrom 0 (source.map Piece.text)) = [s.module] := by
  obtain ⟨entry, single, same⟩ := once k s at_
  -- What the entries say of this statement is one module, and it is the one written there.
  have own := filter_placedModules tree root baseDir typeScript source k
  rw [placedModules, List.filter_map] at own
  have picked : (List.filter ((fun placed : Option Nat × String => decide (placed.1 = some k)) ∘
      fun e : ImportEntry => (quotePiece source e.line, e.module))
      (extractImports tree root language (sourceText source) baseDir)) = [entry] := single
  rw [picked, List.map_singleton, same] at own
  obtain ⟨module, whole, equal⟩ := List.map_eq_singleton_iff.mp own.symm
  rw [whole, String.ofList_injective (Prod.mk.inj equal).2]

/--
Every statement is reported once exactly if there is one line that imports what it quotes first, and
this is the module. Between two such layouts of a source, the modules are the same, and behind the
same quotes, exactly if what is quoted besides is imported in both or in none.
-/
theorem statements_reported :
    (∀ source : List Piece,
      ReportedOnce source (extractImports tree root language (sourceText source) baseDir) ↔
        EachOnOneLine source) ∧
    ∀ source reformatted : List Piece, List.Forall₂ Piece.Relaid source reformatted →
      EachOnOneLine source → EachOnOneLine reformatted →
      let entries := extractImports tree root language (sourceText source) baseDir
      let again := extractImports tree root language (sourceText reformatted) baseDir
      (placedModules source entries = placedModules reformatted again ↔
          EndsAlike source reformatted) ∧
        (EndsAlike source reformatted →
          entries.map ImportEntry.module = again.map ImportEntry.module) := by
  refine ⟨reportedOnce_iff tree root baseDir typeScript, ?_⟩
  intro source reformatted relaid laid laidAgain entries again
  have once := (reportedOnce_iff tree root baseDir typeScript source).mpr laid
  have onceAgain := (reportedOnce_iff tree root baseDir typeScript reformatted).mpr laidAgain
  have exact_ : placedModules source entries = placedModules reformatted again ↔
      EndsAlike source reformatted := by
    rw [placedModules_eq_iff tree root baseDir typeScript]
    refine forall_congr' fun k => ?_
    rcases relaid_getElem? relaid k with ⟨behind, behind'⟩ | ⟨piece, other, at_, at_', same⟩
    · -- Nothing is from a piece that is not there.
      have apart {pieces : List Piece} (behind : pieces[k]? = none) :
          ownedBy k (numberedFrom 0 (pieces.map Piece.text)) = [] := by
        refine ownedBy_of_apart fun c member => Nat.ne_of_lt ?_
        have bounds := (numberedFrom_bounds member).2
        rw [List.length_map, Nat.zero_add] at bounds
        exact Nat.lt_of_lt_of_le bounds (List.getElem?_eq_none_iff.mp behind)
      simp [apart behind, apart behind', behind]
    cases piece with
    | statement s =>
      cases other with
      | statement t =>
        have equal : s.module = t.module := same.2.2.2
        simp [ownedBy_statement tree root baseDir typeScript once at_,
          ownedBy_statement tree root baseDir typeScript onceAgain at_', equal, at_]
      | other text => cases same
    | other text =>
      cases other with
      | statement t => cases same
      | other own =>
        cases (show text = own from same)
        rw [ownedBy_numbered at_, ownedBy_numbered at_', ownedBy_wholeLines relaid at_ at_',
          List.append_cancel_left_eq]
        simp only [at_, Option.some.injEq, Piece.other.injEq, forall_eq', ← mem_endImports]
        exact ⟨fun equal module => by rw [equal],
          eq_of_length_le_one (length_endImports_le _ k) (length_endImports_le _ k)⟩
  refine ⟨exact_, fun alike => ?_⟩
  have modules := congrArg (List.map Prod.snd) (exact_.mpr alike)
  simpa [placedModules, Function.comp_def] using modules

end

/-- No files at all. -/
def noFiles : FileTree := .plain [] []

/-- An import of one name, with this white space around the name. -/
def importOf (gap : List Char) (blank : Blank gap) : FromStatement where
  isExport := false
  clause := [([' '], ['\x7b']), (gap, ['a']), (gap, ['\x7d'])]
  beforeFrom := [' ']
  beforeModule := [' ']
  quote := '\x27'
  module := "./m".toList
  blanks := by
    have space : Blank [' '] := by decide
    simp only [List.mem_cons, List.not_mem_nil, or_false, forall_eq_or_imp, forall_eq]
    exact ⟨⟨space, blank, blank⟩, space, space⟩
  quoted := by decide
  plain := by decide

/-- The import on one line. -/
def onOneLine : List Piece := [.statement (importOf [' '] (by decide)), .other [';']]

/-- The same import, with the name on a line of its own. -/
def onThreeLines : List Piece := [.statement (importOf ['\n'] (by decide)), .other [';']]

/-- An import over three lines is not reported, and on one line it is. -/
theorem not_reported_onThreeLines :
    List.Forall₂ Piece.Relaid onOneLine onThreeLines ∧
      ¬ ReportedOnce onThreeLines
        (extractImports noFiles [] .typeScript (sourceText onThreeLines) []) ∧
      (extractImports noFiles [] .typeScript (sourceText onOneLine) []).map ImportEntry.module ≠
        (extractImports noFiles [] .typeScript (sourceText onThreeLines) []).map
          ImportEntry.module := by
  have nothing : extractImports noFiles [] .typeScript (sourceText onThreeLines) [] = [] := by
    decide
  rw [nothing]
  refine ⟨.cons ⟨rfl, rfl, rfl, rfl⟩ (.cons rfl .nil), ?_, by decide⟩
  intro once
  -- There is no entry for the one statement.
  obtain ⟨entry, single, -⟩ := once 0 _ rfl
  cases single

/-- The import on a line of its own, behind one with a quoted text. -/
def behindDirective (gap : List Char) (blank : Blank gap) : List Piece :=
  [.other "'use strict';\n".toList, .statement (importOf gap blank), .other [';']]

/-- The import behind another line is reported once, and so it is with other blanks in it. -/
theorem statements_reported_behindDirective :
    ReportedOnce (behindDirective [' '] (by decide))
        (extractImports noFiles [] .tsx (sourceText (behindDirective [' '] (by decide))) []) ∧
      (extractImports noFiles [] .tsx (sourceText (behindDirective [' '] (by decide))) []).map
          ImportEntry.module =
        (extractImports noFiles [] .tsx (sourceText (behindDirective ['\t'] (by decide))) []).map
          ImportEntry.module := by
  have both := statements_reported noFiles [] [] (.inr rfl)
  -- In both layouts the whole statement stands on the second line, the last one.
  have second (gap : List Char) (blank : Blank gap)
      (named : NamedOn (behindDirective gap blank) 1 2 "./m".toList)
      (first : quotePiece (behindDirective gap blank) 1 ≠ some 1)
      (last : (pieceLines (behindDirective gap blank)).length = 2) :
      EachOnOneLine (behindDirective gap blank) := by
    intro k s at_
    match k, at_ with
    | 1, rfl =>
      refine ⟨2, named, fun n module again => ?_⟩
      match n, again.1 with
      | 1, own => exact absurd own first
      | 2, _ => rfl
      | n + 3, own =>
        rw [quotePiece, List.getElem?_eq_none (by omega)] at own
        cases own
    | 0, at_ | 2, at_ | k + 3, at_ => cases at_
  have laid : EachOnOneLine (behindDirective [' '] (by decide)) :=
    second _ _ ⟨by decide, _, rfl, by decide, quotedModule_eq_some.mp (by decide)⟩
      (by decide) (by decide)
  have laidAgain : EachOnOneLine (behindDirective ['\t'] (by decide)) :=
    second _ _ ⟨by decide, _, rfl, by decide, quotedModule_eq_some.mp (by decide)⟩
      (by decide) (by decide)
  -- The first line is whole, and nothing is quoted behind the statement.
  have alike : EndsAlike (behindDirective [' '] (by decide))
      (behindDirective ['\t'] (by decide)) := by
    intro k text at_ module
    match k, at_ with
    | 0, _ | 2, _ =>
      exact ⟨fun named => absurd named.1 (by decide), fun named => absurd named.1 (by decide)⟩
  have relaid : List.Forall₂ Piece.Relaid (behindDirective [' '] (by decide))
      (behindDirective ['\t'] (by decide)) :=
    .cons rfl (.cons ⟨rfl, rfl, rfl, rfl⟩ (.cons rfl .nil))
  exact ⟨(both.1 _).mpr laid, (both.2 _ _ relaid laid laidAgain).2 alike⟩

/-- An import of a string under a name of its own, over two lines. -/
def reexported : FromStatement where
  isExport := false
  clause := [([' '], ['\x7b']), ([' '], ['\x27', 'm', '\x27']), ([' '], ['a', 's']),
    ([' '], ['b', ',']), (['\n'], "export".toList), ([' '], ['a', 's']), ([' '], ['a']),
    ([' '], ['\x7d'])]
  beforeFrom := [' ']
  beforeModule := [' ']
  quote := '\x27'
  module := ['m']
  blanks := by
    have space : Blank [' '] := by decide
    have line : Blank ['\n'] := by decide
    simp only [List.mem_cons, List.not_mem_nil, or_false, forall_eq_or_imp, forall_eq]
    exact ⟨⟨space, space, space, space, line, space, space, space⟩, space, space⟩
  quoted := by decide
  plain := by decide

-- Each of the two lines begins like a statement and has the module in quotes.
example : (extractImports noFiles [] .typeScript (sourceText [.statement reexported]) []).map
    ImportEntry.module = ["m", "m"] := by decide

example : ¬ EachOnOneLine [.statement reexported] := by
  intro laid
  obtain ⟨n, -, only⟩ := laid 0 reexported rfl
  have first : NamedOn [.statement reexported] 0 1 ['m'] :=
    ⟨by decide, _, rfl, by decide, quotedModule_eq_some.mp (by decide)⟩
  have second : NamedOn [.statement reexported] 0 2 ['m'] :=
    ⟨by decide, _, rfl, by decide, quotedModule_eq_some.mp (by decide)⟩
  exact absurd ((only 1 _ first).trans (only 2 _ second).symm) (by decide)

end McpCli
