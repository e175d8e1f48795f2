import Mathlib.Data.List.TakeWhile
import McpCli.Proofs.Daemon.Outline
import McpCli.Text.Squeeze

/-! What the signatures of an outline tell of the declarations. -/

namespace McpCli

open Text

/-- A delimiter that waits for what closes it. -/
def IsOpenDelimiter (c : Char) : Prop := c = '\x7b' ∨ c = '(' ∨ c = '['

instance (c : Char) : Decidable (IsOpenDelimiter c) := inferInstanceAs (Decidable (_ ∨ _))

/-- A signature is a head on one line, up to the open delimiters at its end. -/
structure SignatureLaws (head signature : List Char) : Prop where
  /-- There is a single blank between two words, and no other white space. -/
  squeezed : squeeze signature = signature
  begins : ∃ opens, squeeze head = signature ++ opens ∧ ∀ c ∈ opens, c = ' ' ∨ IsOpenDelimiter c
  ends : ∀ last ∈ signature.getLast?, isWhitespace last = false ∧ ¬ IsOpenDelimiter last

/-- The named nodes below a node, so many levels down, each one in front of those below it. -/
def Node.descendants : (depth : Nat) → Node → List Node
  | 0, _ => []
  | depth + 1, node =>
    (node.children.filter Node.named).flatMap fun child => child :: child.descendants depth

/-- The node with the body of a declaration, if it has one. -/
def Node.body (node : Node) : Option Node :=
  match node.children.find? fun child => child.field = some "body" with
  | some body => some body
  | none => (node.descendants 4).find? fun other => other.kind ∈ bodyKinds

/-- The text from one byte to another one, if it is one. -/
def textBetween (source : List UInt8) (start stop : Nat) : List Char :=
  (decodeUtf8 (if start ≤ stop ∧ stop ≤ source.length then
    (source.drop start).take (stop - start) else [])).getD []

/-- The head of a declaration: what is in front of its body, or the first line without a body. -/
def Node.head (node : Node) (source : List UInt8) : List Char :=
  match node.body with
  | some body =>
    textBetween source node.startByte
      (if node.startByte < body.startByte then body.startByte else node.endByte)
  | none => (textBetween source node.startByte node.endByte).takeWhile fun c => c ≠ '\n'

/-- The search for a body goes down to the first one before it goes on. -/
theorem dfs_eq (depth : Nat) (node : Node) :
    node.dfs depth =
      ((node.descendants depth).find? fun other => other.kind ∈ bodyKinds).map Node.startByte := by
  -- Each child is looked at before what is below it, in both of them.
  induction depth generalizing node with
  | zero => rfl
  | succ depth ih =>
    rw [Node.dfs, Node.descendants, List.find?_flatMap, List.map_findSome?]
    congr 1
    funext child
    rw [Function.comp_apply, List.find?_cons, ih]
    by_cases body : child.kind ∈ bodyKinds
    · simp [body]
    · simp [body]

/-- Where the body starts is where its node does. -/
theorem findBodyStart_eq (node : Node) : findBodyStart node = node.body.map Node.startByte := by
  unfold findBodyStart Node.body
  cases node.children.find? fun child => child.field = some "body" with
  | some body => rfl
  | none => exact dfs_eq 4 node

/-- What is dropped is in front of what is left, and ends where this begins with a word. -/
theorem dropOpen_spec (text : List Char) :
    ∃ opens, text = opens ++ dropOpen text ∧
      (∀ c ∈ opens, isWhitespace c = true ∨ IsOpenDelimiter c) ∧
      ((∀ first ∈ text.head?, isWhitespace first = false) →
        ∀ first ∈ (dropOpen text).head?, isWhitespace first = false ∧ ¬ IsOpenDelimiter first) := by
  induction text using dropOpen.induct with
  | case1 =>
    refine ⟨[], by rw [dropOpen]; rfl, nofun, fun _ first none_ => ?_⟩
    rw [dropOpen] at none_
    cases none_
  | case2 c front isOpen ih =>
    obtain ⟨opens, parts, dropped, ends⟩ := ih
    have white : ∀ other ∈ front.takeWhile isWhitespace, isWhitespace other = true :=
      fun other member => List.mem_takeWhile_imp member
    rw [dropOpen, if_pos isOpen]
    refine ⟨c :: front.takeWhile isWhitespace ++ opens, ?_, fun other member => ?_, fun _ => ?_⟩
    · rw [List.cons_append, List.cons_append, List.append_assoc, ← parts,
        List.takeWhile_append_dropWhile]
    · rcases List.mem_append.mp member with early | late
      · rcases List.mem_cons.mp early with rfl | blank
        · exact .inr isOpen
        · exact .inl (white other blank)
      · exact dropped other late
    · -- Behind the white space that goes with the delimiter there is a word.
      refine ends fun first there => ?_
      have solid := List.head?_dropWhile_not isWhitespace front
      rw [Option.mem_def] at there
      rw [there] at solid
      exact solid
  | case3 c front closed =>
    rw [dropOpen, if_neg closed]
    refine ⟨[], rfl, nofun, fun solid first there => ?_⟩
    cases there
    exact ⟨solid c rfl, closed⟩

/-- What is left of a squeezed text without the open delimiters at its end is a signature of it. -/
theorem signatureLaws_dropOpen (head : List Char) :
    SignatureLaws head (dropOpen (squeeze head).reverse).reverse := by
  have all : ∀ word ∈ splitWhitespace head, IsWord word := fun _ =>
    isWord_of_mem_splitWhitespace
  -- What is dropped are open delimiters and the blanks between them, from the end.
  obtain ⟨opens, parts, dropped, ends⟩ := dropOpen_spec (squeeze head).reverse
  have whole := congrArg List.reverse parts
  rw [List.reverse_reverse, List.reverse_append] at whole
  have last : ∀ last ∈ (dropOpen (squeeze head).reverse).reverse.getLast?,
      isWhitespace last = false ∧ ¬ IsOpenDelimiter last := by
    rw [List.getLast?_reverse]
    refine ends fun first there => ?_
    rw [List.head?_reverse] at there
    exact solid_of_getLast?_intercalate all there
  refine ⟨?_, ⟨opens.reverse, whole, fun c member => ?_⟩, last⟩
  · -- What is left is a prefix that ends in no white space, so it is joined words again.
    obtain ⟨parts, areWords, joined⟩ := intercalate_of_prefix all
      (⟨opens.reverse, whole.symm⟩ : (dropOpen (squeeze head).reverse).reverse <+: squeeze head)
      fun final ends => (last final ends).1
    rw [joined, squeeze_intercalate areWords]
  · refine (dropped c (List.mem_reverse.mp member)).imp_left fun white => ?_
    refine white_of_mem_intercalate all ?_ white
    rw [← squeeze, whole]
    exact List.mem_append_right _ member

/-- A head has one signature only. -/
theorem SignatureLaws.unique {head one other : List Char} (first : SignatureLaws head one)
    (second : SignatureLaws head other) : one = other := by
  -- If one of them is longer, what it has more is dropped from the other one.
  have covers {one other : List Char} (first : SignatureLaws head one)
      (second : SignatureLaws head other) (shorter : one <+: other) : other = one := by
    obtain ⟨more, rfl⟩ := shorter
    obtain ⟨opens, parts, dropped⟩ := first.begins
    obtain ⟨opens', parts', _⟩ := second.begins
    rw [parts, List.append_assoc, List.append_cancel_left_eq] at parts'
    cases final : more.getLast? with
    | none => rw [List.getLast?_eq_none_iff.mp final, List.append_nil]
    | some last =>
      have inside : last ∈ opens :=
        parts' ▸ List.mem_append_left opens' (List.mem_of_getLast? final)
      have solid := second.ends last (by
        rw [Option.mem_def, List.getLast?_append, final, Option.some_or])
      rcases dropped last inside with rfl | isOpen
      · exact absurd solid.1 (by decide)
      · exact absurd isOpen solid.2
  obtain ⟨opens, parts, _⟩ := first.begins
  obtain ⟨opens', parts', _⟩ := second.begins
  rcases List.prefix_or_prefix_of_prefix (⟨opens, parts.symm⟩ : one <+: squeeze head)
    ⟨opens', parts'.symm⟩ with shorter | longer
  · exact (covers first second shorter).symm
  · exact covers second first longer

/-- The signature of a declaration is that of its head. -/
theorem signatureLaws_iff (node : Node) (source : List UInt8) (signature : String) :
    SignatureLaws (node.head source) signature.toList ↔
      extractSignature node source = signature := by
  -- The laws leave no choice, so it is enough that what is extracted meets them.
  have laws : SignatureLaws (node.head source) (extractSignature node source).toList := by
    have same : (extractSignature node source).toList =
        (dropOpen (squeeze (node.head source)).reverse).reverse := by
      unfold extractSignature Node.head
      rw [findBodyStart_eq]
      cases node.body with
      | some body =>
        rw [String.toList_ofList]
        rfl
      | none =>
        rw [String.toList_ofList]
        rfl
    rw [same]
    exact signatureLaws_dropOpen (node.head source)
  constructor
  · exact fun other => String.toList_inj.mp (laws.unique other)
  · rintro rfl
    exact laws

/-- The declaration that a match has given so far is one that it has captured. -/
def Captured.From (captures : List Capture) (captured : Captured) : Prop :=
  ∀ node kind, captured.defNode = some node → captured.defKind = some kind →
    ∃ cap ∈ captures, CaptureMeta.fromCaptureName cap.name = some (.defn kind) ∧ cap.node = node

/-- All that a match gives comes from what it has captured. -/
theorem captured_from (source : List UInt8) (captures : List Capture) :
    (captures.foldl (Captured.add source) ⟨none, none, none⟩).From captures := by
  refine List.foldlRecOn captures _ nofun fun captured known cap member => ?_
  unfold Captured.add
  split
  · exact known
  · -- The node and the kind are those of the same capture.
    rename_i kind isDef
    intro node kind' isNode isKind
    cases isNode
    cases isKind
    exact ⟨cap, member, isDef, rfl⟩
  · split
    · exact known
    · exact known

/-- The entry of a match is that of a declaration which it captures. -/
theorem matchEntry_eq_some {source : List UInt8} {signatures : Bool} {captures : List Capture}
    {entry : OutlineEntry} (matched : matchEntry source signatures captures = some entry) :
    ∃ cap ∈ captures, CaptureMeta.fromCaptureName cap.name = some (.defn entry.kind) ∧
      ∃ name, entry = outlineEntry source signatures cap.node entry.kind name := by
  have known := captured_from source captures
  unfold matchEntry at matched
  -- A match without a definition or without a name has no entry.
  split at matched
  · rename_i node kind name found
    rw [found] at known
    cases matched
    obtain ⟨cap, member, isDef, rfl⟩ := known node kind rfl rfl
    exact ⟨cap, member, isDef, name, rfl⟩
  · cases matched

/-- An entry without its signature. -/
def OutlineEntry.unsigned (entry : OutlineEntry) : OutlineEntry := { entry with signature := none }

/-- The signature is all that is missing of an entry when it was not asked for. -/
theorem matchEntry_false (source : List UInt8) (captures : List Capture) :
    matchEntry source false captures =
      (matchEntry source true captures).map OutlineEntry.unsigned := by
  unfold matchEntry
  split
  · rfl
  · rfl

/-- The names are those of the entries, without those that have been there before. -/
theorem entryNames_eq (entries : List OutlineEntry) :
    entryNames entries = (entries.map fun entry => entry.name).eraseDups := by
  have seen (names : List String) : entries.foldl (fun names entry =>
      if entry.name ∈ names then names else names ++ [entry.name]) names =
        names ++ ((entries.map fun entry => entry.name).filter fun name =>
          name ∉ names).eraseDups := by
    induction entries generalizing names with
    | nil => simp
    | cons entry rest ih =>
      rw [List.foldl_cons, ih, List.map_cons]
      by_cases there : entry.name ∈ names
      · simp [there]
      · -- What is left has neither been there before nor is it this name.
        simp only [there, if_false, List.mem_append, List.mem_singleton, List.append_assoc,
          List.singleton_append, not_or, List.filter_cons, not_false_eq_true, decide_true, if_true,
          List.eraseDups_cons, List.filter_filter]
        congr 3
        refine List.filter_congr fun name _ => ?_
        rw [Bool.and_comm, Bool.decide_and, decide_not, decide_not]
        rfl
  rw [entryNames, seen, List.nil_append]
  exact congrArg _ (List.filter_eq_self.mpr fun name _ => decide_eq_true List.not_mem_nil)

variable {Tree : Type} {libs : TreeQueries Tree} {parsed : ParsedFile Tree}

/--
An outline with signatures has the same entries as one without, whose names in the order in which
they are seen first are the symbols. Each entry is that of a declaration which the query captures,
and its signature is the only text that is the head of this declaration on one line, up to the open
delimiters at its end.
-/
theorem outline_signatures {entries : List OutlineEntry}
    (answered : outline libs parsed true = .ok entries) :
    outline libs parsed false = .ok (entries.map OutlineEntry.unsigned) ∧
      symbols libs parsed = .ok (entries.map fun entry => entry.name).eraseDups ∧
      ∃ query, libs.compile parsed.language parsed.language.outlineQuery = .ok query ∧
        ∀ entry ∈ entries, ∃ captures ∈ query parsed.tree parsed.source, ∃ cap ∈ captures,
          CaptureMeta.fromCaptureName cap.name = some (.defn entry.kind) ∧
            entry.startByte = cap.node.startByte ∧ entry.endByte = cap.node.endByte ∧
              ∀ signature, entry.signature = some signature ↔
                SignatureLaws (cap.node.head parsed.source) signature.toList := by
  unfold outline at answered
  cases compiled : libs.compile parsed.language parsed.language.outlineQuery with
  | error e =>
    rw [compiled] at answered
    cases answered
  | ok query =>
    rw [compiled] at answered
    simp only [Except.ok.injEq] at answered
    have plain : outline libs parsed false = .ok (entries.map OutlineEntry.unsigned) := by
      have same : (query parsed.tree parsed.source).filterMap (matchEntry parsed.source false) =
          ((query parsed.tree parsed.source).filterMap (matchEntry parsed.source true)).map
            OutlineEntry.unsigned := by
        rw [List.map_filterMap]
        exact List.filterMap_congr fun captures _ => matchEntry_false parsed.source captures
      rw [outline, compiled]
      -- Sorting and dropping doubles do not look at the signatures.
      simp only [same, ← answered, Except.ok.injEq]
      exact (Listing.map_uniqueByKey (fun _ => rfl) _).symm
    refine ⟨plain, ?_, query, rfl, fun entry member => ?_⟩
    · rw [symbols, plain]
      simp only [Except.map, Except.ok.injEq, entryNames_eq, List.map_map]
      rfl
    · rw [← answered, Listing.mem_uniqueByKey] at member
      obtain ⟨captures, found, matched⟩ :=
        List.mem_filterMap.mp (List.mem_of_find?_eq_some member)
      obtain ⟨cap, captured, isDef, name, same⟩ := matchEntry_eq_some matched
      refine ⟨captures, found, cap, captured, isDef, ?_, ?_, fun signature => ?_⟩
      · rw [same]
        rfl
      · rw [same]
        rfl
      · rw [signatureLaws_iff, same]
        exact Option.some_inj

/-- A Rust file with a macro, whose first rule stands behind the brace. -/
def macroFile : ParsedFile (List Declaration) :=
  let name := nodeAt 1 (some "name") "identifier" (13, 14) (0, 0) []
  let rule := nodeAt 2 none "macro_rule" (19, 27) (1, 1) []
  { language := .rust
    source := encodeUtf8 "macro_rules! m \x7b\n  () => \x7b\x7d;\n\x7d".toList
    tree := [⟨"macro", nodeAt 3 none "macro_definition" (0, 30) (0, 2) [name, rule], name⟩] }

/-- The brace in front of the rule is not a part of the signature. -/
theorem outline_signatures_macro :
    ∃ entries, outline givenQueries macroFile true = .ok entries ∧
      outline givenQueries macroFile false = .ok (entries.map OutlineEntry.unsigned) ∧
      ∀ entry ∈ entries, entry.signature = some "macro_rules! m" := by
  have declare :
      List.Forall₂ Declares (macroFile.tree.map Declaration.captures) macroFile.tree :=
    forall₂_captures (by decide)
  have answered := @outline_eq _ givenQueries macroFile _ macroFile.tree true rfl declare
  obtain ⟨plain, _, query, compiled, each⟩ := outline_signatures answered
  -- The query gives one match, whose two captures are the rule and its name.
  refine ⟨_, answered, plain, fun entry member => ?_⟩
  obtain ⟨captures, found, cap, captured, isDef, _, _, signed⟩ := each entry member
  cases compiled
  rw [List.mem_singleton.mp found, Declaration.captures, List.mem_pair] at captured
  rcases captured with rfl | rfl
  · refine (signed "macro_rules! m").mpr ?_
    -- The head ends where the rule begins, so the brace is still a part of it.
    have head : Node.head (nodeAt 3 none "macro_definition" (0, 30) (0, 2)
        [nodeAt 1 (some "name") "identifier" (13, 14) (0, 0) [],
          nodeAt 2 none "macro_rule" (19, 27) (1, 1) []]) macroFile.source =
        "macro_rules! m \x7b\n  ".toList := by
      decide +kernel
    rw [head]
    refine ⟨by decide +kernel, ⟨[' ', '\x7b'], by decide +kernel, ?_⟩, ?_⟩
    · simp [IsOpenDelimiter]
    · intro last ends
      cases ends
      exact ⟨by decide, by decide⟩
  · cases isDef

end McpCli
