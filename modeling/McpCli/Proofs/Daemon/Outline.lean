import Mathlib.Data.List.Forall2
import McpCli.Daemon.Outline

/-! Which of the declarations that a query captures are in the outline. -/

namespace McpCli

/-- A declaration that a match of the outline query captures, and the node of its name. -/
structure Declaration where
  kind : String
  node : Node
  name : Node

/-- Of what a match captures, a declaration and its name are all that is anything to the outline. -/
def Declares (captures : List Capture) (declaration : Declaration) : Prop :=
  let meant := captures.filterMap fun cap =>
    (CaptureMeta.fromCaptureName cap.name).map fun captureMeta => (captureMeta, cap.node)
  -- The name can be captured in front of the declaration.
  meant = [(.defn declaration.kind, declaration.node), (.name, declaration.name)] ∨
    meant = [(.name, declaration.name), (.defn declaration.kind, declaration.node)]

namespace Declaration

/-- What entries of the outline are sorted and told apart by. -/
def bytes (declaration : Declaration) : ℕ ×ₗ ℕ :=
  toLex (declaration.node.startByte, declaration.node.endByte)

/-- The name is a text. -/
def readable (source : List UInt8) (declaration : Declaration) : Bool :=
  (declaration.name.utf8Text source).isSome

/-- The entry of a declaration with a name that is a text. -/
def entry (source : List UInt8) (signatures : Bool) (declaration : Declaration) : OutlineEntry :=
  outlineEntry source signatures declaration.node declaration.kind
    ((declaration.name.utf8Text source).getD "")

/-- In the order of the query, a declaration is the first one that takes its bytes. -/
def Leads (declarations : List Declaration) (declaration : Declaration) : Prop :=
  declarations.find? (fun other => other.bytes = declaration.bytes) = some declaration

end Declaration

/-- The declarations that the entries of an outline are of. -/
def shown (source : List UInt8) (declarations : List Declaration) : List Declaration :=
  Listing.uniqueByKey Declaration.bytes (declarations.filter (Declaration.readable source))

/-- Every declared name has one of the declarations, and none of them has two. -/
def OneForEachName (declarations chosen : List Declaration) : Prop :=
  (∀ declaration ∈ declarations, declaration.name ∈ chosen.map Declaration.name) ∧
    (chosen.map Declaration.name).Nodup

/-- Every name is the one of a first declaration, and all first declarations of it take one range. -/
def LedOnce (declarations : List Declaration) : Prop :=
  (∀ declaration ∈ declarations,
    ∃ lead : Declaration, lead.Leads declarations ∧ lead.name = declaration.name) ∧
  ∀ lead other : Declaration, lead.Leads declarations → other.Leads declarations →
    lead.name = other.name → lead.bytes = other.bytes

/-- What a capture that is something to the outline adds to what a match has given so far. -/
def Captured.note (source : List UInt8) (captured : Captured) : CaptureMeta × Node → Captured
  | (.defn kind, node) => { captured with defNode := some node, defKind := some kind }
  | (.name, node) =>
    match node.utf8Text source with
    | some text => { captured with nameText := some text }
    | none => captured

/-- A match gives what its captures give that are something to the outline. -/
theorem foldl_add (source : List UInt8) (captures : List Capture) (captured : Captured) :
    captures.foldl (Captured.add source) captured =
      (captures.filterMap fun cap =>
        (CaptureMeta.fromCaptureName cap.name).map fun captureMeta => (captureMeta, cap.node)).foldl
        (Captured.note source) captured := by
  -- The other captures are passed over.
  induction captures generalizing captured with
  | nil => rfl
  | cons cap captures ih =>
    rw [List.foldl_cons, ih, List.filterMap_cons, Captured.add]
    cases CaptureMeta.fromCaptureName cap.name with
    | none => rfl
    | some captureMeta => cases captureMeta <;> rfl

/-- A match gives the entry of the declaration that it captures, if the name is a text. -/
theorem matchEntry_of_declares {source : List UInt8} {signatures : Bool} {captures : List Capture}
    {declaration : Declaration} (declares : Declares captures declaration) :
    matchEntry source signatures captures =
      if declaration.readable source then some (declaration.entry source signatures) else none := by
  rw [matchEntry, foldl_add, Declaration.readable, Declaration.entry]
  -- The two captures are independent of each other.
  rcases declares with meant | meant <;>
    (rw [meant]
     cases text : declaration.name.utf8Text source <;>
       simp [Captured.note, text])

/-- The matches give the entries of the declarations with names that are texts. -/
theorem filterMap_matchEntry {source : List UInt8} {signatures : Bool}
    {found : List (List Capture)} {declarations : List Declaration}
    (declare : List.Forall₂ Declares found declarations) :
    found.filterMap (matchEntry source signatures) =
      (declarations.filter (Declaration.readable source)).map
        (Declaration.entry source signatures) := by
  -- Each match gives the entry of its declaration or none.
  induction declare with
  | nil => rfl
  | cons declares _ ih =>
    rw [List.filterMap_cons, matchEntry_of_declares declares, List.filter_cons, ih]
    split <;> simp_all

variable {Tree : Type} {libs : TreeQueries Tree} {parsed : ParsedFile Tree}
  {query : Tree → List UInt8 → List (List Capture)} {declarations : List Declaration}

/-- The outline is what is shown of the declarations. -/
theorem outline_eq (signatures : Bool)
    (compiled : libs.compile parsed.language parsed.language.outlineQuery = .ok query)
    (declare : List.Forall₂ Declares (query parsed.tree parsed.source) declarations) :
    outline libs parsed signatures =
      .ok ((shown parsed.source declarations).map (Declaration.entry parsed.source signatures)) := by
  -- Sorting and dropping doubles only look at the bytes of an entry.
  rw [outline, compiled]
  simp only
  rw [filterMap_matchEntry declare, shown, Listing.map_uniqueByKey]
  intro declaration
  rfl

/-- The order of entries is the one of their bytes. -/
theorem CodeOutlineEntry.before_eq (entry other : CodeOutlineEntry) :
    entry.before other = decide (entry.bytes ≤ other.bytes) := by
  rw [Bool.eq_iff_iff, decide_eq_true_eq, CodeOutlineEntry.bytes, CodeOutlineEntry.bytes,
    Prod.Lex.toLex_le_toLex]
  simp [CodeOutlineEntry.before]

/-- Entries that take the same bytes are those with the same key. -/
theorem dedupByBytes_eq (entries : List CodeOutlineEntry) :
    dedupByBytes entries = Listing.dedupByKey CodeOutlineEntry.bytes entries := by
  -- Both compare the bytes of neighbours.
  induction entries with
  | nil => rfl
  | cons entry entries ih =>
    rw [dedupByBytes, Listing.dedupByKey, ih]
    cases Listing.dedupByKey CodeOutlineEntry.bytes entries with
    | nil => rfl
    | cons next others =>
      simp only [CodeOutlineEntry.bytes, EmbeddingLike.apply_eq_iff_eq, Prod.mk.injEq]

/-- Of what an outline has, a skeleton reads entries that are sorted and without doubles. -/
theorem outline_toCodeOutlineEntry {signatures : Bool} {entries : List OutlineEntry}
    (ok : outline libs parsed signatures = .ok entries) :
    ∃ captured, entries.map OutlineEntry.toCodeOutlineEntry = sortedOutline captured := by
  rw [outline] at ok
  cases compiled : libs.compile parsed.language parsed.language.outlineQuery with
  | error e => simp [compiled] at ok
  | ok query =>
    simp only [compiled, Except.ok.injEq] at ok
    refine ⟨((query parsed.tree parsed.source).filterMap
      (matchEntry parsed.source signatures)).map OutlineEntry.toCodeOutlineEntry, ?_⟩
    rw [← ok, Listing.map_uniqueByKey fun _ => rfl, sortedOutline, dedupByBytes_eq,
      Listing.uniqueByKey, Listing.sortByKey]
    -- The two ways to write the order down are the same.
    congr 2
    funext entry other
    exact (CodeOutlineEntry.before_eq entry other).symm

/-- The names of entries are those that are listed. -/
theorem mem_entryNames {name : String} {entries : List OutlineEntry} :
    name ∈ entryNames entries ↔ ∃ entry ∈ entries, entry.name = name := by
  -- A pass of the loop adds the name of its entry, if it is not there.
  suffices loop : ∀ names, name ∈ entries.foldl (fun names entry =>
      if entry.name ∈ names then names else names ++ [entry.name]) names ↔
      name ∈ names ∨ ∃ entry ∈ entries, entry.name = name by
    simpa [entryNames] using loop []
  induction entries with
  | nil => simp
  | cons entry entries ih =>
    intro names
    rw [List.foldl_cons, ih]
    split <;> grind

/-- A declaration is shown if it is the first one with its bytes, when all names are texts. -/
theorem mem_shown {source : List UInt8} {declaration : Declaration}
    (readable : ∀ declaration ∈ declarations, declaration.readable source) :
    declaration ∈ shown source declarations ↔ declaration.Leads declarations := by
  rw [shown, List.filter_eq_self.mpr readable, Listing.mem_uniqueByKey, Declaration.Leads]

/-- What is sorted and has names that are texts is shown, but for what has the bytes before it. -/
theorem shown_of_pairwise {source : List UInt8} {declarations : List Declaration}
    (readable : ∀ declaration ∈ declarations, declaration.readable source)
    (sorted : declarations.Pairwise fun lead other => lead.bytes ≤ other.bytes) :
    shown source declarations = Listing.dedupByKey Declaration.bytes declarations := by
  rw [shown, List.filter_eq_self.mpr readable, Listing.uniqueByKey_of_pairwise sorted]

/-- What is shown has a name that is a text. -/
theorem readable_of_mem_shown {source : List UInt8} {declaration : Declaration}
    (mem : declaration ∈ shown source declarations) : declaration.readable source := by
  rw [shown, Listing.mem_uniqueByKey] at mem
  exact (List.mem_filter.mp (List.mem_of_find?_eq_some mem)).2

/-- No name is shown twice if what is shown of one name has the same bytes. -/
theorem nodup_shown_iff {source : List UInt8} :
    ((shown source declarations).map Declaration.name).Nodup ↔
      ∀ lead ∈ shown source declarations, ∀ other ∈ shown source declarations,
        lead.name = other.name → lead.bytes = other.bytes := by
  -- What is shown is told apart by its bytes.
  rw [shown, List.nodup_map_iff_inj_on (Listing.nodup_uniqueByKey _ _)]
  constructor
  · intro inj lead mem other mem' same
    rw [inj lead mem other mem' same]
  · intro apart lead mem other mem' same
    exact Listing.uniqueByKey_inj mem mem' (apart lead mem other mem' same)

/-- When an outline has one entry for each declared name. -/
theorem oneForEachName_shown_iff {source : List UInt8} :
    OneForEachName declarations (shown source declarations) ↔
      (∀ declaration ∈ declarations, declaration.readable source) ∧ LedOnce declarations := by
  rw [OneForEachName, nodup_shown_iff, LedOnce]
  constructor
  · intro one
    obtain ⟨all, apart⟩ := one
    -- A name is a text because it is the one of a declaration that is shown.
    have readable : ∀ declaration ∈ declarations, declaration.readable source := by
      intro declaration mem
      obtain ⟨lead, mem_lead, name⟩ := List.mem_map.mp (all declaration mem)
      have readable := readable_of_mem_shown mem_lead
      rwa [Declaration.readable, name] at readable
    refine ⟨readable, ?_, ?_⟩
    · intro declaration mem
      obtain ⟨lead, mem_lead, name⟩ := List.mem_map.mp (all declaration mem)
      exact ⟨lead, (mem_shown readable).mp mem_lead, name⟩
    · intro lead other leads leads'
      exact apart lead ((mem_shown readable).mpr leads) other ((mem_shown readable).mpr leads')
  · intro condition
    obtain ⟨readable, led, apart⟩ := condition
    refine ⟨?_, ?_⟩
    · intro declaration mem
      obtain ⟨lead, leads, name⟩ := led declaration mem
      exact List.mem_map.mpr ⟨lead, (mem_shown readable).mpr leads, name⟩
    · intro lead mem other mem'
      exact apart lead other ((mem_shown readable).mp mem) ((mem_shown readable).mp mem')

/-- A name that has a declaration which is shown is one of the symbols. -/
theorem name_mem_symbols {source : List UInt8} {declaration : Declaration}
    (mem : declaration.name ∈ (shown source declarations).map Declaration.name) :
    ∃ name ∈ entryNames ((shown source declarations).map (Declaration.entry source false)),
      declaration.name.utf8Text source = some name := by
  -- The entry is that of the declaration with the same name node.
  obtain ⟨lead, mem_lead, same⟩ := List.mem_map.mp mem
  obtain ⟨name, text⟩ := Option.isSome_iff_exists.mp (readable_of_mem_shown mem_lead)
  rw [← same]
  refine ⟨name, mem_entryNames.mpr ⟨_, List.mem_map_of_mem mem_lead, ?_⟩, text⟩
  simp [Declaration.entry, outlineEntry, text]

/--
Every declared name has one entry, and is a symbol, under a condition on the matches only.

Every name is a text.
Every name is the one of a match that comes first among those with its bytes.
Two such matches with one name have the same bytes.
-/
theorem outline_names_iff (signatures : Bool)
    (compiled : libs.compile parsed.language parsed.language.outlineQuery = .ok query)
    (declare : List.Forall₂ Declares (query parsed.tree parsed.source) declarations) :
    ∃ names,
      outline libs parsed signatures =
        .ok ((shown parsed.source declarations).map (Declaration.entry parsed.source signatures)) ∧
      symbols libs parsed = .ok names ∧
      ((OneForEachName declarations (shown parsed.source declarations) ∧
          ∀ declaration ∈ declarations,
            ∃ name ∈ names, declaration.name.utf8Text parsed.source = some name) ↔
        (∀ declaration ∈ declarations, declaration.readable parsed.source) ∧
          LedOnce declarations) := by
  -- The entries are those of what is shown, so the question is which names these have.
  refine ⟨entryNames ((shown parsed.source declarations).map
    (Declaration.entry parsed.source false)), outline_eq signatures compiled declare, ?_, ?_⟩
  · rw [symbols, outline_eq false compiled declare]
    rfl
  · -- The symbols are the names of the entries, so they follow from these.
    refine Iff.trans ⟨And.left, fun one => ⟨one, fun declaration mem => ?_⟩⟩
      oneForEachName_shown_iff
    exact name_mem_symbols (one.1 declaration mem)

/-- A kind is read back from the name that a query captures it under. -/
theorem fromCaptureName_def :
    ∀ kind ∈ defKinds, CaptureMeta.fromCaptureName ("def." ++ kind) = some (.defn kind) := by
  decide

/-- The captures of a declaration and its name, as a pattern of the queries has them. -/
def Declaration.captures (declaration : Declaration) : List Capture :=
  [⟨"def." ++ declaration.kind, declaration.node⟩, ⟨"name", declaration.name⟩]

/-- These captures are the ones of the declaration. -/
theorem declares_captures {declaration : Declaration} (kind : declaration.kind ∈ defKinds) :
    Declares declaration.captures declaration := by
  left
  simp only [Declaration.captures, List.filterMap_cons, fromCaptureName_def _ kind]
  rfl

/-- A match for each declaration, with these captures. -/
theorem forall₂_captures {declarations : List Declaration}
    (kinds : ∀ declaration ∈ declarations, declaration.kind ∈ defKinds) :
    List.Forall₂ Declares (declarations.map Declaration.captures) declarations := by
  rw [List.forall₂_map_left_iff]
  refine List.forall₂_same.mpr fun declaration mem => ?_
  exact declares_captures (kinds declaration mem)

/-- Queries that find given declarations in a tree. -/
def givenQueries : TreeQueries (List Declaration) where
  compile := fun _ _ => .ok fun declarations _ => declarations.map Declaration.captures

/-- A node of a kind, from one byte to another one and from one row to another one. -/
def nodeAt (id : Nat) (field : Option String) (kind : String) (bytes rows : Nat × Nat)
    (children : List Node) : Node where
  id := id
  kind := kind
  field := field
  named := true
  startByte := bytes.1
  endByte := bytes.2
  startRow := rows.1
  endRow := rows.2
  children := children

/-- A Rust file with two functions. -/
def functionsFile : ParsedFile (List Declaration) :=
  let a := nodeAt 1 (some "name") "identifier" (3, 4) (0, 0) []
  let b := nodeAt 2 (some "name") "identifier" (13, 14) (1, 1) []
  { language := .rust
    source := Text.encodeUtf8 "fn a() {}\nfn b() {}".toList
    tree := [⟨"function", nodeAt 3 none "function_item" (0, 9) (0, 0) [a], a⟩,
      ⟨"function", nodeAt 4 none "function_item" (10, 19) (1, 1) [b], b⟩] }

/-- Functions with names and bytes of their own. -/
theorem outline_names_functions :
    symbols givenQueries functionsFile = .ok ["a", "b"] ∧
      OneForEachName functionsFile.tree (shown functionsFile.source functionsFile.tree) := by
  have declare :
      List.Forall₂ Declares (functionsFile.tree.map Declaration.captures) functionsFile.tree :=
    forall₂_captures (by decide)
  have all_shown : shown functionsFile.source functionsFile.tree = functionsFile.tree :=
    shown_of_pairwise (by decide) (by decide)
  have led : LedOnce functionsFile.tree := by
    refine ⟨fun declaration mem => ⟨declaration, ?_, rfl⟩, fun lead other leads leads' same => ?_⟩
    · rcases List.mem_pair.mp mem with rfl | rfl <;> rfl
    · -- The names of the two are different nodes.
      rcases List.mem_pair.mp (List.mem_of_find?_eq_some leads) with rfl | rfl <;>
        rcases List.mem_pair.mp (List.mem_of_find?_eq_some leads') with rfl | rfl <;>
        simp_all [nodeAt]
  obtain ⟨names, -, -, iff⟩ :=
    @outline_names_iff _ givenQueries functionsFile _ functionsFile.tree false rfl declare
  refine ⟨?_, (iff.mpr ⟨by decide, led⟩).1⟩
  rw [symbols, outline_eq false rfl declare, all_shown]
  rfl

/-- A Go file with two constants in a group. -/
def groupFile : ParsedFile (List Declaration) :=
  let a := nodeAt 1 (some "name") "identifier" (9, 10) (1, 1) []
  let b := nodeAt 2 (some "name") "identifier" (16, 17) (2, 2) []
  let group := nodeAt 3 none "const_declaration" (0, 23) (0, 3)
    [nodeAt 4 none "const_spec" (9, 14) (1, 1) [a], nodeAt 5 none "const_spec" (16, 21) (2, 2) [b]]
  { language := .go
    source := Text.encodeUtf8 "const (\n\ta = 1\n\tb = 2\n)".toList
    tree := [⟨"constant", group, a⟩, ⟨"constant", group, b⟩] }

/-- A Python file with a decorated function. -/
def decoratedFile : ParsedFile (List Declaration) :=
  let f := nodeAt 1 (some "name") "identifier" (7, 8) (1, 1) []
  let definition := nodeAt 2 (some "definition") "function_definition" (3, 16) (1, 1) [f]
  let decorated := nodeAt 3 none "decorated_definition" (0, 16) (0, 1) [definition]
  { language := .python
    source := Text.encodeUtf8 "@d\ndef f(): pass".toList
    tree := [⟨"function", decorated, f⟩, ⟨"function", definition, f⟩] }

/-- There is one entry for the group, of which one name is lost; a decorated function has two. -/
theorem outline_group_decorated :
    List.Forall₂ Declares (groupFile.tree.map Declaration.captures) groupFile.tree ∧
      groupFile.tree.map (fun declaration => declaration.name.utf8Text groupFile.source) =
        [some "a", some "b"] ∧
      symbols givenQueries groupFile = .ok ["a"] ∧
      ¬ OneForEachName groupFile.tree (shown groupFile.source groupFile.tree) ∧
    List.Forall₂ Declares (decoratedFile.tree.map Declaration.captures) decoratedFile.tree ∧
      (outline givenQueries decoratedFile false).map (List.map fun entry => entry.name) =
        .ok ["f", "f"] ∧
      ¬ OneForEachName decoratedFile.tree (shown decoratedFile.source decoratedFile.tree) := by
  have group : List.Forall₂ Declares (groupFile.tree.map Declaration.captures) groupFile.tree :=
    forall₂_captures (by decide)
  have decorated :
      List.Forall₂ Declares (decoratedFile.tree.map Declaration.captures) decoratedFile.tree :=
    forall₂_captures (by decide)
  have group_shown : shown groupFile.source groupFile.tree = groupFile.tree.take 1 :=
    shown_of_pairwise (by decide) (by decide)
  have decorated_shown : shown decoratedFile.source decoratedFile.tree = decoratedFile.tree :=
    shown_of_pairwise (by decide) (by decide)
  -- The second constant is not shown, and the function is shown twice.
  refine ⟨group, rfl, ?_, ?_, decorated, ?_, ?_⟩
  · rw [symbols, outline_eq false rfl group, group_shown]
    rfl
  · rw [group_shown]
    intro one
    have lost := one.1 _ (List.mem_cons_of_mem _ List.mem_cons_self)
    simp [groupFile, nodeAt] at lost
  · rw [outline_eq false rfl decorated, decorated_shown]
    rfl
  · rw [decorated_shown]
    intro one
    have twice := one.2
    simp [decoratedFile] at twice

end McpCli
