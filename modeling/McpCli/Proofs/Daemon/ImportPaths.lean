import McpCli.Daemon.Imports
import McpCli.Proofs.Daemon.OsPath

/-! The file that a relative import of Python stands for. -/

namespace McpCli

open Text

/-- A name of Python with dots between its parts. -/
structure DottedName where
  parts : List (List Char)
  someParts : parts ≠ []
  words : ∀ part ∈ parts, part ≠ [] ∧ '.' ∉ part ∧ '/' ∉ part

/-- A name behind one dot, and behind so many further ones. -/
def DottedName.relative (name : DottedName) (further : Nat) : List Char :=
  List.replicate (further + 1) '.' ++ ['.'].intercalate name.parts

/-- The file of a module, in a directory. -/
def moduleFile (dir : List UInt8) (part : List Char) : List UInt8 :=
  joinPath dir (part ++ ".py".toList)

/-- The file of a package, in a directory. -/
def packageFile (dir : List UInt8) (part : List Char) : List UInt8 :=
  joinPath (joinPath dir part) "__init__.py".toList

/-- The same file of the last part, in the directories of the others. -/
def below (file : List UInt8 → List Char → List UInt8) (dir : List UInt8) :
    List (List Char) → List UInt8
  | [] => dir
  | [part] => file dir part
  | part :: rest => below file (joinPath dir part) rest

section

variable (tree : FileTree)

/--
The file that a name stands for in a directory: a package is looked for before a module, and
modules are in packages or in directories that are neither.
-/
def pythonFinds (dir : List UInt8) : List (List Char) → Option (List UInt8)
  | [] => none
  | [part] =>
    if tree.kind (packageFile dir part) = some .file then some (packageFile dir part)
    else if tree.kind (moduleFile dir part) = some .file then some (moduleFile dir part)
    else none
  | part :: rest =>
    if tree.kind (packageFile dir part) = some .file then pythonFinds (joinPath dir part) rest
    else if tree.kind (moduleFile dir part) = some .file then none
    else if tree.kind (joinPath dir part) = some .dir then pythonFinds (joinPath dir part) rest
    else none

/-- The directory so many levels above another one. -/
def ancestor (dir : OsPath) (levels : Nat) : Option OsPath :=
  if levels ≤ dir.length then some (dir.take (dir.length - levels)) else none

/-- The file that a relative import stands for, in a file of some directory. -/
def pythonDenotes (baseDir : OsPath) (further : Nat) (name : DottedName) : Option (List UInt8) :=
  (ancestor baseDir further).bind fun dir => pythonFinds tree dir.bytes name.parts

/-- The first file of the name that there is beside the importing file. -/
def foundBeside (baseDir : OsPath) (name : DottedName) : Option (List UInt8) :=
  [below moduleFile baseDir.bytes name.parts, below packageFile baseDir.bytes name.parts].find?
    tree.found

/--
The first file beside the importing one leads out of the root, or to the same file as the one that
the name stands for.
-/
def BesideIsDenoted (root baseDir : OsPath) (further : Nat) (name : DottedName) : Prop :=
  ∀ beside, foundBeside tree baseDir name = some beside →
    shownBelow tree root beside = none ∨
      ∃ file, pythonDenotes tree baseDir further name = some file ∧
        shownBelow tree root file = shownBelow tree root beside

/-- In a directory, there is no more than one way to read a name. -/
def Unambiguous (dir : List UInt8) : List (List Char) → Prop
  | [] => True
  | [part] =>
    if tree.found (moduleFile dir part) then
      tree.kind (moduleFile dir part) = some .file ∧ tree.kind (packageFile dir part) ≠ some .file
    else tree.found (packageFile dir part) → tree.kind (packageFile dir part) = some .file
  | part :: rest =>
    (tree.kind (packageFile dir part) = some .file ∨
      tree.kind (moduleFile dir part) ≠ some .file ∧ tree.kind (joinPath dir part) = some .dir) ∧
    Unambiguous (joinPath dir part) rest

end

/-- A name in a directory does not end in a slash. -/
theorem getLast?_joinPath {dir : List UInt8} {part : List Char} (someChars : part ≠ [])
    (plain : '/' ∉ part) : (joinPath dir part).getLast?.all (· = 0x2F) = false := by
  have first : part.head? ≠ some '/' := fun head => plain (List.mem_of_mem_head? head)
  obtain ⟨front, last, split⟩ : ∃ front last, encodeUtf8 part = front ++ [last] := by
    rcases List.eq_nil_or_concat (encodeUtf8 part) with none_ | ⟨front, last, split⟩
    · have back := decodeLossy_encodeUtf8 part
      rw [none_] at back
      exact absurd back.symm someChars
    · exact ⟨front, last, by rw [split, List.concat_eq_append]⟩
  have other : last ≠ 0x2F := by
    rintro rfl
    have ends : (encodeUtf8 part).getLast? = some 0x2F := by rw [split, List.getLast?_concat]
    exact plain (List.mem_of_getLast? (getLast?_encodeUtf8 (by decide) ends))
  -- Whatever is in front of the name, its last byte is the last one.
  unfold joinPath
  rw [if_neg first, split]
  split
  · rw [← List.append_assoc, List.getLast?_concat]
    simp [other]
  · rw [← List.cons_append, ← List.append_assoc, List.getLast?_concat]
    simp [other]

/-- One step after the other leads to where both lead at once. -/
theorem joinPath_joinPath (dir : List UInt8) {part rel : List Char} (someChars : part ≠ [])
    (plain : '/' ∉ part) (relative : rel.head? ≠ some '/') :
    joinPath (joinPath dir part) rel = joinPath dir (part ++ '/' :: rel) := by
  have first : part.head? ≠ some '/' := fun head => plain (List.mem_of_mem_head? head)
  have both : (part ++ '/' :: rel).head? ≠ some '/' := by
    cases part with
    | nil => exact absurd rfl someChars
    | cons c rest => exact first
  have slash : encodeUtf8 ('/' :: rel) = 0x2F :: encodeUtf8 rel := rfl
  -- The slash that is put between the two is the one of the longer name.
  rw [joinPath, if_neg relative, getLast?_joinPath someChars plain, if_neg (by decide)]
  unfold joinPath
  rw [if_neg first, if_neg both, encodeUtf8_append, slash]
  split
  all_goals simp

/-- The parts are put together first, or one after the other. -/
theorem below_eq (last : List UInt8 → List UInt8) (ext : List Char) (dir : List UInt8)
    {parts : List (List Char)} (someParts : parts ≠ [])
    (words : ∀ part ∈ parts, part ≠ [] ∧ '/' ∉ part) :
    below (fun dir part => last (joinPath dir (part ++ ext))) dir parts =
      last (joinPath dir (['/'].intercalate parts ++ ext)) := by
  -- The first part leads into a directory, in which the others are put together by the induction.
  induction parts generalizing dir with
  | nil => exact absurd rfl someParts
  | cons part rest ih =>
    cases rest with
    | nil => simp [below, List.intercalate]
    | cons next others =>
      obtain ⟨someChars, plain⟩ := words part List.mem_cons_self
      obtain ⟨someNext, plainNext⟩ := words next (by simp)
      have later := ih (joinPath dir part) (List.cons_ne_nil _ _)
        fun p member => words p (List.mem_cons_of_mem _ member)
      have relative : (['/'].intercalate (next :: others) ++ ext).head? ≠ some '/' := by
        cases next with
        | nil => exact absurd rfl someNext
        | cons c rest =>
          rw [List.intercalate_cons_cons_left, List.cons_append, List.head?_cons]
          exact fun same => plainNext (Option.some.inj same ▸ List.mem_cons_self)
      rw [below, later, joinPath_joinPath dir someChars plain relative]
      · rw [List.intercalate_cons_cons]
        simp
      · exact List.cons_ne_nil _ _

namespace DottedName

variable (name : DottedName)

/-- The parts have no slashes in them. -/
theorem paths : ∀ part ∈ name.parts, part ≠ [] ∧ '/' ∉ part :=
  fun part member => ⟨(name.words part member).1, (name.words part member).2.2⟩

/-- The dots in front of a name are cut off, and those inside of it become slashes. -/
theorem trimmed_relative (further : Nat) :
    ((name.relative further).dropWhile (· = '.')).map (fun c => if c = '.' then '/' else c) =
      ['/'].intercalate name.parts := by
  have dots : ∀ c ∈ List.replicate (further + 1) '.', decide (c = '.') = true := by
    intro c member
    rw [List.eq_of_mem_replicate member]
    rfl
  have replaced : ∀ parts : List (List Char), (∀ part ∈ parts, '.' ∉ part) →
      (['.'].intercalate parts).map (fun c => if c = '.' then '/' else c) =
        ['/'].intercalate parts := by
    intro parts plain
    have kept (part : List Char) (plain : '.' ∉ part) :
        part.map (fun c => if c = '.' then '/' else c) = part := by
      have same : ∀ c ∈ part, (if c = '.' then '/' else c) = id c := by
        intro c member
        have other : c ≠ '.' := fun dot => plain (dot ▸ member)
        rw [if_neg other, id]
      rw [List.map_congr_left same, List.map_id]
    induction parts with
    | nil => rfl
    | cons part rest ih =>
      have own := kept part (plain part List.mem_cons_self)
      cases rest with
      | nil => rw [List.intercalate_singleton, List.intercalate_singleton, own]
      | cons next others =>
        have later := ih fun p member => plain p (List.mem_cons_of_mem _ member)
        rw [List.intercalate_cons_cons, List.intercalate_cons_cons, List.map_append,
          List.map_append, own, later]
        rfl
  rw [relative, List.dropWhile_append_of_pos dots]
  obtain ⟨parts, someParts, words⟩ := name
  have plain : ∀ part ∈ parts, '.' ∉ part := fun part member => (words part member).2.1
  have stops : (['.'].intercalate parts).dropWhile (fun c => decide (c = '.')) =
      ['.'].intercalate parts := by
    -- The first part begins with something that is no dot.
    match parts, someParts, words with
    | [] :: rest, _, words => exact absurd rfl (words [] List.mem_cons_self).1
    | (c :: part) :: rest, _, words =>
      have other : c ≠ '.' := fun same =>
        (words (c :: part) List.mem_cons_self).2.1 (same ▸ List.mem_cons_self)
      rw [List.intercalate_cons_cons_left, List.dropWhile_cons_of_neg (by simpa using other)]
  rw [stops]
  exact replaced parts plain

/-- The files that are looked for are beside the importing file, however many dots there are. -/
theorem pythonCandidates_relative (dir : List UInt8) (further : Nat) :
    pythonCandidates dir (name.relative further) =
      [below moduleFile dir name.parts, below packageFile dir name.parts] := by
  have module := below_eq id ".py".toList dir name.someParts name.paths
  have package := below_eq (joinPath · "__init__.py".toList) [] dir name.someParts name.paths
  simp only [List.append_nil] at package
  -- The two files differ in what is put behind the last part.
  unfold pythonCandidates
  simp only [name.trimmed_relative]
  exact congrArg₂ (fun file other => [file, other]) module.symm package.symm

end DottedName

section

variable (tree : FileTree) (root baseDir : OsPath) (name : DottedName)

/-- What is returned is the first file of the name beside the importing file. -/
theorem resolveImportPath_python (further : Nat) :
    resolveImportPath tree root (name.relative further) baseDir .python =
      (foundBeside tree baseDir name).bind (shownBelow tree root) := by
  have dot : (name.relative further).head? = some '.' := by
    rw [DottedName.relative, List.replicate_succ, List.cons_append, List.head?_cons]
  simp only [resolveImportPath, importCandidates, if_pos dot, name.pythonCandidates_relative,
    foundBeside]

/-- If there is only one way to read a name, the first file of it is the one that it stands for. -/
theorem pythonFinds_of_unambiguous {dir : List UInt8} {parts : List (List Char)}
    (someParts : parts ≠ []) (unambiguous : Unambiguous tree dir parts) {file : List UInt8}
    (found : [below moduleFile dir parts, below packageFile dir parts].find? tree.found =
      some file) : pythonFinds tree dir parts = some file := by
  -- The directories on the way are entered by the name as by the path.
  induction parts generalizing dir with
  | nil => exact absurd rfl someParts
  | cons part rest ih =>
    cases rest with
    | nil =>
      simp only [below, Unambiguous] at found unambiguous
      by_cases module : tree.found (moduleFile dir part) = true
      · rw [if_pos module] at unambiguous
        rw [List.find?_cons_of_pos module, Option.some.injEq] at found
        rw [pythonFinds, if_neg unambiguous.2, if_pos unambiguous.1, found]
      · rw [if_neg module] at unambiguous
        rw [List.find?_cons_of_neg module] at found
        have package := List.find?_some found
        obtain rfl : file = packageFile dir part := by simpa using List.mem_of_find?_eq_some found
        rw [pythonFinds, if_pos (unambiguous package)]
    | cons next others =>
      obtain ⟨here, later⟩ := unambiguous
      have inside := ih (List.cons_ne_nil _ _) later found
      rw [pythonFinds]
      · rcases here with package | ⟨module, isDir⟩
        · rw [if_pos package, inside]
        · rw [if_neg module, if_pos isDir, inside]
          simp
      · exact List.cons_ne_nil _ _

/-- With one dot, a name that can be read in one way only stands for what is found. -/
theorem besideIsDenoted_of_unambiguous
    (unambiguous : Unambiguous tree baseDir.bytes name.parts) :
    BesideIsDenoted tree root baseDir 0 name := by
  intro beside found
  have finds := pythonFinds_of_unambiguous tree name.someParts unambiguous found
  have here : ancestor baseDir 0 = some baseDir := by simp [ancestor]
  exact .inr ⟨beside, by rw [pythonDenotes, here, Option.bind_some, finds], rfl⟩

/--
A relative import is resolved to the file that it stands for exactly if no other file of this name
is beside the importing file. With one dot there is none, if the name can be read in one way only.
-/
theorem relative_import_denoted (further : Nat) :
    ((∀ path, resolveImportPath tree root (name.relative further) baseDir .python = some path →
        ∃ file, pythonDenotes tree baseDir further name = some file ∧
          shownBelow tree root file = some path) ↔
      BesideIsDenoted tree root baseDir further name) ∧
    (Unambiguous tree baseDir.bytes name.parts → BesideIsDenoted tree root baseDir 0 name) := by
  refine ⟨?_, besideIsDenoted_of_unambiguous tree root baseDir name⟩
  -- What is returned does not depend on the number of dots, and what is denoted does.
  rw [resolveImportPath_python]
  constructor
  · intro denoted beside found
    rw [found, Option.bind_some] at denoted
    cases shown : shownBelow tree root beside with
    | none => exact .inl rfl
    | some path => exact .inr (denoted path shown)
  · intro same path returned
    obtain ⟨beside, found, shown⟩ := Option.bind_eq_some_iff.mp returned
    rcases same beside found with outside | ⟨file, denotes, equal⟩
    · rw [outside] at shown
      cases shown
    · exact ⟨file, denotes, equal.trans shown⟩

end

/-- The name of one module. -/
def utilName : DottedName where
  parts := ["util".toList]
  someParts := List.cons_ne_nil _ _
  words := by
    intro part member
    rw [List.mem_singleton] at member
    subst member
    decide

/-- A module `util` in a package, and another one in a package inside of it. -/
def twoUtils : FileTree :=
  .plain
    [(osPath ["p", "pkg", "util.py"], []), (osPath ["p", "pkg", "sub", "util.py"], [])]
    [osPath ["p", "pkg"], osPath ["p", "pkg", "sub"]]

/-- With two dots, the sibling of the importing file is found instead of the module above it. -/
theorem not_denoted_sibling :
    resolveImportPath twoUtils (osPath ["p"]) (utilName.relative 1) (osPath ["p", "pkg", "sub"])
        .python = some "pkg/sub/util.py" ∧
      ¬ ∃ file, pythonDenotes twoUtils (osPath ["p", "pkg", "sub"]) 1 utilName = some file ∧
        shownBelow twoUtils (osPath ["p"]) file = some "pkg/sub/util.py" := by
  refine ⟨by decide, ?_⟩
  rintro ⟨file, denotes, shown⟩
  -- The name stands for the module in the outer package.
  have outer : (pythonDenotes twoUtils (osPath ["p", "pkg", "sub"]) 1 utilName).bind
      (shownBelow twoUtils (osPath ["p"])) = some "pkg/util.py" := by decide
  rw [denotes, Option.bind_some, shown, Option.some.injEq] at outer
  exact absurd outer (by decide)

/-- With one dot, the sibling is what the name stands for. -/
theorem relative_import_denoted_sibling :
    ∃ file, pythonDenotes twoUtils (osPath ["p", "pkg", "sub"]) 0 utilName = some file ∧
      shownBelow twoUtils (osPath ["p"]) file = some "pkg/sub/util.py" := by
  have both := relative_import_denoted twoUtils (osPath ["p"]) (osPath ["p", "pkg", "sub"])
    utilName 0
  -- There is one file of this name beside the importing file, and no package.
  have unambiguous :
      Unambiguous twoUtils (osPath ["p", "pkg", "sub"]).bytes utilName.parts := by
    show if _ then _ else _
    decide
  exact both.1.mpr (both.2 unambiguous) _ (by decide)

end McpCli
