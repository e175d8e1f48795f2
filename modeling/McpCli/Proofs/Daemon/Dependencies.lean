import McpCli.Daemon.Imports
import McpCli.Listing.ByKey

/-! The focus of `code.dependencies`, and how it is spelled. -/

namespace McpCli

open Text

section

variable (tree : FileTree) (root : OsPath) (yielded : List (Option DirEntry)) (maxFiles : Option Nat)

/-- The files that are scanned, as they are written in the edges. -/
def scannedFiles : List String :=
  (sourceFiles root.names (maxFiles.getD dependenciesMaxFiles) yielded).map "/".intercalate

/-- No scanned file that is written like this imports one, and no import leads to one. -/
def NoEdgeAt (focus : String) : Prop :=
  ∀ path ∈ scannedFiles root yielded maxFiles, ∀ result, codeImports tree root path = .ok result →
    ∀ entry ∈ result.imports, ∀ target, entry.resolvedPath = some target →
      path ≠ focus ∧ target ≠ focus

/-- An edge is an import of a scanned file that is resolved. -/
theorem mem_edgesFrom {path : String} {edge : DependencyEdge} :
    edge ∈ edgesFrom tree root path ↔
      edge.source = path ∧ ∃ result, codeImports tree root path = .ok result ∧
        ∃ entry ∈ result.imports, entry.resolvedPath = some edge.target ∧
          edge.module = entry.module ∧ edge.line = entry.line := by
  unfold edgesFrom
  -- A file that cannot be read has no edges.
  split
  · rename_i error
    simp [error]
  · rename_i result imported
    simp only [List.mem_filterMap, Option.map_eq_some_iff, imported]
    constructor
    · rintro ⟨entry, member, target, resolved, rfl⟩
      exact ⟨rfl, result, rfl, entry, member, resolved, rfl, rfl⟩
    · rintro ⟨rfl, result, same, entry, member, resolved, module, line⟩
      cases same
      refine ⟨entry, member, edge.target, resolved, ?_⟩
      rw [← module, ← line]

/-- No edge begins or ends at a file that is written like this. -/
theorem noEdgeAt_iff (focus : String) :
    NoEdgeAt tree root yielded maxFiles focus ↔
      ∀ edge ∈ (scannedFiles root yielded maxFiles).flatMap (edgesFrom tree root),
        edge.source ≠ focus ∧ edge.target ≠ focus := by
  -- An edge is an import of a scanned file, and the other way around.
  constructor
  · intro apart edge member
    obtain ⟨path, scanned, inside⟩ := List.mem_flatMap.mp member
    obtain ⟨rfl, result, imported, entry, own, resolved, -, -⟩ :=
      (mem_edgesFrom tree root).mp inside
    exact apart _ scanned result imported entry own _ resolved
  · intro apart path scanned result imported entry own target resolved
    have edge : ({ source := path, target, module := entry.module, line := entry.line } :
        DependencyEdge) ∈ edgesFrom tree root path :=
      (mem_edgesFrom tree root).mpr ⟨rfl, result, imported, entry, own, resolved, rfl, rfl⟩
    exact apart _ (List.mem_flatMap.mpr ⟨path, scanned, edge⟩)

/--
Two focus paths have the same dependencies and dependents exactly if they are written in the same
way, or if there is no edge at either of them as it is written.
-/
theorem focus_spelling_iff (focus other : String) :
    codeDependencies tree root yielded { path := some focus, maxFiles } =
        codeDependencies tree root yielded { path := some other, maxFiles } ↔
      focus = other ∨
        NoEdgeAt tree root yielded maxFiles focus ∧ NoEdgeAt tree root yielded maxFiles other := by
  rw [noEdgeAt_iff, noEdgeAt_iff]
  have result (focus : String) :
      codeDependencies tree root yielded { path := some focus, maxFiles } =
        { filesScanned := (scannedFiles root yielded maxFiles).length,
          dependencies := ((scannedFiles root yielded maxFiles).flatMap
            (edgesFrom tree root)).filter fun edge => edge.source = focus,
          dependents := ((scannedFiles root yielded maxFiles).flatMap
            (edgesFrom tree root)).filter fun edge => edge.target = focus } := rfl
  -- The files that were scanned are the same, so that the two lists decide.
  rw [result, result, CodeDependenciesResult.mk.injEq]
  simp only [true_and, Listing.filter_key_eq_iff]
  constructor
  · rintro ⟨same | sources, same' | targets⟩
    · exact .inl same
    · exact .inl same
    · exact .inl same'
    · exact .inr ⟨fun edge member => ⟨(sources edge member).1, (targets edge member).1⟩,
        fun edge member => ⟨(sources edge member).2, (targets edge member).2⟩⟩
  · rintro (same | ⟨first, second⟩)
    · exact ⟨.inl same, .inl same⟩
    · exact ⟨.inr fun edge member => ⟨(first edge member).1, (second edge member).1⟩,
        .inr fun edge member => ⟨(first edge member).2, (second edge member).2⟩⟩

end

/-- A file that imports another one. -/
def importing : FileTree :=
  .plain
    [([encodeUtf8 "p".toList, encodeUtf8 "a.ts".toList], "import b from './b';".toList),
      ([encodeUtf8 "p".toList, encodeUtf8 "b.ts".toList], [])]
    [[encodeUtf8 "p".toList]]

/-- The same file has a dependency if it is written plainly, and none behind a dot. -/
theorem focus_spelling_differs :
    let root : OsPath := [encodeUtf8 "p".toList]
    let yielded := [some { path := ["a.ts"], isFile := true },
      some { path := ["b.ts"], isFile := true }]
    let resolve (focus : String) :=
      resolveWithin root focus (importing.canonicalize (joinPath root.bytes focus.toList))
    let dependencies (focus : String) :=
      (codeDependencies importing root yielded { path := some focus, maxFiles := none }).dependencies
    (resolve "a.ts").toOption = some [encodeUtf8 "p".toList, encodeUtf8 "a.ts".toList] ∧
      (resolve "./a.ts").toOption = (resolve "a.ts").toOption ∧
      dependencies "a.ts" =
        [{ source := "a.ts", target := "b.ts", module := "./b", line := 1 }] ∧
      dependencies "./a.ts" = [] := by
  decide

end McpCli
