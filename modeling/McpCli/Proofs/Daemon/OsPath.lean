import McpCli.Daemon.OsPath
import McpCli.Daemon.Watcher

/-! Paths whose names are all texts, which are told by how they are shown and recorded. -/

namespace McpCli

open Text

/-- A path of these names. -/
def osPath (names : List String) : OsPath := names.map fun name => encodeUtf8 name.toList

namespace OsPath

/-- Texts are joined as bytes as they are joined as characters. -/
theorem joined_encode (names : List (List Char)) :
    joined (names.map encodeUtf8) = encodeUtf8 (['/'].intercalate names) := by
  induction names with
  | nil => rfl
  | cons name rest ih =>
    -- A separator stands between two names only.
    cases rest with
    | nil => simp [joined]
    | cons other rest =>
      rw [joined, List.map_cons] at ih ⊢
      rw [List.map_cons, List.intercalate_cons_cons, ih, List.intercalate_cons_cons,
        encodeUtf8_append, encodeUtf8_append]
      rfl

/-- Joined names come apart at the slashes again. -/
theorem intercalate_inj {names others : List (List Char)}
    (some_ : ∀ name ∈ names, name ≠ [] ∧ '/' ∉ name)
    (some' : ∀ name ∈ others, name ≠ [] ∧ '/' ∉ name)
    (same : ['/'].intercalate names = ['/'].intercalate others) : names = others := by
  -- What is shown is cut at the slashes again, unless there is nothing in it.
  have back (names : List (List Char)) (some_ : ∀ name ∈ names, name ≠ [] ∧ '/' ∉ name) :
      names = ((['/'].intercalate names).splitOn '/').filter (· ≠ []) := by
    by_cases empty : names = []
    · subst empty
      rfl
    · rw [List.splitOn_intercalate '/' (fun name member => (some_ name member).2) empty,
        List.filter_eq_self.mpr fun name member => decide_eq_true (some_ name member).1]
  rw [back names some_, same, ← back others some']

end OsPath

/-- Of a path whose names are texts, the watcher records the names below the root. -/
theorem Filter.recordedBelow_relative {Content : Type} (filter : Filter Content) (path : AbsPath) :
    (osPath path).recordedBelow (osPath filter.root) =
      (filter.relative path).map fun rel => ['/'].intercalate (rel.map String.toList) := by
  -- No two texts have the same bytes, so that the root is in front of both or of neither.
  have below : osPath filter.root <+: osPath path ↔ filter.root <+: path := by
    refine List.prefix_map_iff_of_injective fun name other same => ?_
    exact String.toList_injective (encodeUtf8_inj same)
  simp only [OsPath.recordedBelow, Filter.relative, stripPrefix, below]
  split
  · have rest : (osPath path).drop (osPath filter.root).length =
        ((path.drop filter.root.length).map String.toList).map encodeUtf8 := by
      simp [osPath, Function.comp_def]
    rw [rest, OsPath.joined_encode, decodeLossy_encodeUtf8]
    rfl
  · rfl

/-- Paths below the root whose names are texts are recorded apart. -/
theorem Filter.recordedBelow_inj {Content : Type} (filter : Filter Content) {path other : AbsPath}
    (names : ∀ name ∈ path, name ≠ "" ∧ '/' ∉ name.toList)
    (names' : ∀ name ∈ other, name ≠ "" ∧ '/' ∉ name.toList) (below : filter.root <+: path)
    (below' : filter.root <+: other)
    (same : (osPath path).recordedBelow (osPath filter.root) =
      (osPath other).recordedBelow (osPath filter.root)) : path = other := by
  rw [filter.recordedBelow_relative, filter.recordedBelow_relative] at same
  obtain ⟨rel, rfl⟩ := below
  obtain ⟨rel', rfl⟩ := below'
  simp only [relative, stripPrefix, List.prefix_append, if_true, List.drop_left, Option.map_some,
    Option.some.injEq] at same
  -- Names without a separator can be told apart again when they are joined.
  have solid (rel : RelPath) (inside : ∀ name ∈ rel, name ≠ "" ∧ '/' ∉ name.toList) :
      ∀ name ∈ rel.map String.toList, name ≠ [] ∧ '/' ∉ name := by
    intro name member
    obtain ⟨text, inRel, rfl⟩ := List.mem_map.mp member
    exact ⟨fun empty => (inside text inRel).1 (String.toList_injective empty),
      (inside text inRel).2⟩
  have texts := OsPath.intercalate_inj
    (solid rel fun name member => names name (List.mem_append_right _ member))
    (solid rel' fun name member => names' name (List.mem_append_right _ member)) same
  rw [List.map_injective_iff.mpr (fun _ _ => String.toList_injective) texts]

-- Names that are no texts can be recorded as the same text.
example : OsPath.recordedBelow [[0xFF]] [] = OsPath.recordedBelow [[0xFE]] [] := by decide

end McpCli
