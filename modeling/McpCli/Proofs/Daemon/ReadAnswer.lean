import McpCli.Daemon.ReadAnswer
import McpCli.Proofs.Daemon.Paging

/-! Pages in base64: what a client puts together from them. -/

namespace McpCli

open Bytes

/-- What is shown changes nothing about which page comes next. -/
theorem readAnswers_eq (inode : Inode) (file : Nat) (version : FsReadParams → Nat)
    (params : FsReadParams) (strip : Bool) (fuel : Nat) :
    readAnswers (fun params => inode.fsReadAnswer file (version params) params strip) params fuel =
      (readPages (fun params => inode.fsRead file (version params) params) params fuel).map
        (List.map fun page => page.2.answer { params with offset := page.1 } strip) := by
  -- Both loops take the same steps, so that the induction is on how many there may be.
  induction fuel generalizing params with
  | zero => rfl
  | succ fuel ih =>
    rw [readAnswers, readPages]
    have same : (inode.fsReadAnswer file (version params) params strip).truncated =
        (inode.fsRead file (version params) params).truncated := rfl
    rw [same]
    split
    · rw [ih, Option.map_map, Option.map_map]
      rfl
    · rfl

/-- Each page is what is read at its offset. -/
theorem mem_readPages {read : FsReadParams → FsReadResult} {params : FsReadParams} {fuel : Nat}
    {pages : List (Nat × FsReadResult)} (ran : readPages read params fuel = some pages)
    {page : Nat × FsReadResult} (member : page ∈ pages) :
    page.2 = read { params with offset := page.1 } := by
  induction fuel generalizing params pages with
  | zero => cases ran
  | succ fuel ih =>
    rw [readPages] at ran
    split at ran
    · obtain ⟨others, next, rfl⟩ := Option.map_eq_some_iff.mp ran
      rcases List.mem_cons.mp member with rfl | later
      · rfl
      · -- Whatever the offset was, the page was asked for at its own.
        let further := { params with offset := params.offset + (read params).bytesRead }
        exact @ih further others next later
    · cases ran
      rw [List.mem_singleton.mp member]

/-- An answer says in which way its content is to be read. -/
theorem Inode.encoding_fsRead (inode : Inode) (file version : Nat) (params : FsReadParams) :
    (inode.fsRead file version params).encoding =
      if params.binary then "base64" else "utf8_lossy" := by
  unfold fsRead
  dsimp only
  split
  · rfl
  · rfl

/--
The bytes of one page after another in base64 are those of the file if all pages but the last are
made of whole groups of three bytes, and otherwise not.
-/
theorem encodeBase64_pages_iff {inode : Inode} {file : Nat} {version : FsReadParams → Nat}
    {params : FsReadParams} (page : params.length ≠ some 0) {fuel : Nat}
    (inside : params.offset ≤ inode.bytes.length) {pages : List (Nat × FsReadResult)}
    (read : readPages (fun params => inode.fsRead file (version params) params) params fuel =
      some pages) :
    (pages.flatMap fun page => encodeBase64 page.2.content) =
        encodeBase64 (inode.bytes.drop params.offset) ↔
      inode.bytes.length - params.offset ≤ params.length.getD fsReadDefaultLimit ∨
        3 ∣ params.length.getD fsReadDefaultLimit := by
  induction fuel generalizing params pages with
  | zero => cases read
  | succ fuel ih =>
    obtain ⟨bytesRead, content, truncated⟩ := inode.fsRead_page file (version params) inside
    rw [readPages] at read
    -- From here on, only the length of the page counts, its bytes and whether there is a next one.
    generalize inode.fsRead file (version params) params = result
      at bytesRead content truncated read
    by_cases more : result.truncated
    · have ahead := truncated.mp more
      rw [if_pos more] at read
      obtain ⟨others, next, rfl⟩ := Option.map_eq_some_iff.mp read
      -- The page is full, and there are bytes behind it.
      have full : result.bytesRead = params.length.getD fsReadDefaultLimit := by omega
      have count : result.content.length = params.length.getD fsReadDefaultLimit := by
        rw [content, List.length_take, List.length_drop]
        omega
      have parts : inode.bytes.drop params.offset =
          result.content ++ inode.bytes.drop (params.offset + result.bytesRead) := by
        rw [content, ← List.drop_drop, List.take_append_drop]
      have behind : inode.bytes.drop (params.offset + result.bytesRead) ≠ [] := by
        rw [Ne, List.drop_eq_nil_iff]
        omega
      have later := @ih { params with offset := params.offset + result.bytesRead } page
        (by simp only; omega) others next
      simp only at later
      rw [List.flatMap_cons, parts, or_iff_right (by omega)]
      constructor
      · intro same
        -- The page alone has the characters with which those of the whole begin.
        have shared : encodeBase64 result.content <+: encodeBase64
            (result.content ++ inode.bytes.drop (params.offset + result.bytesRead)) :=
          ⟨_, same⟩
        rcases whole_of_encodeBase64_prefix shared with none_ | groups
        · exact absurd none_ behind
        · rwa [count] at groups
      · intro groups
        rw [encodeBase64_append (count ▸ groups), later.mpr (.inr groups)]
    · rw [if_neg more] at read
      cases read
      -- This page is the last one, and all that is left is on it.
      have all := mt truncated.mpr more
      have whole : result.content = inode.bytes.drop params.offset := by
        rw [content]
        refine List.take_of_length_le ?_
        rw [List.length_drop]
        omega
      rw [List.flatMap_singleton, whole]
      exact iff_of_true rfl (.inl (by omega))

/--
A client that reads a file in base64, page by page, gets the bytes of the file when it decodes each
page, however long the pages are. The pages one after another are the file in base64 exactly if
it has one page only or the length of the pages is a multiple of three.
-/
theorem answers_in_base64 {inode : Inode} (file : Nat) (version : FsReadParams → Nat)
    {params : FsReadParams} (binary : params.binary = true) (first : params.offset = 0)
    (page : params.length ≠ some 0) (strip : Bool) {fuel : Nat}
    (enough : inode.bytes.length < fuel) :
    ∃ answers,
      readAnswers (fun params => inode.fsReadAnswer file (version params) params strip) params
          fuel = some answers ∧
        (∀ answer ∈ answers, answer.encoding = "base64" ∧ answer.strippedRegions = []) ∧
        (∃ pieces : List (List UInt8),
          (answers.map fun answer => decodeBase64 answer.content) = pieces.map some ∧
            pieces.flatten = inode.bytes) ∧
        ((answers.flatMap fun answer => answer.content) = encodeBase64 inode.bytes ↔
          inode.bytes.length ≤ params.length.getD fsReadDefaultLimit ∨
            3 ∣ params.length.getD fsReadDefaultLimit) := by
  obtain ⟨pages, read, paged⟩ := @readPages_paged inode file version params page fuel
    (by omega) (by omega)
  -- Nothing is elided from what is no text.
  have answer (page : Nat × FsReadResult) :
      (page.2.answer { params with offset := page.1 } strip).content =
        encodeBase64 page.2.content := by
    simp [FsReadResult.answer, FsReadResult.shown, binary]
  refine ⟨_, by rw [readAnswers_eq, read]; rfl, ?_, ?_, ?_⟩
  · intro shown member
    obtain ⟨page, there, rfl⟩ := List.mem_map.mp member
    constructor
    · have from_file := congrArg FsReadResult.encoding (mem_readPages read there)
      rw [Inode.encoding_fsRead, if_pos binary] at from_file
      exact from_file
    · simp [FsReadResult.answer, binary]
  · -- Each page is decoded to the bytes that were read for it.
    refine ⟨pages.map fun page => page.2.content, ?_, ?_⟩
    · rw [List.map_map, List.map_map]
      refine List.map_congr_left fun page _ => ?_
      exact (congrArg decodeBase64 (answer page)).trans (decodeBase64_encodeBase64 _)
    · rw [paged.bytes_eq, first, List.drop_zero]
  · have pieces := encodeBase64_pages_iff page (by omega) read
    rw [first, List.drop_zero, Nat.sub_zero] at pieces
    rw [List.flatMap_map, ← pieces]
    simp only [answer]

/-- Four bytes that are read two by two are not one text in base64. -/
theorem answers_in_base64_two_by_two :
    let inode : Inode := { bytes := [1, 2, 3, 4], mtimeNs := 0 }
    ∃ answers,
      readAnswers (fun params => inode.fsReadAnswer 0 0 params true)
          { path := ["a"], offset := 0, length := some 2, binary := true } 5 = some answers ∧
        (answers.flatMap fun answer => answer.content) ≠ encodeBase64 inode.bytes := by
  intro inode
  obtain ⟨answers, read, _, _, joined⟩ := answers_in_base64 0 (fun _ => 0)
    (rfl : (FsReadParams.mk ["a"] 0 (some 2) true).binary = true) rfl (by decide) true
    (by decide : inode.bytes.length < 5)
  exact ⟨answers, read, fun same => absurd (joined.mp same) (by decide)⟩

end McpCli
