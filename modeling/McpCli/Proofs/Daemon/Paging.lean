import Mathlib.Logic.Relation
import McpCli.Daemon.Paging
import McpCli.Proofs.Daemon.Read

/-! Pages of a file cover all its bytes, and show its text if no page ends within a character. -/

namespace McpCli

/-- The answer on a file that stays as it is has the bytes that the request asks for. -/
theorem Inode.fsRead_eq (inode : Inode) (file version : Nat) (params : FsReadParams) :
    inode.fsRead file version params =
      ReadHead.result ⟨file, inode.bytes.length, inode.mtimeNs, version⟩ params
        (params.slice inode.bytes inode.bytes.length) := by
  -- The answer for a file without bytes is the one for any other file, with nothing in it.
  rw [fsRead]
  split
  · -- An empty file has no bytes to ask for.
    rename_i empty
    have empty : inode.bytes.length = 0 := empty
    rw [empty, FsReadParams.slice_empty]
  · rfl

/-- A reader whose view stays the same copies what is left of its range, and returns. -/
theorem copies_range {params : FsReadParams} {view : ReadView} {inode : Inode} {head : ReadHead}
    (found : view.inodes[head.file]? = some inode) {copied : List UInt8}
    (so : Copied params head.totalSize inode.bytes copied) :
    Relation.ReflTransGen (fun before after => ReadPhase.next params view before = some after)
      (.copying head copied)
      (.returned (head.result params (params.slice inode.bytes head.totalSize))) := by
  -- The bytes that are still missing become fewer.
  generalize left : (params.range head.totalSize).2 -
    ((params.range head.totalSize).1 + copied.length) = missing
  induction missing generalizing copied with
  | zero =>
    have through : ¬ (params.range head.totalSize).1 + copied.length <
        (params.range head.totalSize).2 := by omega
    rw [← so.finish through]
    refine .single ?_
    simp only [ReadPhase.next]
    rw [if_neg through]
  | succ missing ih =>
    have ahead : (params.range head.totalSize).1 + copied.length <
        (params.range head.totalSize).2 := by omega
    obtain ⟨byte, seen, more⟩ := so.next ahead
    refine .head ?_ (ih more ?_)
    · simp only [ReadPhase.next]
      rw [if_pos ahead, found, Option.map_some, seen]
    · rw [List.length_append, List.length_singleton]
      omega

/-- On a file that stays as it is, the steps of a reader lead to the answer. -/
theorem fsRead_steps {params : FsReadParams} {view : ReadView} {inode : Inode} {file : Nat}
    (named : view.named = some file) (found : view.inodes[file]? = some inode) :
    Relation.ReflTransGen (fun before after => ReadPhase.next params view before = some after)
      .arrived (.returned (inode.fsRead file view.log.snapshot.1 params)) := by
  -- What the reader knows of the file once it has taken its snapshot of the log.
  generalize known : ReadHead.mk file inode.bytes.length inode.mtimeNs view.log.snapshot.1 = head
  have size : head.totalSize = inode.bytes.length := by rw [← known]
  have same : head.file = file := by rw [← known]
  have opened : ReadPhase.next params view .arrived = some (.opened file) := by
    rw [ReadPhase.next, named]
  have statted : ReadPhase.next params view (.opened file) =
      some (.statted file inode.bytes.length inode.mtimeNs) := by
    rw [ReadPhase.next, found, Option.map_some]
  have observed : ReadPhase.next params view (.statted file inode.bytes.length inode.mtimeNs) =
      some (.observed head) := by
    rw [ReadPhase.next, known]
  refine .head opened (.head statted (.head observed ?_))
  rw [Inode.fsRead_eq, known, ← size]
  by_cases empty : head.totalSize = 0
  · -- Of an empty file nothing is mapped.
    refine .single ?_
    rw [ReadPhase.next, if_pos empty, empty, FsReadParams.slice_empty]
  · have fits : (params.range head.totalSize).2 ≤ inode.bytes.length :=
      size ▸ (params.range_bounds head.totalSize).2
    have mapped : ReadPhase.next params view (.observed head) =
        some (.mapped head inode.bytes.length) := by
      rw [ReadPhase.next, if_neg empty, same, found, Option.map_some]
    have started : ReadPhase.next params view (.mapped head inode.bytes.length) =
        some (.copying head []) := by
      rw [ReadPhase.next, if_pos fits]
    exact .head mapped (.head started (copies_range (same ▸ found) (Copied.start fits)))

/-- The pages of a file from an offset on: each has the bytes that follow the one before. -/
inductive Paged (bytes : List UInt8) : Nat → List (Nat × FsReadResult) → Prop
  /-- The last page has all the bytes that are left. -/
  | last {offset : Nat} {result : FsReadResult} (content : result.content = bytes.drop offset)
      (count : result.bytesRead = result.content.length) : Paged bytes offset [(offset, result)]
  | page {offset : Nat} {result : FsReadResult} {pages : List (Nat × FsReadResult)}
      (content : bytes.drop offset = result.content ++ bytes.drop (offset + result.bytesRead))
      (count : result.bytesRead = result.content.length)
      (others : Paged bytes (offset + result.bytesRead) pages) :
      Paged bytes offset ((offset, result) :: pages)

/-- What one page says of a file that is not read behind its end. -/
theorem Inode.fsRead_page (inode : Inode) (file version : Nat) {params : FsReadParams}
    (inside : params.offset ≤ inode.bytes.length) :
    (inode.fsRead file version params).bytesRead =
        min (params.length.getD fsReadDefaultLimit) (inode.bytes.length - params.offset) ∧
      (inode.fsRead file version params).content = (inode.bytes.drop params.offset).take
        (inode.fsRead file version params).bytesRead ∧
      ((inode.fsRead file version params).truncated ↔
        params.offset + (inode.fsRead file version params).bytesRead < inode.bytes.length) := by
  -- An offset within the file is where the page begins.
  rw [fsRead_eq]
  simp only [ReadHead.result, FsReadParams.slice, FsReadParams.range, decide_eq_true_eq,
    Nat.min_eq_left inside, Nat.add_sub_cancel_left]
  exact ⟨trivial, trivial, trivial⟩

/-- A client that reads on while pages are truncated gets the pages of the file. -/
theorem readPages_paged {inode : Inode} {file : Nat} {version : FsReadParams → Nat}
    {params : FsReadParams} (page : params.length ≠ some 0) {fuel : Nat}
    (enough : inode.bytes.length - params.offset < fuel)
    (inside : params.offset ≤ inode.bytes.length) :
    ∃ pages, readPages (fun params => inode.fsRead file (version params) params) params fuel =
      some pages ∧ Paged inode.bytes params.offset pages := by
  -- Each page has a byte at least, so less is left than before.
  induction fuel generalizing params with
  | zero => exact absurd enough (Nat.not_lt_zero _)
  | succ fuel ih =>
    obtain ⟨bytesRead, content, truncated⟩ := inode.fsRead_page file (version params) inside
    rw [readPages]
    generalize inode.fsRead file (version params) params = result at bytesRead content truncated ⊢
    have count : result.bytesRead = result.content.length := by
      rw [content, List.length_take, List.length_drop, bytesRead]
      omega
    by_cases more : result.truncated
    · have ahead := truncated.mp more
      have some_byte : 0 < params.length.getD fsReadDefaultLimit := by
        cases length : params.length with
        | none => exact Nat.succ_pos _
        | some length' => exact Nat.pos_of_ne_zero fun zero => page (length.trans (congrArg some zero))
      obtain ⟨pages, others, paged⟩ := @ih
        { params with offset := params.offset + result.bytesRead } page
        (by simp only; omega) (by simp only; omega)
      refine ⟨(params.offset, result) :: pages, ?_, .page ?_ count paged⟩
      · rw [if_pos more, others, Option.map_some]
      · rw [← List.drop_drop, content]
        exact (List.take_append_drop _ _).symm
    · -- All that is left is in this page.
      refine ⟨[(params.offset, result)], if_neg more, .last ?_ count⟩
      have all := mt truncated.mpr more
      rw [content]
      refine List.take_of_length_le ?_
      rw [List.length_drop]
      omega

/-- Together the pages have every byte, in order. -/
theorem Paged.bytes_eq {bytes : List UInt8} {offset : Nat} {pages : List (Nat × FsReadResult)}
    (paged : Paged bytes offset pages) :
    (pages.map fun page => page.2.content).flatten = bytes.drop offset := by
  -- Each page has the bytes up to where the next one begins.
  induction paged with
  | last content count => rw [List.map_singleton, List.flatten_singleton, content]
  | page content count others ih => rw [List.map_cons, List.flatten_cons, ih, content]

/-- They ask for every position once, in order. -/
theorem Paged.positions {bytes : List UInt8} {offset : Nat} {pages : List (Nat × FsReadResult)}
    (paged : Paged bytes offset pages) :
    (pages.flatMap fun page => List.range' page.1 page.2.bytesRead) =
      List.range' offset (bytes.length - offset) := by
  induction paged with
  | last content count =>
    rw [List.flatMap_singleton, count, content, List.length_drop]
  | @page offset result pages content count others ih =>
    -- The positions of the first page, and behind them those of the others.
    have lengths := congrArg List.length content
    rw [List.length_append, List.length_drop, List.length_drop, ← count] at lengths
    rw [List.flatMap_cons, ih, List.range'_append_1, lengths]

/-- A page begins where the pages before it end. -/
theorem Paged.offset_eq {bytes : List UInt8} {offset : Nat} {pages : List (Nat × FsReadResult)}
    (paged : Paged bytes offset pages) {front back : List (Nat × FsReadResult)}
    {page : Nat × FsReadResult} (parts : pages = front ++ page :: back) :
    page.1 = offset + (front.map fun page => page.2.content).flatten.length := by
  -- Each page in front moves the offset on by its own bytes.
  induction paged generalizing front with
  | last content count =>
    cases front with
    | nil =>
      cases parts
      rfl
    | cons first front => simp at parts
  | @page offset result pages content count others ih =>
    cases front with
    | nil =>
      cases parts
      rfl
    | cons first front =>
      obtain ⟨rfl, later⟩ : (offset, result) = first ∧ pages = front ++ page :: back := by
        simpa using parts
      rw [ih later, List.map_cons, List.flatten_cons, List.length_append, count, Nat.add_assoc]

/-- Every page begins where a character does exactly when the pages show the text. -/
theorem Paged.text_iff {text : List Char} {pages : List (Nat × FsReadResult)}
    (paged : Paged (Text.encodeUtf8 text) 0 pages) :
    pages.flatMap (fun page => page.2.text) = text ↔
      ∀ page ∈ pages, Text.IsCharBoundary text page.1 := by
  -- The text of the pages is decoded piece by piece, and the pieces are the bytes of the file.
  have bytes := paged.bytes_eq
  rw [List.drop_zero] at bytes
  have shown : pages.flatMap (fun page => page.2.text) =
      (pages.map fun page => page.2.content).flatMap Text.decodeLossy := by
    rw [List.flatMap_map]
    rfl
  rw [shown, Text.decodeLossy_pieces_iff bytes]
  constructor
  · intro boundaries page mem
    obtain ⟨front, back, parts⟩ := List.append_of_mem mem
    rw [paged.offset_eq parts, Nat.zero_add]
    refine boundaries _ ?_
    rw [parts, List.map_append]
    exact List.prefix_append _ _
  · intro boundaries pieces parted
    obtain ⟨back, parts⟩ := parted
    obtain ⟨front, rest, rfl, rfl, rfl⟩ := List.append_eq_map_iff.mp parts
    cases rest with
    | nil =>
      -- All the pages end where the text does.
      rw [List.append_nil] at bytes
      exact Text.isCharBoundary_iff.mpr ⟨text, [], (List.append_nil text).symm, by rw [bytes]⟩
    | cons page rest =>
      have boundary := boundaries page (by simp)
      rwa [paged.offset_eq rfl, Nat.zero_add] at boundary

/--
The loop of a client over the pages of an unchanging text terminates, asks for every byte once, and
shows the text exactly when no page begins within a character.
-/
theorem pages_of_text {inode : Inode} {text : List Char}
    (utf8 : inode.bytes = Text.encodeUtf8 text) (file : Nat) (version : FsReadParams → Nat)
    {params : FsReadParams} (first : params.offset = 0) (page : params.length ≠ some 0)
    {fuel : Nat} (enough : inode.bytes.length < fuel) :
    ∃ pages, readPages (fun params => inode.fsRead file (version params) params) params fuel =
        some pages ∧
      (pages.flatMap fun page => List.range' page.1 page.2.bytesRead) =
        List.range inode.bytes.length ∧
      (pages.flatMap (fun page => page.2.text) = text ↔
        ∀ page ∈ pages, Text.IsCharBoundary text page.1) := by
  -- What the loop reads are the pages of the file from its first byte on.
  obtain ⟨pages, read, paged⟩ := @readPages_paged inode file version params page fuel
    (by omega) (by omega)
  rw [first] at paged
  have positions := paged.positions
  rw [Nat.sub_zero, ← List.range_eq_range'] at positions
  rw [utf8] at paged
  exact ⟨pages, read, positions, paged.text_iff⟩

/-- A file with an ASCII character and one of two bytes. -/
def accented : Inode := { bytes := [0x61, 0xC3, 0xA9], mtimeNs := 0 }

/-- A request for pages of one byte. -/
def byteByByte : FsReadParams := { path := ["a"], offset := 0, length := some 1, binary := false }

/-- Pages of one byte of a text that has a character of two. -/
theorem pages_of_accented :
    ∃ pages, readPages (fun params => accented.fsRead 0 1 params) byteByByte 4 = some pages ∧
      (pages.flatMap fun page => List.range' page.1 page.2.bytesRead) = List.range 3 ∧
      (pages.flatMap (fun page => page.2.text) = ['a', 'é'] ↔
        ∀ page ∈ pages, Text.IsCharBoundary ['a', 'é'] page.1) :=
  pages_of_text (by decide) 0 (fun _ => 1) rfl (by decide) (by decide)

/-- They show two replacements in the place of that character. -/
theorem accented_character_replaced :
    ∃ pages, readPages (fun params => accented.fsRead 0 1 params) byteByByte 4 = some pages ∧
      pages.flatMap (fun page => page.2.text) ≠ ['a', 'é'] := by
  refine ⟨_, rfl, ?_⟩
  decide

end McpCli
