import McpCli.Proofs.Daemon.Base64Blobs
import McpCli.Text.LineEnds

/-! Which lines `strip_noise` elides, and what it makes of the others. -/

namespace McpCli

open Listing

/-- A comment at the head of some lines takes some of them. -/
theorem CommentStyle.length_le {style : CommentStyle} {lines : List (List Char)} {count : Nat}
    (takes : style.length lines = some count) : count ≤ lines.length := by
  -- Lines of one kind are counted up to the first other one, less the blank ones at their end.
  have run : ∀ belongs : List Char → Bool,
      ((lines.takeWhile belongs).reverse.dropWhile isBlank).length ≤ lines.length := by
    intro belongs
    refine (List.dropWhile_sublist _).length_le.trans ?_
    rw [List.length_reverse]
    exact (List.takeWhile_sublist _).length_le
  -- A block comment ends in the line where it is closed, which is one of the lines.
  cases style with
  | block =>
    simp only [CommentStyle.length, Option.map_eq_some_iff] at takes
    obtain ⟨place, closed, rfl⟩ := takes
    obtain ⟨there, -⟩ := List.findIdx?_eq_some_iff_getElem.mp closed
    exact there
  | slash =>
    cases takes
    exact run _
  | hash =>
    cases takes
    exact run _

/-- A license header lies in its file. -/
theorem detectLicenseHeader_inside {lines : List (List Char)} {range : LineRange}
    (found : detectLicenseHeader lines = some range) : range.last < lines.length := by
  unfold detectLicenseHeader at found
  extract_lets shebang start rest at found
  split at found
  · cases found
  · split at found
    · cases found
    · rename_i style _ count takes
      split at found
      · cases found
      · rename_i enough
        split at found
        · cases found
          -- The header begins behind a first line that names an interpreter, if there is one.
          have most := CommentStyle.length_le takes
          have left : rest.length = lines.length - start := List.length_drop
          rw [licenseMinLines] at enough
          show start + (count - 1) < lines.length
          omega
        · cases found

/-- So does the body of a generated file. -/
theorem detectGeneratedBody_inside {lines : List (List Char)} {range : LineRange}
    (found : detectGeneratedBody lines = some range) : range.last < lines.length := by
  unfold detectGeneratedBody at found
  split at found
  · cases found
  · split at found
    · cases found
    · extract_lets headEnd at found
      split at found
      · -- The body goes on up to the last line.
        rename_i inside
        cases found
        show lines.length - 1 < lines.length
        omega
      · cases found

/-- What is recognized lies in its file. -/
theorem detectNoise_inside {lines : List (List Char)} :
    ∀ region ∈ detectNoise lines, region.last < lines.length := by
  intro region mem
  simp only [detectNoise, List.mem_append, List.mem_map, Option.mem_toList] at mem
  -- Each region comes from one of the three detectors.
  rcases mem with (⟨range, found, rfl⟩ | ⟨range, found, rfl⟩) | ⟨range, found, rfl⟩
  · exact detectLicenseHeader_inside found
  · exact detectGeneratedBody_inside found
  · exact (mem_detectBase64Blobs.mp found).run.inside

/-- Where a region begins. -/
abbrev NoiseRegion.begins (region : NoiseRegion) : Nat := region.first

/-- Where a region ends. -/
abbrev NoiseRegion.ends (region : NoiseRegion) : Nat := region.last

/-- Sorting makes no region up. -/
theorem mem_sorted_detectNoise {lines : List (List Char)} {region : NoiseRegion} :
    region ∈ sortByKey NoiseRegion.begins (detectNoise lines) ↔ region ∈ detectNoise lines :=
  List.mem_mergeSort

/-- Regions that are elided were recognized. -/
theorem keptNoise_subset {lines : List (List Char)} {region : NoiseRegion}
    (mem : region ∈ keptNoise lines) : region ∈ detectNoise lines :=
  mem_sorted_detectNoise.mp (keepApart_subset mem)

/-- Regions that are elided stand apart, one behind the other. -/
theorem keptNoise_apart (lines : List (List Char)) :
    (keptNoise lines).Pairwise (Separate NoiseRegion.begins NoiseRegion.ends) :=
  keepApart_pairwise fun region _ => region.ordered

/-- A region that was recognized is elided, or it begins inside of one that is. -/
theorem keptNoise_covers {lines : List (List Char)} {region : NoiseRegion}
    (mem : region ∈ detectNoise lines) :
    region ∈ keptNoise lines ∨
      ∃ kept ∈ keptNoise lines, Within NoiseRegion.begins NoiseRegion.ends region.first kept :=
  keepApart_covers (pairwise_sortByKey _ _) (mem_sorted_detectNoise.mpr mem)

/-- Write lines one after another. -/
def StripOutput.pushLines (out : StripOutput) (lines : List (List Char)) : StripOutput :=
  lines.foldl StripOutput.pushLine out

/-- The line that stands for a region. -/
def NoiseRegion.marker (region : NoiseRegion) : List Char :=
  formatMarker region.kind.text region.count

/-- Writing lines does not touch the regions. -/
theorem StripOutput.pushLines_regions (out : StripOutput) (regions : List StrippedRegion)
    (lines : List (List Char)) :
    { out with regions }.pushLines lines = { out.pushLines lines with regions } := by
  induction lines generalizing out with
  | nil => rfl
  | cons line rest ih => exact ih (out.pushLine line)

/-- The loop writes the lines that are left of the file, and reports the regions to come. -/
theorem stripFrom_eq {lines : List (List Char)} {done iter : List NoiseRegion} {idx : Nat}
    (apart : (done ++ iter).Pairwise (Separate NoiseRegion.begins NoiseRegion.ends))
    (inside : ∀ region ∈ iter, region.last < lines.length)
    (past : ∀ region ∈ done, region.last < idx) (ahead : ∀ region ∈ iter, idx ≤ region.first)
    (out : StripOutput) :
    stripFrom lines idx iter out =
      { out.pushLines (replaceSpans NoiseRegion.begins NoiseRegion.ends NoiseRegion.marker
          (done ++ iter) idx (lines.drop idx)) with
        regions := out.regions ++ iter.map NoiseRegion.report } := by
  -- The loop goes on behind a line, or behind a region that is then done.
  fun_induction stripFrom lines idx iter out generalizing done with
  | case1 idx out more ih =>
    have outside : ∀ region ∈ done ++ [], ¬ Within NoiseRegion.begins NoiseRegion.ends idx region := by
      intro region mem within
      rw [List.append_nil] at mem
      exact Nat.not_le_of_lt (past region mem) within.2
    rw [ih apart inside (fun region mem => Nat.lt_succ_of_lt (past region mem)) (by simp),
      List.drop_eq_getElem_cons more, replaceSpans_outside outside]
    rfl
  | case2 out region rest written more =>
    rename_i ih
    have here : region ∈ done ++ region :: rest := by simp
    have others : done ++ region :: rest = (done ++ [region]) ++ rest := by simp
    -- The regions stand apart, so the others begin behind this one.
    have behind : ∀ other ∈ rest, region.last + 1 ≤ other.first := by
      intro other mem
      exact (List.pairwise_cons.mp (List.pairwise_append.mp apart).2.1).1 other mem
    have before : ∀ other ∈ done ++ [region], other.last < region.last + 1 := by
      intro other mem
      rcases List.mem_append.mp mem with earlier | same
      · exact Nat.lt_succ_of_lt (Nat.lt_of_lt_of_le (past other earlier) region.ordered)
      · rw [List.mem_singleton.mp same]
        exact Nat.lt_succ_self _
    -- The loop goes on behind the region, where the lines that are not replaced begin.
    have left : (lines.drop (region.first + 1)).drop (region.last - region.first) =
        lines.drop (region.last + 1) := by
      have ordered := region.ordered
      rw [List.drop_drop]
      congr 1
      omega
    rw [ih (others ▸ apart) (fun other mem => inside other (List.mem_cons_of_mem _ mem)) before
      behind, StripOutput.pushLines_regions, List.drop_eq_getElem_cons more,
      replaceSpans_span apart here region.ordered, left, ← others]
    simp [written, StripOutput.pushLines, StripOutput.pushLine, NoiseRegion.marker]
  | case3 idx out more region rest other ih =>
    have begins : idx < region.first :=
      Nat.lt_of_le_of_ne (ahead region List.mem_cons_self) other
    have behind : ∀ later ∈ region :: rest, idx + 1 ≤ later.first := by
      intro later mem
      rcases List.mem_cons.mp mem with rfl | mem
      · exact begins
      · have next := (List.pairwise_cons.mp (List.pairwise_append.mp apart).2.1).1 later mem
        exact Nat.le_of_lt (Nat.lt_of_le_of_lt begins (Nat.lt_of_le_of_lt region.ordered next))
    have outside : ∀ other ∈ done ++ region :: rest,
        ¬ Within NoiseRegion.begins NoiseRegion.ends idx other := by
      intro other mem within
      rcases List.mem_append.mp mem with earlier | later
      · exact Nat.not_le_of_lt (past other earlier) within.2
      · exact Nat.not_le_of_lt (behind other later) within.1
    rw [ih apart inside (fun region mem => Nat.lt_succ_of_lt (past region mem)) behind,
      List.drop_eq_getElem_cons more, replaceSpans_outside outside]
    rfl
  | case4 idx iter out beyond =>
    -- No region is left behind the last line.
    have none_left : iter = [] := by
      refine List.eq_nil_iff_forall_not_mem.mpr fun region mem => beyond ?_
      exact Nat.lt_of_le_of_lt (Nat.le_trans (ahead region mem) region.ordered) (inside region mem)
    subst none_left
    rw [List.drop_of_length_le (Nat.le_of_not_lt beyond)]
    simp [replaceSpans, StripOutput.pushLines]

/-- Lines that are written one after another have a line end between them. -/
theorem StripOutput.content_pushLines (out : StripOutput) (lines : List (List Char)) :
    (out.pushLines lines).content =
      if out.first then out.content ++ ['\n'].intercalate lines
      else out.content ++ lines.flatMap fun line => '\n' :: line := by
  -- Only the first line of all is written without a line end in front of it.
  induction lines generalizing out with
  | nil => simp [StripOutput.pushLines]
  | cons line rest ih =>
    -- Behind the first line, every line has a line end in front of it.
    have more : ['\n'].intercalate (line :: rest) =
        line ++ rest.flatMap fun line => '\n' :: line := by
      clear ih
      induction rest generalizing line with
      | nil => simp
      | cons next rest ih => simp [ih]
    show ((out.pushLine line).pushLines rest).content = _
    rw [ih, more]
    by_cases fresh : out.first = true
    · simp [StripOutput.pushLine, fresh]
    · simp [StripOutput.pushLine, fresh]

/-- All that is left of a text, and what is reported. -/
theorem stripNoise_eq (content : List Char) :
    stripNoise content =
      let joined := ['\n'].intercalate (replaceSpans NoiseRegion.begins NoiseRegion.ends
        NoiseRegion.marker (keptNoise (Text.lines content)) 0 (Text.lines content))
      { content := if content.getLast? = some '\n' then joined ++ ['\n'] else joined
        regions := (keptNoise (Text.lines content)).map NoiseRegion.report } := by
  -- The loop starts at the first line with nothing written and no region done.
  have loop := @stripFrom_eq (Text.lines content) [] (keptNoise (Text.lines content)) 0
    (keptNoise_apart _) (fun region mem => detectNoise_inside region (keptNoise_subset mem))
    (by simp) (fun region _ => Nat.zero_le _) { content := [], first := true, regions := [] }
  simp only [stripNoise, loop, StripOutput.content_pushLines, List.nil_append, List.drop_zero,
    if_true]

/-- The marker line of a reported region carries its kind and its count. -/
def StrippedRegion.marker (region : StrippedRegion) : List Char :=
  formatMarker region.kind region.lines

/-- Without a line of base64, there is no blob. -/
theorem base64BlobsFrom_eq_nil (i : Nat) {lines : List (List Char)}
    (others : ∀ line ∈ lines, isBase64Line line = false) : base64BlobsFrom i lines = [] := by
  induction lines generalizing i with
  | nil => rw [base64BlobsFrom]
  | cons line rest ih =>
    rw [List.forall_mem_cons] at others
    rw [base64BlobsFrom, if_neg (by simp [others.1]), ih (i + 1) others.2]

/-- What is recognized in a file without base64 lines. -/
theorem detectNoise_of_text {lines : List (List Char)} {header body : Option LineRange}
    (found : detectLicenseHeader lines = header) (found' : detectGeneratedBody lines = body)
    (others : ∀ line ∈ lines, isBase64Line line = false) :
    detectNoise lines = header.toList.map (⟨·, .license⟩) ++ body.toList.map (⟨·, .generated⟩) := by
  rw [detectNoise, found, found', detectBase64Blobs, base64BlobsFrom_eq_nil 0 others,
    List.map_nil, List.append_nil]

/--
A text in which nothing is recognized comes back as it was exactly if no line end of it has two
characters.
-/
theorem stripNoise_quiet_iff (content : List Char) (quiet : detectNoise (Text.lines content) = []) :
    stripNoise content = { content, regions := [] } ↔ ¬ Text.HasCrLf content := by
  have none_kept : keptNoise (Text.lines content) = [] := by
    rw [keptNoise, quiet, sortByKey, List.mergeSort_nil]
    rfl
  -- Nothing is replaced, so the lines are put together again.
  have same : stripNoise content = { content := Text.rejoin content, regions := [] } := by
    rw [stripNoise_eq, none_kept, replaceSpans_nil]
    rfl
  rw [same, ← Text.rejoin_eq_iff, StripResult.mk.injEq, and_iff_left rfl]

/-- A file with a function and a blank line. -/
def functionFile : List Char := "fn main() \x7b\x7d\n\n".toList

/-- It comes back as it was. -/
theorem stripNoise_quiet_function :
    detectNoise (Text.lines functionFile) = [] ∧
      stripNoise functionFile = { content := functionFile, regions := [] } := by
  have quiet : detectNoise (Text.lines functionFile) = [] :=
    @detectNoise_of_text _ none none (by decide +kernel) (by decide +kernel) (by decide +kernel)
  exact ⟨quiet, (stripNoise_quiet_iff functionFile quiet).mpr (by decide +kernel)⟩

/-- The line ends of a file from another system become those of this one. -/
theorem stripNoise_drops_returns :
    detectNoise (Text.lines "a\r\nb\r\n".toList) = [] ∧
      stripNoise "a\r\nb\r\n".toList = { content := "a\nb\n".toList, regions := [] } ∧
      stripNoise "a\r\nb\r\n".toList ≠ { content := "a\r\nb\r\n".toList, regions := [] } := by
  -- There is no noise in the file, so every line is kept as it was split off.
  have quiet : detectNoise (Text.lines "a\r\nb\r\n".toList) = [] :=
    @detectNoise_of_text _ none none (by decide +kernel) (by decide +kernel) (by decide +kernel)
  have same : stripNoise "a\r\nb\r\n".toList = { content := "a\nb\n".toList, regions := [] } := by
    rw [stripNoise_eq, keptNoise, quiet, sortByKey, List.mergeSort_nil]
    decide +kernel
  refine ⟨quiet, same, ?_⟩
  rw [same]
  decide +kernel

/-- Whether a line is elided. -/
def Elided (lines : List (List Char)) (line : Nat) : Prop :=
  ∃ region ∈ keptNoise lines, Within NoiseRegion.begins NoiseRegion.ends line region

/-- A line behind a region that is elided, in one that begins inside of it. -/
def Behind (lines : List (List Char)) (first line : Nat) : Prop :=
  ∃ region ∈ keptNoise lines,
    Within NoiseRegion.begins NoiseRegion.ends first region ∧ region.last < line

/-- A line of a region that was recognized is elided, or it is left behind an elided region. -/
theorem elided_or_behind {lines : List (List Char)} {region : NoiseRegion}
    (mem : region ∈ detectNoise lines) {line : Nat}
    (within : Within NoiseRegion.begins NoiseRegion.ends line region) :
    Elided lines line ∨ Behind lines region.first line := by
  -- A region that is elided elides all of its lines.
  rcases keptNoise_covers mem with kept | ⟨other, kept, covers⟩
  · exact .inl ⟨region, kept, within⟩
  · -- The region was dropped, and its beginning is elided with the other one.
    by_cases ends : other.last < line
    · exact .inr ⟨other, kept, covers, ends⟩
    · exact .inl ⟨other, kept, Nat.le_trans covers.1 within.1, Nat.le_of_not_lt ends⟩

/-- The body of a generated file begins behind the lines that are kept after the marker. -/
theorem detectGeneratedBody_of_marker {lines : List (List Char)} {markerLine line : Nat}
    (long : generatedMinFileLines ≤ lines.length)
    (marked : (lines.take generatedHeadScan).findIdx? isGeneratedMarker = some markerLine)
    (behind : markerLine + generatedKeepAfterMarker < line) (inside : line < lines.length) :
    ∃ ordered, detectGeneratedBody lines =
      some ⟨markerLine + generatedKeepAfterMarker + 1, lines.length - 1, ordered⟩ := by
  -- The file has more lines than are kept, so the head is not cut short.
  have head : min (markerLine + generatedKeepAfterMarker) (lines.length - 1) =
      markerLine + generatedKeepAfterMarker := Nat.min_eq_left (by omega)
  refine ⟨by omega, ?_⟩
  rw [detectGeneratedBody, if_neg (Nat.not_lt_of_le long), marked]
  simp only [head]
  exact dif_pos (by omega)

/-- Only the body of a generated file is recognized as one. -/
theorem detectNoise_generated {lines : List (List Char)} {region : NoiseRegion}
    (mem : region ∈ detectNoise lines) (generated : region.kind = .generated) :
    detectGeneratedBody lines = some region.toLineRange := by
  simp only [detectNoise, List.mem_append, List.mem_map, Option.mem_toList] at mem
  rcases mem with (⟨range, found, rfl⟩ | ⟨range, found, rfl⟩) | ⟨range, found, rfl⟩
  · cases generated
  · exact found
  · cases generated

/--
The reported regions are those that are elided. A line of a region that was recognized is elided,
unless the region begins inside of an elided one that ends in front of the line. So behind the
marker of a generated file and the lines kept after it, all is elided, unless a license header or
a base64 blob is elided that has the first of these lines.
-/
theorem stripNoise_covers (content : List Char) :
    let lines := Text.lines content
    (stripNoise content).regions = (keptNoise lines).map NoiseRegion.report ∧
    (stripNoise content).content =
      ['\n'].intercalate (replaceSpans NoiseRegion.begins NoiseRegion.ends NoiseRegion.marker
        (keptNoise lines) 0 lines) ++ (if content.getLast? = some '\n' then ['\n'] else []) ∧
    (∀ region ∈ detectNoise lines, ∀ line, Within NoiseRegion.begins NoiseRegion.ends line region →
      Elided lines line ∨ Behind lines region.first line) ∧
    ∀ markerLine, generatedMinFileLines ≤ lines.length →
      (lines.take generatedHeadScan).findIdx? isGeneratedMarker = some markerLine →
      ∀ line, markerLine + generatedKeepAfterMarker < line → line < lines.length →
        Elided lines line ∨ ∃ region ∈ keptNoise lines, region.kind ≠ .generated ∧
          Within NoiseRegion.begins NoiseRegion.ends (markerLine + generatedKeepAfterMarker + 1)
            region ∧ region.last < line := by
  refine ⟨by rw [stripNoise_eq], ?_, fun region mem line => elided_or_behind mem, ?_⟩
  · rw [stripNoise_eq]
    simp only
    split
    · rfl
    · rw [List.append_nil]
  · intro markerLine long marked line behind inside
    obtain ⟨ordered, body⟩ := detectGeneratedBody_of_marker long marked behind inside
    have mem : ⟨⟨_, _, ordered⟩, .generated⟩ ∈ detectNoise (Text.lines content) := by
      simp [detectNoise, body]
    refine (elided_or_behind mem ⟨behind, Nat.le_sub_one_of_lt inside⟩).imp id ?_
    intro left
    obtain ⟨region, kept, covers, ends⟩ := left
    refine ⟨region, kept, fun generated => ?_, covers, ends⟩
    -- The body itself does not end in front of any of its lines.
    have own := detectNoise_generated (keptNoise_subset kept) generated
    rw [body, Option.some.injEq] at own
    rw [← own] at ends
    have last : (Text.lines content).length - 1 < line := ends
    omega

/-- A generated file of fifty lines, whose license header goes on behind the marker. -/
def overlapFile : List Char :=
  "// Copyright\n// @generated\n".toList ++ (List.replicate 12 "//\n".toList).flatten ++
    (List.replicate 36 "x\n".toList).flatten

/-- Only the header is elided, and the body of the file is not. -/
theorem stripNoise_drops_generated :
    detectNoise (Text.lines overlapFile) =
      [⟨⟨0, 13, by decide⟩, .license⟩, ⟨⟨12, 49, by decide⟩, .generated⟩] ∧
    (stripNoise overlapFile).regions =
      [{ kind := "license", startLine := 1, endLine := 14, lines := 14 }] ∧
    ¬ ∀ region ∈ detectNoise (Text.lines overlapFile), ∀ line,
      Within NoiseRegion.begins NoiseRegion.ends line region →
      ∃ reported ∈ (stripNoise overlapFile).regions,
        Within StrippedRegion.startLine StrippedRegion.endLine (line + 1) reported := by
  have found : detectNoise (Text.lines overlapFile) =
      [⟨⟨0, 13, by decide⟩, .license⟩, ⟨⟨12, 49, by decide⟩, .generated⟩] :=
    @detectNoise_of_text _ (some ⟨0, 13, by decide⟩) (some ⟨12, 49, by decide⟩)
      (by decide +kernel) (by decide +kernel) (by decide +kernel)
  have regions : (stripNoise overlapFile).regions =
      [{ kind := "license", startLine := 1, endLine := 14, lines := 14 }] := by
    rw [stripNoise_eq, keptNoise, found, sortByKey, List.mergeSort_of_pairwise (by decide)]
    rfl
  -- The last line of the body is in no region that is reported.
  refine ⟨found, regions, fun covered => ?_⟩
  have last := covered ⟨⟨12, 49, by decide⟩, .generated⟩ (by rw [found]; simp) 49
    ⟨by decide, by decide⟩
  rw [regions] at last
  revert last
  decide

end McpCli
