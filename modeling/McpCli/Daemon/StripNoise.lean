import McpCli.Listing.ByKey
import McpCli.Listing.Spans
import McpCli.Protocol.Messages
import McpCli.Text.Lines
import McpCli.Text.Replace
import McpCli.Text.Utf8
import McpCli.Text.Words

/-! The `strip_noise` option of `fs.read`: boilerplate is replaced by one line that says so. -/

namespace McpCli

/-- How many lines a license header has at least. -/
def licenseMinLines : Nat := 3

/-- How many lines a base64 blob has at least. -/
def base64MinLines : Nat := 5

/-- How many bytes a line of a base64 blob has at least. -/
def base64MinWidth : Nat := 60

/-- How many lines are looked at for the marker of a generated file. -/
def generatedHeadScan : Nat := 10

/-- How many lines a generated file has at least. -/
def generatedMinFileLines : Nat := 50

/-- How many lines are kept behind the marker of a generated file. -/
def generatedKeepAfterMarker : Nat := 10

/-- What a region of a file is recognized as. -/
inductive NoiseKind where
  | license
  | generated
  | base64
  deriving DecidableEq, Repr

/-- The kind as it is reported. -/
def NoiseKind.text : NoiseKind → String
  | .license => "license"
  | .generated => "generated"
  | .base64 => "base64"

/-- Lines of a file from a first one to a last one, counted from 0. -/
structure LineRange where
  first : Nat
  last : Nat
  ordered : first ≤ last
  deriving DecidableEq, Repr

/-- A region that was recognized. -/
structure NoiseRegion extends LineRange where
  kind : NoiseKind
  deriving DecidableEq, Repr

/-- What is left of a text. -/
structure StripResult where
  content : List Char
  regions : List StrippedRegion
  deriving DecidableEq, Repr

/-- Whether nothing but white space is on a line. -/
def isBlank (line : List Char) : Bool := (Text.trim line).isEmpty

/-- How the comment at the head of a file is written. -/
inductive CommentStyle where
  | slash
  | hash
  | block
  deriving DecidableEq, Repr

/-- The style of the comment that a line begins with, if it begins with one. -/
def commentStyle (line : List Char) : Option CommentStyle :=
  let first := Text.trimStart line
  if "//".toList.isPrefixOf first then some .slash
  else if "/*".toList.isPrefixOf first then some .block
  else if "#".toList.isPrefixOf first then some .hash
  else none

/-- Whether a line goes on with a comment of line by line. -/
def CommentStyle.isComment (style : CommentStyle) (line : List Char) : Bool :=
  match style with
  | .slash => "//".toList.isPrefixOf (Text.trimStart line)
  | .hash => "#".toList.isPrefixOf (Text.trimStart line)
  | .block => false

/-- How many lines the comment takes that the lines begin with, if it has an end. -/
def CommentStyle.length (style : CommentStyle) (lines : List (List Char)) : Option Nat :=
  match style with
  | .block => (lines.findIdx? fun line => Text.contains "*/".toList line).map Nat.succ
  | .slash | .hash =>
    let run := lines.takeWhile fun line => style.isComment line || isBlank line
    -- Blank lines at the end do not belong to it.
    some (run.reverse.dropWhile isBlank).length

/-- What a license header has at least one of. -/
def licenseKeywords : List String :=
  ["copyright", "spdx-license-identifier", "all rights reserved", "licensed under",
    "apache license", "mit license", "bsd license", "mozilla public", "gnu general public",
    "gnu lesser general public"]

/-- Whether a text in lower case speaks of a license. -/
def containsLicenseKeyword (text : List Char) : Bool :=
  licenseKeywords.any fun keyword => Text.contains keyword.toList text

/-- The license header of a file. -/
def detectLicenseHeader (lines : List (List Char)) : Option LineRange :=
  -- The line that names the interpreter and blank lines may stand in front of it.
  let shebang := if (lines.head?.any fun line => "#!".toList.isPrefixOf line) then 1 else 0
  let start := shebang + ((lines.drop shebang).takeWhile isBlank).length
  let rest := lines.drop start
  match rest.head?.bind commentStyle with
  | none => none
  | some style =>
    match style.length rest with
    | none => none
    | some count =>
      if count < licenseMinLines then none
      else if containsLicenseKeyword
          (Text.toLowercase (['\n'].intercalate (rest.take count))) then
        some ⟨start, start + (count - 1), Nat.le_add_right _ _⟩
      else none

/-- Whether all of a line can be base64, and enough of it. -/
def isBase64Line (line : List Char) : Bool :=
  let trimmed := Text.trim line
  if (Text.encodeUtf8 trimmed).length < base64MinWidth then false
  else trimmed.all fun c => c.isAlphanum || c ∈ ['+', '/', '=', '-', '_']

/-- The base64 blobs of lines of which the first one has a given number. -/
def base64BlobsFrom (i : Nat) : List (List Char) → List LineRange
  | [] => []
  | line :: rest =>
    if isBase64Line line then
      let more := (rest.takeWhile isBase64Line).length
      let behind := base64BlobsFrom (i + more + 1) (rest.dropWhile isBase64Line)
      if base64MinLines ≤ more + 1 then ⟨i, i + more, Nat.le_add_right _ _⟩ :: behind else behind
    else base64BlobsFrom (i + 1) rest
  termination_by lines => lines.length
  decreasing_by
    · exact Nat.lt_succ_of_le (List.dropWhile_sublist _).length_le
    · exact Nat.lt_succ_self _

/-- The base64 blobs of a file. -/
def detectBase64Blobs (lines : List (List Char)) : List LineRange := base64BlobsFrom 0 lines

/-- The inner loop over the lines of a blob: the index moves on to the first line behind it. -/
def skipBase64Lines (lines : List (List Char)) (i : Nat) : Nat :=
  if inside : i < lines.length then
    if isBase64Line lines[i] then skipBase64Lines lines (i + 1) else i
  else i
  termination_by lines.length - i

/-- The index never moves back. -/
theorem le_skipBase64Lines (lines : List (List Char)) (i : Nat) : i ≤ skipBase64Lines lines i := by
  fun_induction skipBase64Lines lines i with
  | case1 i inside base64 ih => exact Nat.le_of_succ_le ih
  | case2 i inside other => exact Nat.le_refl i
  | case3 i outside => exact Nat.le_refl i

/-- It moves on from a line of base64. -/
theorem lt_skipBase64Lines {lines : List (List Char)} {i : Nat} (inside : i < lines.length)
    (base64 : isBase64Line lines[i] = true) : i < skipBase64Lines lines i := by
  rw [skipBase64Lines, dif_pos inside, if_pos base64]
  exact le_skipBase64Lines lines (i + 1)

/-- The outer loop over the lines of a file, with the blobs that were found so far. -/
def base64BlobLoop (lines : List (List Char)) (i : Nat) (out : List LineRange) : List LineRange :=
  if inside : i < lines.length then
    if base64 : isBase64Line lines[i] then
      have moves := lt_skipBase64Lines inside base64
      let last := skipBase64Lines lines i - 1
      base64BlobLoop lines (skipBase64Lines lines i)
        (if base64MinLines ≤ last - i + 1 then out ++ [⟨i, last, Nat.le_sub_one_of_lt moves⟩]
          else out)
    else base64BlobLoop lines (i + 1) out
  else out
  termination_by lines.length - i

/-- What marks a generated file. -/
def generatedMarkers : List String :=
  ["@generated", "DO NOT EDIT", "do not edit", "Code generated by", "code generated by",
    "Auto-generated", "auto-generated", "AUTOGENERATED"]

/-- Whether a line marks its file as generated. -/
def isGeneratedMarker (line : List Char) : Bool :=
  generatedMarkers.any fun marker => Text.contains marker.toList line

/-- The part of a generated file that is not worth reading. -/
def detectGeneratedBody (lines : List (List Char)) : Option LineRange :=
  if lines.length < generatedMinFileLines then none
  else
    match (lines.take generatedHeadScan).findIdx? isGeneratedMarker with
    | none => none
    | some markerLine =>
      let headEnd := min (markerLine + generatedKeepAfterMarker) (lines.length - 1)
      if inside : headEnd + 1 < lines.length then
        some ⟨headEnd + 1, lines.length - 1, Nat.le_sub_one_of_lt inside⟩
      else none

/-- All regions that are recognized, one detector after the other. -/
def detectNoise (lines : List (List Char)) : List NoiseRegion :=
  (detectLicenseHeader lines).toList.map (⟨·, .license⟩) ++
    (detectGeneratedBody lines).toList.map (⟨·, .generated⟩) ++
    (detectBase64Blobs lines).map (⟨·, .base64⟩)

/-- The regions that are elided: of those that overlap, the first one. -/
def keptNoise (lines : List (List Char)) : List NoiseRegion :=
  Listing.keepApart (fun region => region.first) (fun region => region.last)
    (Listing.sortByKey (fun region => region.first) (detectNoise lines))

/-- The line that stands for a region of a kind. -/
def formatMarker (kind : String) (lines : Nat) : List Char :=
  match kind with
  | "license" => s!"[[mcp-cli: stripped {lines}-line license header]]".toList
  | "base64" => s!"[[mcp-cli: stripped {lines}-line base64 blob]]".toList
  | "generated" => s!"[[mcp-cli: stripped {lines}-line generated body]]".toList
  | _ => s!"[[mcp-cli: stripped {lines} lines]]".toList

/-- How many lines a region has, as a 32-bit number. -/
def NoiseRegion.count (region : NoiseRegion) : Nat :=
  (region.last - region.first + 1) % 2 ^ 32

/-- A region as it is reported, with 32-bit line numbers. -/
def NoiseRegion.report (region : NoiseRegion) : StrippedRegion where
  kind := region.kind.text
  startLine := (region.first + 1) % 2 ^ 32
  endLine := (region.last + 1) % 2 ^ 32
  lines := region.count

/-- What has been written so far. -/
structure StripOutput where
  content : List Char
  /-- Nothing has been written. -/
  first : Bool
  regions : List StrippedRegion

/-- Write a line behind those that were written before. -/
def StripOutput.pushLine (out : StripOutput) (line : List Char) : StripOutput :=
  { out with
    content := (if out.first then out.content else out.content ++ ['\n']) ++ line
    first := false }

/-- The loop over the lines of a file, with the regions that are still to come. -/
def stripFrom (lines : List (List Char)) (idx : Nat) (iter : List NoiseRegion)
    (out : StripOutput) : StripOutput :=
  if inside : idx < lines.length then
    match iter with
    | [] => stripFrom lines (idx + 1) [] (out.pushLine lines[idx])
    | region :: rest =>
      if here : idx = region.first then
        let out := out.pushLine (formatMarker region.kind.text region.count)
        stripFrom lines (region.last + 1) rest
          { out with regions := out.regions ++ [region.report] }
      else stripFrom lines (idx + 1) (region :: rest) (out.pushLine lines[idx])
  else out
  termination_by lines.length - idx
  decreasing_by
    · omega
    · have ordered := region.ordered
      omega
    · omega

/-- Replace the boilerplate of a text. -/
def stripNoise (content : List Char) : StripResult :=
  let lines := Text.lines content
  let out := stripFrom lines 0 (keptNoise lines) { content := [], first := true, regions := [] }
  { content := if content.getLast? = some '\n' then out.content ++ ['\n'] else out.content
    regions := out.regions }

end McpCli
