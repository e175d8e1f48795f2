import Mathlib.Data.List.Basic

/-! Finding and replacing a non-empty text in another one, from left to right. -/

namespace Text

variable {α : Type*} [DecidableEq α]

/-- Whether one text occurs in another one. -/
def contains (search text : List α) : Bool := text.tails.any fun rest => search.isPrefixOf rest

/-- Count the occurrences that do not overlap, behind so many characters of one already found. -/
def matchCount (search : List α) : (skip : Nat) → List α → Nat
  | _, [] => 0
  | skip + 1, _ :: rest => matchCount search skip rest
  | 0, c :: rest =>
    if search.isPrefixOf (c :: rest) then 1 + matchCount search (search.length - 1) rest
    else matchCount search 0 rest

/-- Replace the occurrences that are counted. -/
def replaceMatches (search replacement : List α) : (skip : Nat) → List α → List α
  | _, [] => []
  | skip + 1, _ :: rest => replaceMatches search replacement skip rest
  | 0, c :: rest =>
    if search.isPrefixOf (c :: rest) then
      replacement ++ replaceMatches search replacement (search.length - 1) rest
    else c :: replaceMatches search replacement 0 rest

end Text
