import Mathlib.Algebra.Group.Nat.Defs
import Mathlib.Data.List.Basic

/-! Words between white space, and the numbers that they spell. -/

namespace Text

/-- The white space of Unicode. -/
def isWhitespace (c : Char) : Bool :=
  let n := c.toNat
  (9 ≤ n && n ≤ 13) || n == 0x20 || n == 0x85 || n == 0xA0 || n == 0x1680 ||
    (0x2000 ≤ n && n ≤ 0x200A) || n == 0x2028 || n == 0x2029 || n == 0x202F ||
    n == 0x205F || n == 0x3000

/-- The words of a text, without the white space between them. -/
def splitWhitespace (text : List Char) : List (List Char) :=
  (text.splitOnP isWhitespace).filter fun word => !word.isEmpty

/-- A text without the white space in front of it. -/
def trimStart (text : List Char) : List Char := text.dropWhile isWhitespace

/-- A text without the white space around it. -/
def trim (text : List Char) : List Char :=
  ((text.dropWhile isWhitespace).reverse.dropWhile isWhitespace).reverse

/--
The lower case of a character, as far as letters of ASCII come out of it: of the other characters,
only the sign for kelvin and the capital I with a dot have one of them in their lower case.
-/
def lowercase (c : Char) : List Char :=
  if c = Char.ofNat 0x212A then ['k']
  else if c = Char.ofNat 0x130 then ['i', Char.ofNat 0x307]
  else [c.toLower]

/-- A text in lower case, as far as it can contain a word of ASCII. -/
def toLowercase (text : List Char) : List Char := text.flatMap lowercase

/-- What follows a prefix that the text has to have. -/
def stripPrefix (front text : List Char) : Option (List Char) :=
  if front.isPrefixOf text then some (text.drop front.length) else none

/-- A 64-bit number in decimal digits, with an optional plus sign. -/
def parseUsize (text : List Char) : Option Nat :=
  let digits := if text.head? = some '+' then text.tail else text
  if digits ≠ [] ∧ digits.all Char.isDigit = true then
    let n := Nat.ofDigitChars 10 digits 0
    -- A number that does not fit is refused, not cut off.
    if n < 2 ^ 64 then some n else none
  else none

/-- The decimal digits of a number. -/
def decimal (n : Nat) : List Char := Nat.toDigits 10 n

/-- Of a text, only what is around it is left out. -/
theorem trim_sublist (text : List Char) : (trim text).Sublist text := by
  have front := List.dropWhile_sublist (l := text) isWhitespace
  have back := List.dropWhile_sublist (l := (text.dropWhile isWhitespace).reverse) isWhitespace
  have straight := back.reverse
  rw [List.reverse_reverse] at straight
  exact straight.trans front

/-- A text that begins with something else than white space keeps it. -/
theorem trim_cons_ne_nil {c : Char} (solid : isWhitespace c = false) (rest : List Char) :
    trim (c :: rest) ≠ [] := by
  intro blank
  unfold trim at blank
  rw [List.dropWhile_cons_of_neg (by simp [solid]), List.reverse_eq_nil_iff, List.reverse_cons,
    List.dropWhile_append] at blank
  -- What is cut off at the end stops at the first character at the latest.
  split at blank
  · rw [List.dropWhile_cons_of_neg (by simp [solid])] at blank
    cases blank
  · exact absurd blank (List.append_ne_nil_of_right_ne_nil _ (List.cons_ne_nil _ _))

/-- Every character of a number is a digit. -/
theorem isDigit_of_mem_decimal {n : Nat} {c : Char} (member : c ∈ decimal n) :
    c.isDigit = true :=
  Nat.isDigit_of_mem_toDigits (by decide) (by decide) member

/-- A digit is neither white space nor any other character that is no digit. -/
theorem isWhitespace_of_isDigit {c : Char} (digit : c.isDigit = true) :
    isWhitespace c = false := by
  -- The digits lie above the first white space and below the rest of it.
  simp only [Char.isDigit, Bool.and_eq_true, decide_eq_true_eq] at digit
  have low : 48 ≤ c.toNat := by simpa [UInt32.le_iff_toNat_le] using digit.1
  have high : c.toNat ≤ 57 := by simpa [UInt32.le_iff_toNat_le] using digit.2
  simp only [isWhitespace, Bool.or_eq_false_iff, Bool.and_eq_false_iff, decide_eq_false_iff_not,
    beq_eq_false_iff_ne]
  omega

/-- A number that fits is read back from its digits. -/
theorem parseUsize_decimal {n : Nat} (fits : n < 2 ^ 64) : parseUsize (decimal n) = some n := by
  have unsigned : (decimal n).head? ≠ some '+' := by
    intro plus
    have digit := isDigit_of_mem_decimal (List.mem_of_mem_head? plus)
    cases digit
  -- Without a sign, all of it is read as digits.
  have digits : (decimal n).all Char.isDigit = true :=
    List.all_eq_true.mpr fun c member => isDigit_of_mem_decimal member
  have value : Nat.ofDigitChars 10 (decimal n) 0 = n :=
    Nat.ofDigitChars_toDigits (by decide) (by decide)
  have nonempty : decimal n ≠ [] := Nat.toDigits_ne_nil
  simp only [parseUsize, if_neg unsigned, digits, value, if_pos fits]
  rw [if_pos ⟨nonempty, trivial⟩]

/-- A word that is followed by white space is the first of the words. -/
theorem splitWhitespace_word {word : List Char} (some_char : word ≠ [])
    (solid : ∀ c ∈ word, isWhitespace c = false) {blank : Char}
    (white : isWhitespace blank = true) (text : List Char) :
    splitWhitespace (word ++ blank :: text) = word :: splitWhitespace text := by
  -- The first blank behind the word ends it.
  rw [splitWhitespace, List.splitOnP_append_cons_of_forall_mem solid blank white,
    List.filter_cons_of_pos (by simpa using some_char), splitWhitespace]

end Text
