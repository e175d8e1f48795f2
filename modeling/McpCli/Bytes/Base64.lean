import Mathlib.Data.List.GetD
import Mathlib.Data.List.Infix
import Mathlib.Data.UInt

/-! Bytes as characters of the base 64, three bytes as four characters. -/

namespace Bytes

/-- The digits of the base, in their order. -/
def base64Alphabet : List Char :=
  "ABCDEFGHIJKLMNOPQRSTUVWXYZabcdefghijklmnopqrstuvwxyz0123456789+/".toList

/-- The character that fills up the last four. -/
def base64Pad : Char := '='

/-- The digit with a value. -/
def base64Digit (value : Nat) : Char := base64Alphabet.getD value 'A'

/-- The value of a digit. -/
def base64Value (digit : Char) : Option Nat :=
  let value := base64Alphabet.idxOf digit
  if value < 64 then some value else none

/-- The characters of some bytes. -/
def encodeBase64 : List UInt8 → List Char
  | [] => []
  | [a] => [base64Digit (a.toNat / 4), base64Digit (a.toNat % 4 * 16), base64Pad, base64Pad]
  | [a, b] =>
    [base64Digit (a.toNat / 4), base64Digit (a.toNat % 4 * 16 + b.toNat / 16),
      base64Digit (b.toNat % 16 * 4), base64Pad]
  | a :: b :: c :: rest =>
    base64Digit (a.toNat / 4) :: base64Digit (a.toNat % 4 * 16 + b.toNat / 16) ::
      base64Digit (b.toNat % 16 * 4 + c.toNat / 64) :: base64Digit (c.toNat % 64) ::
        encodeBase64 rest

/-- The bytes of some characters, if these are the characters of any bytes. -/
def decodeBase64 : List Char → Option (List UInt8)
  | [] => some []
  | w :: x :: y :: z :: rest => do
    let first ← base64Value w
    let second ← base64Value x
    let a := UInt8.ofNat (first * 4 + second / 16)
    if rest = [] ∧ y = base64Pad ∧ z = base64Pad then
      -- What is cut off must be zero.
      if second % 16 = 0 then some [a] else none
    else
      let third ← base64Value y
      let b := UInt8.ofNat (second % 16 * 16 + third / 4)
      if rest = [] ∧ z = base64Pad then
        if third % 4 = 0 then some [a, b] else none
      else
        let fourth ← base64Value z
        let c := UInt8.ofNat (third % 4 * 64 + fourth)
        let further ← decodeBase64 rest
        some (a :: b :: c :: further)
  | _ => none

/-- Each digit has the value that it stands for. -/
theorem base64Value_digit {value : Nat} (small : value < 64) :
    base64Value (base64Digit value) = some value := by
  have all : ∀ value < 64, base64Value (base64Digit value) = some value := by
    decide +kernel
  exact all value small

/-- No digit is the character that fills up. -/
theorem base64Digit_ne_pad (value : Nat) : base64Digit value ≠ base64Pad := by
  have all : ∀ value < 64, base64Digit value ≠ base64Pad := by decide +kernel
  by_cases small : value < 64
  · exact all value small
  · -- There is no digit for it, and another one stands in.
    rw [base64Digit, List.getD_eq_default _ _ (Nat.le_of_not_lt small)]
    decide

/-- A byte is made of the digits that it is a part of. -/
theorem ofNat_parts {byte : UInt8} {value : Nat} (same : value = byte.toNat) :
    UInt8.ofNat value = byte := by
  rw [same, UInt8.ofNat_toNat]

/-- Bytes are read back from their characters. -/
theorem decodeBase64_encodeBase64 (bytes : List UInt8) :
    decodeBase64 (encodeBase64 bytes) = some bytes := by
  induction bytes using encodeBase64.induct with
  | case1 => rfl
  | case2 a =>
    -- Two digits and two that fill up: the second digit has no more than two bits of the byte.
    have bound := a.toNat_lt
    rw [encodeBase64, decodeBase64, base64Value_digit (by omega), base64Value_digit (by omega)]
    simp only [Option.bind_eq_bind, Option.bind_some, and_self, if_true]
    rw [if_pos (by omega), ofNat_parts (show _ = a.toNat by omega)]
  | case3 a b =>
    have bound := a.toNat_lt
    have bound' := b.toNat_lt
    have third := base64Value_digit (show b.toNat % 16 * 4 < 64 by omega)
    rw [encodeBase64, decodeBase64, base64Value_digit (by omega), base64Value_digit (by omega)]
    -- The third character is a digit, so it does not fill up.
    simp only [Option.bind_eq_bind, Option.bind_some, base64Digit_ne_pad, false_and, and_false,
      if_false, third, and_self, if_true]
    rw [if_pos (by omega), ofNat_parts (show _ = a.toNat by omega),
      ofNat_parts (show _ = b.toNat by omega)]
  | case4 a b c rest ih =>
    have bound := a.toNat_lt
    have bound' := b.toNat_lt
    have bound'' := c.toNat_lt
    have third := base64Value_digit (show b.toNat % 16 * 4 + c.toNat / 64 < 64 by omega)
    have fourth := base64Value_digit (show c.toNat % 64 < 64 by omega)
    rw [encodeBase64, decodeBase64, base64Value_digit (by omega), base64Value_digit (by omega)]
    -- Neither the third nor the fourth character fills up.
    simp only [Option.bind_eq_bind, Option.bind_some, base64Digit_ne_pad, and_false, if_false,
      third, fourth, ih]
    rw [ofNat_parts (show _ = a.toNat by omega), ofNat_parts (show _ = b.toNat by omega),
      ofNat_parts (show _ = c.toNat by omega)]

/-- Whole groups of three bytes are followed by the characters of what is behind them. -/
theorem encodeBase64_append {front : List UInt8} (groups : 3 ∣ front.length)
    (rest : List UInt8) :
    encodeBase64 (front ++ rest) = encodeBase64 front ++ encodeBase64 rest := by
  -- Whole groups leave no one or two bytes over.
  induction front using encodeBase64.induct with
  | case1 => rfl
  | case2 a => simp at groups
  | case3 a b => simp at groups
  | case4 a b c front ih =>
    have fewer : 3 ∣ front.length := by simpa using groups
    simp only [List.cons_append, encodeBase64, ih fewer]

/-- Bytes behind a group that is not whole change its characters. -/
theorem whole_of_encodeBase64_prefix {front rest : List UInt8}
    (shared : encodeBase64 front <+: encodeBase64 (front ++ rest)) :
    rest = [] ∨ 3 ∣ front.length := by
  induction front using encodeBase64.induct with
  | case1 => exact .inr (Nat.dvd_zero 3)
  | case2 a =>
    -- The third character is a digit as soon as there is a second byte.
    cases rest with
    | nil => exact .inl rfl
    | cons b rest =>
      cases rest with
      | nil =>
        simp [encodeBase64, List.cons_prefix_cons, (base64Digit_ne_pad _).symm] at shared
      | cons c rest =>
        simp [encodeBase64, List.cons_prefix_cons, (base64Digit_ne_pad _).symm] at shared
  | case3 a b =>
    cases rest with
    | nil => exact .inl rfl
    | cons c rest =>
      simp [encodeBase64, List.cons_prefix_cons, (base64Digit_ne_pad _).symm] at shared
  | case4 a b c front ih =>
    -- The first group is the same on both sides.
    simp only [List.cons_append, encodeBase64, List.cons_prefix_cons, true_and] at shared
    rcases ih shared with none_ | groups
    · exact .inl none_
    · exact .inr (by simpa using groups)

end Bytes
