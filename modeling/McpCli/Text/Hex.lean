import Mathlib.Algebra.Group.Nat.Defs
import McpCli.Text.Quoted

/-! Numbers in the base sixteen, with a fixed number of digits. -/

namespace Text

/-- So many digits of a number, the first of which may be zeros. -/
def hexDigits : (width : Nat) → Nat → List Char
  | 0, _ => []
  | width + 1, n => hexDigits width (n / 16) ++ [hexDigit (n % 16)]

/-- There are as many digits as are asked for. -/
@[simp] theorem length_hexDigits (width n : Nat) : (hexDigits width n).length = width := by
  induction width generalizing n with
  | zero => rfl
  | succ width ih => rw [hexDigits, List.length_append, ih]; rfl

/-- Nothing but digits of the base is among them. -/
theorem mem_hexDigits {width n : Nat} {c : Char} (member : c ∈ hexDigits width n) :
    ∃ value < 16, c = hexDigit value := by
  -- The last digit is a remainder, and the others are those of the quotient.
  induction width generalizing n with
  | zero => cases member
  | succ width ih =>
    rw [hexDigits, List.mem_append] at member
    rcases member with high | low
    · exact ih high
    · exact ⟨n % 16, Nat.mod_lt _ (by decide), List.mem_singleton.mp low⟩

/-- A number that fits is told by its digits. -/
theorem hexDigits_inj {width n m : Nat} (fits : n < 16 ^ width) (fits' : m < 16 ^ width)
    (same : hexDigits width n = hexDigits width m) : n = m := by
  -- The last digits are the same, and so are the quotients by the induction.
  induction width generalizing n m with
  | zero =>
    rw [Nat.pow_zero] at fits fits'
    omega
  | succ width ih =>
    have lengths : (hexDigits width (n / 16)).length = (hexDigits width (m / 16)).length := by
      rw [length_hexDigits, length_hexDigits]
    obtain ⟨high, low⟩ := List.append_inj same lengths
    have bound := Nat.pow_succ (n := 16) (m := width)
    have others : n / 16 = m / 16 := ih (by omega) (by omega) high
    have last := congrArg hexValue (List.singleton_inj.mp low)
    rw [hexValue_hexDigit _ (by omega), hexValue_hexDigit _ (by omega)] at last
    omega

end Text
