import Mathlib.Algebra.Group.Nat.Defs

/-! Numbers as a fixed count of bytes, the most significant one first. -/

namespace Bytes

/-- The lowest bytes of a number, as many as asked for. -/
def toBe : Nat → Nat → List UInt8
  | 0, _ => []
  | width + 1, n => toBe width (n / 256) ++ [UInt8.ofNat n]

/-- The number that some bytes spell. -/
def fromBe (bytes : List UInt8) : Nat :=
  bytes.foldl (fun n byte => n * 256 + byte.toNat) 0

/-- A number takes as many bytes as asked for. -/
@[simp] theorem length_toBe (width n : Nat) : (toBe width n).length = width := by
  induction width generalizing n with
  | zero => rfl
  | succ width ih => rw [toBe, List.length_append, ih, List.length_singleton]

/-- One more byte shifts the number by eight bits. -/
theorem fromBe_concat (bytes : List UInt8) (byte : UInt8) :
    fromBe (bytes ++ [byte]) = fromBe bytes * 256 + byte.toNat := by
  rw [fromBe, List.foldl_append]
  rfl

/-- Reading back gives the number, cut off at the given count of bytes. -/
theorem fromBe_toBe (width n : Nat) : fromBe (toBe width n) = n % 256 ^ width := by
  -- Each byte carries one more digit to the base 256.
  induction width generalizing n with
  | zero => simp [toBe, fromBe, Nat.mod_one]
  | succ width ih =>
    have split : n % 256 ^ (width + 1) = n % 256 + 256 * (n / 256 % 256 ^ width) := by
      rw [Nat.pow_succ', Nat.mod_mul]
    rw [toBe, fromBe_concat, ih, UInt8.toNat_ofNat', split]
    omega

/-- A number that fits is read back as it was. -/
theorem fromBe_toBe_of_lt {width n : Nat} (fits : n < 256 ^ width) :
    fromBe (toBe width n) = n := by
  rw [fromBe_toBe, Nat.mod_eq_of_lt fits]

end Bytes
