import Mathlib.Data.List.Basic

/-! The hash FNV-1a with 64 bits, and how far it tells bytes apart. -/

namespace Bytes

/-- The number that every byte is multiplied in with. -/
def fnvPrime : UInt64 := 0x100000001b3

/-- One more byte of the input. -/
def fnvStep (hash : UInt64) (byte : UInt8) : UInt64 := (hash ^^^ byte.toUInt64) * fnvPrime

/-- The hash of some bytes. -/
def fnv1a64 (bytes : List UInt8) : UInt64 := bytes.foldl fnvStep 0xcbf29ce484222325

/-- Multiplying can be taken back, as the number is odd. -/
theorem mul_fnvPrime_inj {a b : UInt64} (same : a * fnvPrime = b * fnvPrime) : a = b := by
  have inverse : fnvPrime * 0xce965057aff6957b = 1 := by decide
  have back := congrArg (· * 0xce965057aff6957b) same
  simp only [UInt64.mul_assoc, inverse, UInt64.mul_one] at back
  exact back

/-- Different hashes stay different by the same byte. -/
theorem fnvStep_left_inj {a b : UInt64} {byte : UInt8} :
    fnvStep a byte = fnvStep b byte ↔ a = b := by
  refine ⟨fun same => ?_, fun same => by rw [same]⟩
  exact (UInt64.xor_left_inj _).mp (mul_fnvPrime_inj same)

/-- Different bytes make a hash different. -/
theorem fnvStep_right_inj {hash : UInt64} {byte other : UInt8} :
    fnvStep hash byte = fnvStep hash other ↔ byte = other := by
  refine ⟨fun same => ?_, fun same => by rw [same]⟩
  have wide := (UInt64.xor_right_inj _).mp (mul_fnvPrime_inj same)
  have narrow := congrArg UInt64.toUInt8 wide
  rwa [UInt8.toUInt8_toUInt64, UInt8.toUInt8_toUInt64] at narrow

/-- Bytes that both inputs end with make no difference. -/
theorem foldl_fnvStep_inj {a b : UInt64} (back : List UInt8) :
    back.foldl fnvStep a = back.foldl fnvStep b ↔ a = b := by
  induction back generalizing a b with
  | nil => exact Iff.rfl
  | cons byte rest ih => rw [List.foldl_cons, List.foldl_cons, ih, fnvStep_left_inj]

/-- Inputs that differ in one byte are told apart. -/
theorem fnv1a64_byte_inj {front back : List UInt8} {byte other : UInt8} :
    fnv1a64 (front ++ byte :: back) = fnv1a64 (front ++ other :: back) ↔ byte = other := by
  rw [fnv1a64, fnv1a64, List.foldl_append, List.foldl_append, List.foldl_cons, List.foldl_cons,
    foldl_fnvStep_inj, fnvStep_right_inj]

end Bytes
