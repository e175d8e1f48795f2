import Mathlib.Data.List.Basic

/-! Texts as the bytes that a file holds. -/

namespace Text

/-- The UTF-8 encoding of a text. -/
def encodeUtf8 (chars : List Char) : List UInt8 := chars.flatMap String.utf8EncodeChar

/-- The text that a list of bytes encodes, if it encodes any. -/
def decodeUtf8 (bytes : List UInt8) : Option (List Char) :=
  bytes.toByteArray.utf8Decode?.map Array.toList

/-- Decoding reads back what was encoded. -/
@[simp] theorem decodeUtf8_encodeUtf8 (chars : List Char) :
    decodeUtf8 (encodeUtf8 chars) = some chars := by
  -- The array of the encoded bytes is the library's own encoding of the text.
  show (chars.utf8Encode.utf8Decode?).map Array.toList = some chars
  rw [List.utf8Decode?_utf8Encode, Option.map_some]

/-- The bytes of a text are those of its first character and those of the others. -/
theorem encodeUtf8_cons (c : Char) (chars : List Char) :
    encodeUtf8 (c :: chars) = String.utf8EncodeChar c ++ encodeUtf8 chars := rfl

/-- The bytes of two texts behind each other. -/
theorem encodeUtf8_append (front rest : List Char) :
    encodeUtf8 (front ++ rest) = encodeUtf8 front ++ encodeUtf8 rest := List.flatMap_append

/-- A text is as long as its first character and the others. -/
theorem length_encodeUtf8_cons (c : Char) (chars : List Char) :
    (encodeUtf8 (c :: chars)).length = c.utf8Size + (encodeUtf8 chars).length := by
  rw [encodeUtf8_cons, List.length_append, String.length_utf8EncodeChar]

/-- A character has four bytes at most. -/
theorem length_encodeUtf8_le (chars : List Char) :
    (encodeUtf8 chars).length ≤ 4 * chars.length := by
  induction chars with
  | nil => exact Nat.zero_le _
  | cons c rest ih =>
    have small := Char.utf8Size_le_four c
    rw [length_encodeUtf8_cons, List.length_cons]
    omega

/-- The texts in front of a byte index and behind it, if the index is not within a character. -/
def splitBytes : List Char → Nat → Option (List Char × List Char)
  | chars, 0 => some ([], chars)
  | [], _ + 1 => none
  | c :: chars, index =>
    if c.utf8Size ≤ index then
      (splitBytes chars (index - c.utf8Size)).map fun (front, rest) => (c :: front, rest)
    else none

/-- The index is where a character of the text begins, or its end. -/
def IsCharBoundary (chars : List Char) (index : Nat) : Prop := (splitBytes chars index).isSome

instance (chars : List Char) (index : Nat) : Decidable (IsCharBoundary chars index) :=
  inferInstanceAs (Decidable ((splitBytes chars index).isSome = true))

/-- The part of a text between two byte indices, if neither is within a character. -/
def sliceBytes (chars : List Char) (start stop : Nat) : Option (List Char) :=
  (splitBytes chars stop).bind fun (front, _) => (splitBytes front start).map Prod.snd

/-- A text is taken apart where its front ends. -/
theorem splitBytes_append (front rest : List Char) :
    splitBytes (front ++ rest) (encodeUtf8 front).length = some (front, rest) := by
  induction front with
  | nil => simp [splitBytes, encodeUtf8]
  | cons c front ih =>
    -- A character has at least one byte, so the index is not the first one.
    have some_bytes := c.utf8Size_pos
    rw [length_encodeUtf8_cons, List.cons_append, splitBytes, if_pos (by omega),
      Nat.add_sub_cancel_left, ih]
    · rfl
    · omega

/-- Two fronts of a text with as many bytes are the same. -/
theorem append_inj_bytes {front rest front' rest' : List Char}
    (text : front ++ rest = front' ++ rest')
    (bytes : (encodeUtf8 front).length = (encodeUtf8 front').length) :
    front = front' ∧ rest = rest' := by
  have split := splitBytes_append front rest
  rw [text, bytes, splitBytes_append, Option.some.injEq, Prod.mk.injEq] at split
  exact ⟨split.1.symm, split.2.symm⟩

/-- What a text is taken apart into is the text, and the front ends at the index. -/
theorem splitBytes_eq_some {chars front rest : List Char} {index : Nat}
    (split : splitBytes chars index = some (front, rest)) :
    chars = front ++ rest ∧ (encodeUtf8 front).length = index := by
  -- The induction takes off one character after the other, with as many bytes as it has.
  fun_induction splitBytes chars index generalizing front rest with
  | case1 chars =>
    -- The first index has nothing in front of it.
    cases split
    exact ⟨rfl, rfl⟩
  | case2 index => cases split
  | case3 index c chars inside fits ih =>
    obtain ⟨⟨front', rest'⟩, split', same⟩ := Option.map_eq_some_iff.mp split
    cases same
    obtain ⟨text, bytes⟩ := ih split'
    refine ⟨by rw [text, List.cons_append], ?_⟩
    rw [length_encodeUtf8_cons, bytes]
    omega
  | case4 index c chars inside short => cases split

/-- A character begins where some first characters of the text end. -/
theorem isCharBoundary_iff {chars : List Char} {index : Nat} : IsCharBoundary chars index ↔
    ∃ front rest, chars = front ++ rest ∧ (encodeUtf8 front).length = index := by
  -- Where the text can be taken apart, it is known what stands in front.
  constructor
  · intro boundary
    obtain ⟨⟨front, rest⟩, split⟩ := Option.isSome_iff_exists.mp boundary
    exact ⟨front, rest, splitBytes_eq_some split⟩
  · intro cut
    obtain ⟨front, rest, rfl, rfl⟩ := cut
    rw [IsCharBoundary, splitBytes_append]
    rfl

/-- A part of a text is what is between the two indices. -/
theorem sliceBytes_eq_some {chars part : List Char} {start stop : Nat}
    (sliced : sliceBytes chars start stop = some part) :
    ∃ front rest, chars = front ++ part ++ rest ∧ (encodeUtf8 front).length = start ∧
      (encodeUtf8 (front ++ part)).length = stop := by
  -- The text is taken apart at the second index, and what is in front of that at the first one.
  obtain ⟨⟨upTo, rest⟩, atStop, sliced⟩ := Option.bind_eq_some_iff.mp sliced
  obtain ⟨⟨front, part'⟩, atStart, rfl⟩ := Option.map_eq_some_iff.mp sliced
  obtain ⟨text, stops⟩ := splitBytes_eq_some atStop
  obtain ⟨inner, starts⟩ := splitBytes_eq_some atStart
  exact ⟨front, rest, by rw [text, inner], starts, by rw [← inner, stops]⟩

/-- Behind a front of the text, it can be sliced up to where another character begins. -/
theorem sliceBytes_isSome {front rest : List Char} {stop : Nat}
    (behind : (encodeUtf8 front).length ≤ stop) (boundary : IsCharBoundary (front ++ rest) stop) :
    ∃ part, sliceBytes (front ++ rest) (encodeUtf8 front).length stop = some part := by
  -- What is in front of the second index goes on behind the front.
  obtain ⟨⟨upTo, others⟩, split⟩ := Option.isSome_iff_exists.mp boundary
  obtain ⟨text, stops⟩ := splitBytes_eq_some split
  rcases List.append_eq_append_iff.mp text with ⟨part, rfl, _⟩ | ⟨more, rfl, _⟩
  · refine ⟨part, ?_⟩
    rw [sliceBytes, split, Option.bind_some]
    simp only
    rw [splitBytes_append]
    rfl
  · -- The front would go on behind the index, which is behind the front.
    refine ⟨[], ?_⟩
    rw [encodeUtf8_append, List.length_append] at behind
    have none_left : (encodeUtf8 more).length = 0 := by omega
    have same : (encodeUtf8 (upTo ++ more)).length = (encodeUtf8 upTo).length := by
      rw [encodeUtf8_append, List.length_append]
      omega
    have whole := splitBytes_append upTo []
    rw [List.append_nil] at whole
    rw [sliceBytes, split, Option.bind_some, same]
    simp only
    rw [whole]
    rfl

/-- Behind a text the boundaries are those of the text that follows. -/
theorem isCharBoundary_append {front rest : List Char} {index : Nat}
    (boundary : IsCharBoundary (front ++ rest) ((encodeUtf8 front).length + index)) :
    IsCharBoundary rest index := by
  -- The same text is taken apart at two places.
  rw [isCharBoundary_iff] at boundary ⊢
  obtain ⟨shown, hidden, text, bytes⟩ := boundary
  rcases List.append_eq_append_iff.mp text with ⟨more, rfl, rfl⟩ | ⟨more, rfl, rfl⟩
  · -- The text in front of the boundary goes on behind the front.
    refine ⟨more, hidden, rfl, ?_⟩
    rw [encodeUtf8_append, List.length_append] at bytes
    omega
  · -- It ends within the front, so there is nothing behind the front.
    refine ⟨[], rest, rfl, ?_⟩
    rw [encodeUtf8_append, List.length_append] at bytes
    show 0 = index
    omega

end Text
