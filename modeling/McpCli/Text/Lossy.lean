import Mathlib.Data.List.Basic
import McpCli.Text.Utf8

/-! Bytes as a text, where whatever is not UTF-8 is replaced by a character that says so. -/

namespace Text

/-- The character that stands for bytes that are none. -/
def replacement : Char := Char.ofNat 0xFFFD

/-- A byte that continues a character. -/
def isContinuation (byte : Nat) : Bool := 0x80 ≤ byte && byte ≤ 0xBF

/-- The second byte of a character of three bytes; no other spelling of a shorter one is taken. -/
def isSecondOfThree (first second : Nat) : Bool :=
  if first = 0xE0 then 0xA0 ≤ second && second ≤ 0xBF
  -- The surrogates are not characters.
  else if first = 0xED then 0x80 ≤ second && second ≤ 0x9F
  else isContinuation second

/-- The second byte of a character of four bytes. -/
def isSecondOfFour (first second : Nat) : Bool :=
  if first = 0xF0 then 0x90 ≤ second && second ≤ 0xBF
  else if first = 0xF4 then 0x80 ≤ second && second ≤ 0x8F
  else isContinuation second

/--
The character that some bytes start with and how many of them it takes, or how many of them are
replaced when they start with none: as many as could have been the start of one.
-/
def decodeHead (first : UInt8) (rest : List UInt8) : Option Char × Nat :=
  let b0 := first.toNat
  -- A byte that is missing continues nothing.
  let b1 := (rest.getD 0 0).toNat
  let b2 := (rest.getD 1 0).toNat
  let b3 := (rest.getD 2 0).toNat
  if b0 < 0x80 then (some (Char.ofNat b0), 1)
  else if 0xC2 ≤ b0 ∧ b0 ≤ 0xDF then
    if isContinuation b1 then (some (Char.ofNat ((b0 - 0xC0) * 0x40 + (b1 - 0x80))), 2)
    else (none, 1)
  else if 0xE0 ≤ b0 ∧ b0 ≤ 0xEF then
    if isSecondOfThree b0 b1 then
      if isContinuation b2 then
        (some (Char.ofNat ((b0 - 0xE0) * 0x1000 + (b1 - 0x80) * 0x40 + (b2 - 0x80))), 3)
      else (none, 2)
    else (none, 1)
  else if 0xF0 ≤ b0 ∧ b0 ≤ 0xF4 then
    if isSecondOfFour b0 b1 then
      if isContinuation b2 then
        if isContinuation b3 then
          (some (Char.ofNat ((b0 - 0xF0) * 0x40000 + (b1 - 0x80) * 0x1000 + (b2 - 0x80) * 0x40 +
            (b3 - 0x80))), 4)
        else (none, 3)
      else (none, 2)
    else (none, 1)
  else (none, 1)

/-- The text of some bytes, when so many of them have been taken already. -/
def decodeFrom : Nat → List UInt8 → List Char
  | _, [] => []
  | skip + 1, _ :: rest => decodeFrom skip rest
  | 0, first :: rest =>
    let (c, taken) := decodeHead first rest
    c.getD replacement :: decodeFrom (taken - 1) rest

/-- The text of some bytes, whatever they are. -/
def decodeLossy (bytes : List UInt8) : List Char := decodeFrom 0 bytes

/-- Bytes that have been taken are passed over. -/
theorem decodeFrom_eq (skip : Nat) (bytes : List UInt8) :
    decodeFrom skip bytes = decodeLossy (bytes.drop skip) := by
  -- Each byte that is passed over is one that is dropped.
  induction bytes generalizing skip with
  | nil => simp [decodeFrom, decodeLossy]
  | cons byte rest ih =>
    cases skip with
    | zero => rfl
    | succ skip => exact ih skip

/-- The first character of a text, or what replaces it. -/
theorem decodeLossy_cons (first : UInt8) (rest : List UInt8) :
    decodeLossy (first :: rest) = (decodeHead first rest).1.getD replacement ::
      decodeLossy (rest.drop ((decodeHead first rest).2 - 1)) := by
  simp only [decodeLossy, decodeFrom]
  rw [decodeFrom_eq, decodeLossy]

/-- The first two bytes of a character of three are replaced together. -/
example : decodeLossy [0x61, 0xE2, 0x82, 0x62] = ['a', replacement, 'b'] := by decide

/-- A byte below 256 is what it is written as. -/
theorem toNat_byte {n : Nat} (small : n < 256) : (UInt8.ofNat n).toNat = n := by
  rw [UInt8.toNat_ofNat', Nat.mod_eq_of_lt small]

/-- The number of a character is no surrogate, and below the largest one. -/
theorem toNat_valid (c : Char) :
    c.val.toNat < 0xD800 ∨ 0xDFFF < c.val.toNat ∧ c.val.toNat < 0x110000 := c.valid

/-- The character of its number. -/
theorem ofNat_val (c : Char) : Char.ofNat c.val.toNat = c := Char.ofNat_toNat c

/-- An encoded character is decoded from its bytes, whatever follows them. -/
theorem decodeHead_encode (c : Char) : ∃ first tail, String.utf8EncodeChar c = first :: tail ∧
    ∀ rest, decodeHead first (tail ++ rest) = (some c, tail.length + 1) := by
  -- One case for each number of bytes, in which the tests of the decoder are those of the encoder.
  have valid := toNat_valid c
  unfold String.utf8EncodeChar
  generalize same : c.val.toNat = v at valid
  have back : Char.ofNat v = c := by rw [← same, ofNat_val]
  simp only
  split
  · rename_i one
    refine ⟨_, _, rfl, fun rest => ?_⟩
    have b0 : (UInt8.ofNat v).toNat = v := toNat_byte (by omega)
    simp only [decodeHead, b0]
    rw [if_pos (by omega), back]
    rfl
  · split
    · rename_i one two
      refine ⟨_, _, rfl, fun rest => ?_⟩
      have b0 := @toNat_byte (v / 64 % 32 + 192) (by omega)
      have b1 := @toNat_byte (v % 64 + 128) (by omega)
      have value : (v / 64 % 32 + 192 - 192) * 64 + (v % 64 + 128 - 128) = v := by omega
      simp only [decodeHead, b0, List.cons_append, List.nil_append, List.getD_cons_zero, b1, value,
        back]
      rw [if_neg (by omega), if_pos (by omega), if_pos]
      · rfl
      · simp only [isContinuation, Bool.and_eq_true, decide_eq_true_eq]
        omega
    · split
      · rename_i one two three
        refine ⟨_, _, rfl, fun rest => ?_⟩
        have b0 := @toNat_byte (v / 4096 % 16 + 224) (by omega)
        have b1 := @toNat_byte (v / 64 % 64 + 128) (by omega)
        have b2 := @toNat_byte (v % 64 + 128) (by omega)
        have value : (v / 4096 % 16 + 224 - 224) * 4096 + (v / 64 % 64 + 128 - 128) * 64 +
            (v % 64 + 128 - 128) = v := by omega
        simp only [decodeHead, b0, List.cons_append, List.nil_append, List.getD_cons_zero,
          List.getD_cons_succ, b1, b2, value, back]
        rw [if_neg (by omega), if_neg (by omega), if_pos (by omega), if_pos, if_pos]
        · rfl
        · simp only [isContinuation, Bool.and_eq_true, decide_eq_true_eq]
          omega
        · unfold isSecondOfThree isContinuation
          split
          · simp only [Bool.and_eq_true, decide_eq_true_eq]
            omega
          · split
            · simp only [Bool.and_eq_true, decide_eq_true_eq]
              omega
            · simp only [Bool.and_eq_true, decide_eq_true_eq]
              omega
      · rename_i one two three
        refine ⟨_, _, rfl, fun rest => ?_⟩
        have b0 := @toNat_byte (v / 262144 % 8 + 240) (by omega)
        have b1 := @toNat_byte (v / 4096 % 64 + 128) (by omega)
        have b2 := @toNat_byte (v / 64 % 64 + 128) (by omega)
        have b3 := @toNat_byte (v % 64 + 128) (by omega)
        have value : (v / 262144 % 8 + 240 - 240) * 262144 + (v / 4096 % 64 + 128 - 128) * 4096 +
            (v / 64 % 64 + 128 - 128) * 64 + (v % 64 + 128 - 128) = v := by omega
        simp only [decodeHead, b0, List.cons_append, List.nil_append, List.getD_cons_zero,
          List.getD_cons_succ, b1, b2, b3, value, back]
        rw [if_neg (by omega), if_neg (by omega), if_neg (by omega), if_pos (by omega), if_pos,
          if_pos, if_pos]
        · rfl
        · simp only [isContinuation, Bool.and_eq_true, decide_eq_true_eq]
          omega
        · simp only [isContinuation, Bool.and_eq_true, decide_eq_true_eq]
          omega
        · unfold isSecondOfFour isContinuation
          split
          · simp only [Bool.and_eq_true, decide_eq_true_eq]
            omega
          · split
            · simp only [Bool.and_eq_true, decide_eq_true_eq]
              omega
            · simp only [Bool.and_eq_true, decide_eq_true_eq]
              omega

/-- The second byte of a character of three bytes continues it. -/
theorem isContinuation_of_three {first second : Nat} (is : isSecondOfThree first second) :
    isContinuation second := by
  simp only [isSecondOfThree, isContinuation] at is ⊢
  grind

/-- The second byte of a character of four bytes continues it. -/
theorem isContinuation_of_four {first second : Nat} (is : isSecondOfFour first second) :
    isContinuation second := by
  simp only [isSecondOfFour, isContinuation] at is ⊢
  grind

/-- Bytes that are read as continuing ones are so, whether or not as many follow. -/
theorem continuation_of_take {rest : List UInt8} {count : Nat}
    (all : ∀ i < count, isContinuation (rest.getD i 0).toNat) :
    ∀ byte ∈ rest.take count, isContinuation byte.toNat := by
  -- A byte that is there is the one that was read, and none is asked of the others.
  intro byte mem
  obtain ⟨i, inside, rfl⟩ := List.mem_iff_getElem.mp mem
  rw [List.length_take] at inside
  have continued := all i (by omega)
  rw [List.getElem_take]
  rwa [List.getD_eq_getElem?_getD, List.getElem?_eq_getElem (by omega)] at continued

/-- What is taken with the first byte continues it. -/
theorem decodeHead_taken (first : UInt8) (rest : List UInt8) :
    ∀ byte ∈ rest.take ((decodeHead first rest).2 - 1), isContinuation byte.toNat := by
  refine continuation_of_take fun i below => ?_
  -- One case for each outcome of the tests, which the bytes passed before they were counted.
  unfold decodeHead at below
  simp only at below
  split at below
  · exact absurd below (Nat.not_lt_zero i)
  · split at below
    · split at below
      · rename_i second
        obtain rfl : i = 0 := by omega
        exact second
      · exact absurd below (Nat.not_lt_zero i)
    · split at below
      · split at below
        · rename_i second
          have second := isContinuation_of_three second
          split at below
          · rename_i third
            rcases i with _ | _ | i
            · exact second
            · exact third
            · omega
          · obtain rfl : i = 0 := by omega
            exact second
        · exact absurd below (Nat.not_lt_zero i)
      · split at below
        · split at below
          · rename_i second
            have second := isContinuation_of_four second
            split at below
            · rename_i third
              split at below
              · rename_i fourth
                rcases i with _ | _ | _ | i
                · exact second
                · exact third
                · exact fourth
                · omega
              · rcases i with _ | _ | i
                · exact second
                · exact third
                · omega
            · obtain rfl : i = 0 := by omega
              exact second
          · exact absurd below (Nat.not_lt_zero i)
        · exact absurd below (Nat.not_lt_zero i)

/-- A byte that continues a character does not begin one. -/
theorem decodeHead_continuation {first : UInt8} (continues : isContinuation first.toNat)
    (rest : List UInt8) : decodeHead first rest = (none, 1) := by
  simp only [isContinuation, Bool.and_eq_true, decide_eq_true_eq] at continues
  simp only [decodeHead]
  rw [if_neg (by omega), if_neg (by omega), if_neg (by omega), if_neg (by omega)]

/-- An encoded character is a byte that continues none, and bytes that continue it. -/
theorem encodeChar_shape (c : Char) : ∃ first tail, String.utf8EncodeChar c = first :: tail ∧
    ¬ isContinuation first.toNat ∧ ∀ byte ∈ tail, isContinuation byte.toNat := by
  -- Both are seen by decoding the bytes again.
  obtain ⟨first, tail, bytes, decoded⟩ := decodeHead_encode c
  refine ⟨first, tail, bytes, fun continues => ?_, fun byte mem => ?_⟩
  · -- Decoding would not have found the character.
    have none_found := decodeHead_continuation continues (tail ++ [])
    rw [decoded] at none_found
    cases none_found
  · have taken := decodeHead_taken first (tail ++ [])
    rw [decoded, Nat.add_sub_cancel, List.take_left] at taken
    exact taken byte mem

/-- An encoded text is decoded, and what follows it as if it stood alone. -/
theorem decodeLossy_encode_append (chars : List Char) (rest : List UInt8) :
    decodeLossy (encodeUtf8 chars ++ rest) = chars ++ decodeLossy rest := by
  -- The characters are decoded one by one, each from its own bytes.
  induction chars with
  | nil => rfl
  | cons c chars ih =>
    obtain ⟨first, tail, bytes, decoded⟩ := decodeHead_encode c
    rw [encodeUtf8_cons, bytes, List.append_assoc, List.cons_append, decodeLossy_cons, decoded,
      Nat.add_sub_cancel, List.drop_left, ih]
    rfl

/-- An encoded text is decoded. -/
@[simp] theorem decodeLossy_encodeUtf8 (chars : List Char) :
    decodeLossy (encodeUtf8 chars) = chars := by
  have alone := decodeLossy_encode_append chars []
  rw [List.append_nil] at alone
  rw [alone]
  exact List.append_nil chars

/-- Texts are told by their bytes. -/
theorem encodeUtf8_inj {chars other : List Char} (same : encodeUtf8 chars = encodeUtf8 other) :
    chars = other := by
  have read := congrArg decodeLossy same
  rwa [decodeLossy_encodeUtf8, decodeLossy_encodeUtf8] at read

/-- A byte of ASCII ends a text exactly if its character does. -/
theorem getLast?_encodeUtf8 {chars : List Char} {byte : UInt8} (ascii : byte.toNat < 0x80)
    (ends : (encodeUtf8 chars).getLast? = some byte) :
    chars.getLast? = some (Char.ofNat byte.toNat) := by
  rcases List.eq_nil_or_concat chars with rfl | ⟨front, c, rfl⟩
  · cases ends
  · -- The bytes of the last character are seen both by their shape and by decoding them.
    obtain ⟨first, tail, bytes, -, continues⟩ := encodeChar_shape c
    obtain ⟨first', tail', bytes', decoded⟩ := decodeHead_encode c
    have whole : encodeUtf8 (front ++ [c]) = encodeUtf8 front ++ (first :: tail) := by
      rw [encodeUtf8_append, encodeUtf8_cons, bytes]
      simp [encodeUtf8]
    rw [List.concat_eq_append] at ends ⊢
    rw [List.getLast?_concat]
    rcases List.eq_nil_or_concat tail with rfl | ⟨inner, last, rfl⟩
    · -- A single byte is the character itself.
      rw [whole, List.getLast?_concat, Option.some.injEq] at ends
      subst ends
      rw [bytes, List.cons.injEq] at bytes'
      obtain ⟨rfl, rfl⟩ := bytes'
      have single := decoded []
      have direct : decodeHead first [] = (some (Char.ofNat first.toNat), 1) := if_pos ascii
      rw [List.append_nil, direct, Prod.mk.injEq] at single
      rw [single.1]
    · -- The last of several bytes continues the character, which no byte of ASCII does.
      rw [whole, List.concat_eq_append, ← List.cons_append, ← List.append_assoc,
        List.getLast?_concat, Option.some.injEq] at ends
      subst ends
      have within := continues last (by simp)
      simp only [isContinuation, Bool.and_eq_true, decide_eq_true_eq] at within
      omega

/-- How many bytes continue no character. -/
def heads (bytes : List UInt8) : Nat := bytes.countP fun byte => !isContinuation byte.toNat

/-- Bytes that all continue a character have no head among them. -/
theorem heads_eq_zero {bytes : List UInt8} (all : ∀ byte ∈ bytes, isContinuation byte.toNat) :
    heads bytes = 0 := by
  rw [heads, List.countP_eq_zero]
  intro byte mem
  simp [all byte mem]

/-- An encoded text has a head for every character. -/
theorem heads_encodeUtf8 (chars : List Char) : heads (encodeUtf8 chars) = chars.length := by
  -- Of the bytes of a character only the first one is a head.
  induction chars with
  | nil => rfl
  | cons c chars ih =>
    obtain ⟨first, tail, bytes, head, continued⟩ := encodeChar_shape c
    have none_among := heads_eq_zero continued
    rw [heads] at ih none_among ⊢
    rw [encodeUtf8_cons, bytes, List.cons_append, List.countP_cons_of_pos (by simpa using head),
      List.countP_append, none_among, ih, List.length_cons]
    omega

/-- However the bytes begin, every head among those not taken yet is decoded or replaced. -/
theorem heads_le_decodeFrom (skip : Nat) (bytes : List UInt8) :
    heads (bytes.drop skip) ≤ (decodeFrom skip bytes).length := by
  induction bytes generalizing skip with
  | nil => simp [heads]
  | cons first rest ih =>
    cases skip with
    | succ skip => exact ih skip
    | zero =>
      -- The bytes taken with the first one are no heads.
      have decoded := ih ((decodeHead first rest).2 - 1)
      have none_among := heads_eq_zero (decodeHead_taken first rest)
      have parts : heads rest = heads (rest.take ((decodeHead first rest).2 - 1)) +
          heads (rest.drop ((decodeHead first rest).2 - 1)) := by
        rw [heads, heads, heads, ← List.countP_append, List.take_append_drop]
      have atMost : heads (first :: rest) ≤ heads rest + 1 := by
        rw [heads, heads, List.countP_cons]
        split <;> omega
      simp only [decodeFrom, List.drop_zero, List.length_cons]
      omega

/-- Every head is decoded or replaced. -/
theorem heads_le_decodeLossy (bytes : List UInt8) : heads bytes ≤ (decodeLossy bytes).length :=
  heads_le_decodeFrom 0 bytes

/-- Where the first byte continues a character, it is replaced on top of the heads. -/
theorem heads_lt_decodeLossy {first : UInt8} (continues : isContinuation first.toNat)
    (rest : List UInt8) : heads (first :: rest) < (decodeLossy (first :: rest)).length := by
  -- The byte is replaced alone, and the others are decoded behind it.
  have decoded := heads_le_decodeLossy rest
  rw [decodeLossy_cons, decodeHead_continuation continues, heads,
    List.countP_cons_of_neg (by simp [continues])]
  simp only [Nat.sub_self, List.drop_zero, List.length_cons]
  rw [heads] at decoded
  omega

/-- A head of an encoded text is where a character begins. -/
theorem isCharBoundary_head {chars : List Char} {front rest : List UInt8} {first : UInt8}
    (bytes : encodeUtf8 chars = front ++ first :: rest) (head : ¬ isContinuation first.toNat) :
    IsCharBoundary chars front.length := by
  induction chars generalizing front with
  | nil => simp [encodeUtf8] at bytes
  | cons c chars ih =>
    rw [encodeUtf8_cons] at bytes
    rcases List.append_eq_append_iff.mp bytes with ⟨more, rfl, later⟩ | ⟨more, cut, within⟩
    · -- The character is in front, and the head is one of the characters behind it.
      obtain ⟨shown, hidden, text, ends⟩ := isCharBoundary_iff.mp (ih later)
      refine isCharBoundary_iff.mpr ⟨c :: shown, hidden, by rw [text, List.cons_append], ?_⟩
      rw [encodeUtf8_cons, List.length_append, List.length_append, ends]
    · obtain ⟨begin, tail, one, _, continued⟩ := encodeChar_shape c
      cases front with
      | nil => exact isCharBoundary_iff.mpr ⟨[], c :: chars, rfl, rfl⟩
      | cons byte front =>
        cases more with
        | nil =>
          -- The character ends right in front of the head.
          refine isCharBoundary_iff.mpr ⟨[c], chars, rfl, ?_⟩
          rw [encodeUtf8_cons, cut, List.append_nil]
          exact congrArg List.length (List.append_nil _)
        | cons byte' more =>
          -- The head would be one of the bytes that continue the character.
          obtain ⟨rfl, _⟩ : first = byte' ∧ rest = more ++ encodeUtf8 chars := by
            simpa using within
          rw [one, List.cons_append, List.cons.injEq] at cut
          exact absurd (continued first (by simp [cut.2])) head

/-- Pieces of bytes are decoded or replaced by at least as many characters as they have heads. -/
theorem heads_flatten_le (pieces : List (List UInt8)) :
    heads pieces.flatten ≤ (pieces.flatMap decodeLossy).length := by
  -- Each piece is decoded on its own.
  induction pieces with
  | nil => exact Nat.zero_le _
  | cons piece pieces ih =>
    have one := heads_le_decodeLossy piece
    rw [heads] at ih one ⊢
    rw [List.flatten_cons, List.countP_append, List.flatMap_cons, List.length_append]
    omega

/-- They are more when the first byte continues a character. -/
theorem heads_flatten_lt {pieces : List (List UInt8)} {first : UInt8} {rest : List UInt8}
    (bytes : pieces.flatten = first :: rest) (continues : isContinuation first.toNat) :
    heads pieces.flatten < (pieces.flatMap decodeLossy).length := by
  -- The piece with the first byte is decoded to more, and no other one to less.
  induction pieces with
  | nil => cases bytes
  | cons piece pieces ih =>
    have others := heads_flatten_le pieces
    cases piece with
    | nil => exact ih bytes
    | cons byte piece =>
      -- The first byte is the first one of this piece.
      obtain ⟨rfl, _⟩ : byte = first ∧ piece ++ pieces.flatten = rest := by simpa using bytes
      have one := heads_lt_decodeLossy continues piece
      rw [heads] at others one ⊢
      rw [List.flatten_cons, List.countP_append, List.flatMap_cons, List.length_append]
      omega

/-- The pieces of a text are decoded to the text exactly when no piece ends within a character. -/
theorem decodeLossy_pieces_iff {pieces : List (List UInt8)} {chars : List Char}
    (bytes : pieces.flatten = encodeUtf8 chars) :
    pieces.flatMap decodeLossy = chars ↔
      ∀ front, front <+: pieces → IsCharBoundary chars front.flatten.length := by
  constructor
  · intro same front leads
    obtain ⟨back, rfl⟩ := leads
    rw [List.flatten_append] at bytes
    cases rest : back.flatten with
    | nil =>
      -- Nothing follows, so the text ends here.
      rw [rest, List.append_nil] at bytes
      exact isCharBoundary_iff.mpr ⟨chars, [], (List.append_nil chars).symm, by rw [bytes]⟩
    | cons first others =>
      rw [rest] at bytes
      refine isCharBoundary_head bytes.symm fun continues => ?_
      -- There would be more characters than heads.
      have before := heads_flatten_le front
      have behind := heads_flatten_lt rest continues
      have text := heads_encodeUtf8 chars
      have count : (front.flatMap decodeLossy).length + (back.flatMap decodeLossy).length =
          chars.length := by
        rw [← List.length_append, ← List.flatMap_append, same]
      rw [rest] at behind
      rw [← bytes, heads, List.countP_append] at text
      rw [heads] at before behind
      omega
  · intro boundaries
    induction pieces generalizing chars with
    | nil =>
      cases chars with
      | nil => rfl
      | cons c chars =>
        have some_bytes := congrArg List.length bytes
        have size := c.utf8Size_pos
        rw [length_encodeUtf8_cons] at some_bytes
        simp at some_bytes
        omega
    | cons piece pieces ih =>
      -- The first piece is the text in front of the first boundary.
      obtain ⟨front, rest, rfl, ends⟩ := isCharBoundary_iff.mp
        (boundaries [piece] ⟨pieces, rfl⟩)
      rw [List.flatten_singleton] at ends
      rw [List.flatten_cons, encodeUtf8_append] at bytes
      obtain ⟨rfl, later⟩ := List.append_inj bytes ends.symm
      rw [List.flatMap_cons, decodeLossy_encodeUtf8, ih later]
      intro more inside
      refine @isCharBoundary_append front rest _ ?_
      have boundary := boundaries (encodeUtf8 front :: more) (List.prefix_cons_inj _ |>.mpr inside)
      rwa [List.flatten_cons, List.length_append] at boundary

end Text
