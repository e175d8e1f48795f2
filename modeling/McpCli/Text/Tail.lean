import McpCli.Text.Lossy

/-! The end of a text that is cut out by its bytes. -/

namespace Text

/-- So many bytes are not the whole last character of a text, or none at all without one. -/
def CutsLast (front : List Char) (count : Nat) : Prop :=
  match front.getLast? with
  | none => count = 0
  | some c => count < c.utf8Size

/--
The last so many bytes of a text are shown: as many characters at its end as fit in them, and in
front of these one replacement for each byte of the character that does not.
-/
def ShowsLast (limit : Nat) (text shown : List Char) : Prop :=
  ∃ front suffix count, text = front ++ suffix ∧ CutsLast front count ∧
    (encodeUtf8 suffix).length + count = limit ∧
      shown = List.replicate count replacement ++ suffix

/-- Bytes that continue a character without its first one are replaced one by one. -/
theorem decodeLossy_continuations {cut : List UInt8}
    (continues : ∀ byte ∈ cut, isContinuation byte.toNat) (rest : List UInt8) :
    decodeLossy (cut ++ rest) = List.replicate cut.length replacement ++ decodeLossy rest := by
  induction cut with
  | nil => rfl
  | cons byte cut ih =>
    have later := ih fun other member => continues other (List.mem_cons_of_mem byte member)
    -- Such a byte stands for one replacement and takes no other byte with it.
    rw [List.cons_append, decodeLossy_cons,
      decodeHead_continuation (continues byte List.mem_cons_self), Nat.sub_self, List.drop_zero,
      later]
    rfl

/-- One more character in front does not change what is cut of the last one. -/
theorem CutsLast.cons {front : List Char} {count : Nat} (cuts : CutsLast front count) (c : Char) :
    CutsLast (c :: front) count := by
  rcases List.eq_nil_or_concat front with rfl | ⟨others, last, rfl⟩
  · -- Nothing was cut, and a character has more bytes than none.
    have none_ : count = 0 := cuts
    rw [none_]
    exact Char.utf8Size_pos c
  · rw [List.concat_eq_append] at cuts ⊢
    rw [CutsLast, List.getLast?_concat] at cuts
    rw [CutsLast, ← List.cons_append, List.getLast?_concat]
    exact cuts

/-- What is behind a byte of a text is the end of a character and whole ones behind it. -/
theorem drop_encodeUtf8 (text : List Char) (start : Nat) :
    ∃ front suffix cut, text = front ++ suffix ∧
      (encodeUtf8 text).drop start = cut ++ encodeUtf8 suffix ∧ CutsLast front cut.length ∧
        ∀ byte ∈ cut, isContinuation byte.toNat := by
  induction text generalizing start with
  | nil => exact ⟨[], [], [], rfl, by simp [encodeUtf8], rfl, by simp⟩
  | cons c rest ih =>
    obtain ⟨first, tail, bytes, -, continues⟩ := encodeChar_shape c
    have size : tail.length < c.utf8Size := by
      rw [← String.length_utf8EncodeChar, bytes]
      exact Nat.lt_succ_self _
    rw [encodeUtf8_cons, bytes]
    cases start with
    | zero =>
      -- Nothing is cut off.
      refine ⟨[], c :: rest, [], rfl, ?_, rfl, by simp⟩
      rw [encodeUtf8_cons, bytes]
      rfl
    | succ start =>
      rw [List.cons_append, List.drop_succ_cons, List.drop_append]
      by_cases inside : start ≤ tail.length
      · -- The rest of the first character is cut off.
        refine ⟨[c], rest, tail.drop start, rfl, ?_, ?_, fun byte member => ?_⟩
        · rw [Nat.sub_eq_zero_of_le inside, List.drop_zero]
        · show (tail.drop start).length < c.utf8Size
          rw [List.length_drop]
          omega
        · exact continues byte (List.mem_of_mem_drop member)
      · -- The first character is left out as a whole.
        obtain ⟨front, suffix, cut, parts, behind, cuts, all⟩ := ih (start - tail.length)
        refine ⟨c :: front, suffix, cut, by rw [parts]; rfl, ?_, cuts.cons c, all⟩
        rw [List.drop_of_length_le (Nat.le_of_not_le inside), List.nil_append, behind]

/-- To decode the last bytes of a text is to show them. -/
theorem showsLast_drop {text : List Char} {limit : Nat} (more : limit ≤ (encodeUtf8 text).length) :
    ShowsLast limit text
      (decodeLossy ((encodeUtf8 text).drop ((encodeUtf8 text).length - limit))) := by
  -- The bytes are those of the last characters, behind a piece of the one before them.
  obtain ⟨front, suffix, cut, parts, behind, cuts, all⟩ :=
    drop_encodeUtf8 text ((encodeUtf8 text).length - limit)
  refine ⟨front, suffix, cut.length, parts, cuts, ?_, ?_⟩
  · have lengths := congrArg List.length behind
    rw [List.length_drop, List.length_append] at lengths
    omega
  · rw [behind, decodeLossy_continuations all, decodeLossy_encodeUtf8]

/-- There are no more characters than bytes that are decoded. -/
theorem length_decodeLossy_le (bytes : List UInt8) : (decodeLossy bytes).length ≤ bytes.length := by
  -- The bytes that belong to a character already are passed over.
  suffices passed : ∀ skip, (decodeFrom skip bytes).length ≤ bytes.length from passed 0
  induction bytes with
  | nil =>
    intro skip
    simp [decodeFrom]
  | cons byte rest ih =>
    intro skip
    cases skip with
    | zero => exact Nat.succ_le_succ (ih _)
    | succ skip => exact Nat.le_succ_of_le (ih skip)

end Text
