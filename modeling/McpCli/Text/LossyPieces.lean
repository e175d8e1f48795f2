import McpCli.Text.Lossy

/-! Bytes of any kind that are decoded piece by piece, and what the cuts between the pieces do. -/

namespace Text

/--
Whether a decoder that has taken so many bytes already is between two characters when it comes to
a position.
-/
def isBetween : (skip : Nat) → List UInt8 → (position : Nat) → Bool
  | skip, _, 0 => skip = 0
  | _, [], _ + 1 => false
  | skip + 1, _ :: rest, position + 1 => isBetween skip rest position
  -- All that is decoded or replaced with the first byte is passed over.
  | 0, first :: rest, position + 1 => isBetween ((decodeHead first rest).2 - 1) rest position

/-- What has been taken reaches up to the position, within what is behind it, or beyond. -/
theorem isBetween_append (skip : Nat) (front back : List UInt8) :
    isBetween skip (front ++ back) front.length =
      (skip ≤ front.length && isBetween 0 (front.drop skip ++ back) (front.drop skip).length) := by
  -- What is still to be passed over is taken off the front byte by byte.
  induction front generalizing skip with
  | nil =>
    cases skip with
    | zero => rfl
    | succ skip => simp [isBetween]
  | cons first front ih =>
    cases skip with
    | zero => simp
    | succ skip =>
      rw [List.cons_append, List.length_cons, isBetween, ih skip, List.drop_succ_cons]
      simp

/-- Behind a position between two characters, the decoder starts anew. -/
theorem isBetween_add {skip : Nat} {bytes : List UInt8} {position : Nat}
    (between : isBetween skip bytes position = true) (more : Nat) :
    isBetween skip bytes (position + more) = isBetween 0 (bytes.drop position) more := by
  -- The position is reached with nothing to pass over, as when the decoder begins.
  induction bytes generalizing skip position with
  | nil =>
    cases position with
    | zero =>
      obtain rfl : skip = 0 := by simpa [isBetween] using between
      rw [Nat.zero_add, List.drop_zero]
    | succ position => simp [isBetween] at between
  | cons first rest ih =>
    cases position with
    | zero =>
      obtain rfl : skip = 0 := by simpa [isBetween] using between
      rw [Nat.zero_add, List.drop_zero]
    | succ position =>
      rw [Nat.add_right_comm, List.drop_succ_cons]
      cases skip with
      | zero =>
        rw [isBetween] at between ⊢
        exact ih between
      | succ skip =>
        rw [isBetween] at between ⊢
        exact ih between

/-- A byte that is missing continues nothing. -/
theorem missing_continues (first : Nat) :
    isContinuation 0 = false ∧ isSecondOfThree first 0 = false ∧
      isSecondOfFour first 0 = false := by
  -- A missing byte counts as zero, which is in none of the ranges.
  refine ⟨rfl, ?_, ?_⟩
  · unfold isSecondOfThree
    split
    · rfl
    · split <;> rfl
  · unfold isSecondOfFour
    split
    · rfl
    · split <;> rfl

/-- What is decoded first depends only on the bytes that it takes. -/
theorem decodeHead_append {first : UInt8} {front back : List UInt8}
    (whole : (decodeHead first (front ++ back)).2 - 1 ≤ front.length) :
    decodeHead first front = decodeHead first (front ++ back) := by
  -- At most three bytes are looked at, of which those that are missing pass none of the tests.
  obtain ⟨no_more, no_second, no_other⟩ := missing_continues first.toNat
  rcases front with _ | ⟨second, _ | ⟨third, _ | ⟨fourth, front⟩⟩⟩
  · simp only [decodeHead, List.nil_append, List.getD_nil, List.length_nil] at whole ⊢
    simp only [UInt8.toNat_zero, no_more, no_second, no_other]
    grind
  · simp only [decodeHead, List.cons_append, List.nil_append, List.getD_cons_zero,
      List.getD_cons_succ, List.getD_nil, List.length_cons, List.length_nil] at whole ⊢
    simp only [UInt8.toNat_zero, no_more]
    grind
  · simp only [decodeHead, List.cons_append, List.nil_append, List.getD_cons_zero,
      List.getD_cons_succ, List.getD_nil, List.length_cons, List.length_nil] at whole ⊢
    simp only [UInt8.toNat_zero, no_more]
    grind
  · rfl

/-- No more bytes are taken than there are. -/
theorem decodeHead_inside (first : UInt8) (rest : List UInt8) :
    (decodeHead first rest).2 - 1 ≤ rest.length := by
  -- With fewer than three bytes behind the first one, those that are missing are not taken.
  obtain ⟨no_more, no_second, no_other⟩ := missing_continues first.toNat
  rcases rest with _ | ⟨second, _ | ⟨third, rest⟩⟩
  · simp only [decodeHead, List.getD_nil, List.length_nil]
    simp only [UInt8.toNat_zero, no_more, no_second, no_other]
    grind
  · simp only [decodeHead, List.getD_cons_zero, List.getD_cons_succ, List.getD_nil,
      List.length_cons, List.length_nil]
    simp only [UInt8.toNat_zero, no_more]
    grind
  · simp only [decodeHead, List.getD_cons_zero, List.getD_cons_succ, List.length_cons]
    cases rest with
    | nil =>
      simp only [List.getD_nil, UInt8.toNat_zero, no_more]
      grind
    | cons fourth rest => grind

/-- A line end is the character of its number only. -/
theorem ofNat_newline {n : Nat} (newline : Char.ofNat n = '\n') : n = 10 := by
  unfold Char.ofNat at newline
  by_cases valid : n.isValidChar
  · rw [dif_pos valid] at newline
    exact congrArg Char.toNat newline
  · rw [dif_neg valid] at newline
    cases newline

/-- Only the byte of a line end is decoded to one. -/
theorem decodeHead_newline {first : UInt8} {rest : List UInt8}
    (newline : (decodeHead first rest).1.getD replacement = '\n') : first.toNat = 10 := by
  -- All other ways out lead to the replacement or to a character of a greater number.
  have other : replacement ≠ '\n' := by decide
  simp only [decodeHead, isSecondOfThree, isSecondOfFour, isContinuation] at newline
  grind [ofNat_newline]

/-- What takes more than one byte does not begin with a line end. -/
theorem decodeHead_long {first : UInt8} {rest other : List UInt8}
    (long : 1 < (decodeHead first rest).2) : (decodeHead first other).1.getD replacement ≠ '\n' := by
  -- The byte of a line end is a character on its own.
  intro newline
  have small : first.toNat < 0x80 := by
    rw [decodeHead_newline newline]
    decide
  rw [decodeHead] at long
  simp only [if_pos small] at long
  exact Nat.lt_irrefl _ long

/-- How many characters other than line ends some bytes are decoded or replaced to. -/
def shownCount (bytes : List UInt8) : Nat := (decodeLossy bytes).countP fun c => c ≠ '\n'

/-- Bytes that continue a character are replaced one by one when they begin a text. -/
theorem shownCount_continuing {front : List UInt8}
    (continues : ∀ byte ∈ front, isContinuation byte.toNat) (back : List UInt8) :
    shownCount (front ++ back) = front.length + shownCount back := by
  -- Each of them is replaced on its own, and the replacement is no line end.
  induction front with
  | nil => rw [List.nil_append, List.length_nil, Nat.zero_add]
  | cons first front ih =>
    rw [List.forall_mem_cons] at continues
    have later := ih continues.2
    rw [shownCount] at later ⊢
    rw [List.cons_append, decodeLossy_cons, decodeHead_continuation continues.1, Nat.sub_self,
      List.drop_zero, List.countP_cons_of_pos (by decide), later, List.length_cons]
    omega

/-- What comes first, and what is left behind it. -/
theorem shownCount_cons (first : UInt8) (rest : List UInt8) :
    shownCount (first :: rest) =
      (if (decodeHead first rest).1.getD replacement = '\n' then 0 else 1) +
        shownCount (rest.drop ((decodeHead first rest).2 - 1)) := by
  rw [shownCount, decodeLossy_cons, List.countP_cons, Nat.add_comm]
  congr 1
  by_cases newline : (decodeHead first rest).1.getD replacement = '\n' <;> simp [newline]

/-- A cut between two characters does nothing, and any other one leads to more of them. -/
theorem decodeLossy_append (front back : List UInt8) :
    if isBetween 0 (front ++ back) front.length then
      decodeLossy (front ++ back) = decodeLossy front ++ decodeLossy back
    else shownCount (front ++ back) < shownCount front + shownCount back := by
  -- The induction goes from character to character up to the one that is cut.
  induction length : front.length using Nat.strongRecOn generalizing front with
  | _ n ih =>
    subst length
    cases front with
    | nil => simp [isBetween, decodeLossy, decodeFrom]
    | cons first front =>
      rw [List.cons_append, List.length_cons, isBetween, isBetween_append]
      by_cases whole : (decodeHead first (front ++ back)).2 - 1 ≤ front.length
      · -- The first character is in front of the cut.
        have head := decodeHead_append whole
        have split := @List.drop_append_of_le_length _ _ back _ whole
        generalize taken : (decodeHead first (front ++ back)).2 - 1 = t at whole split ⊢
        have later := ih _ (by rw [List.length_drop, List.length_cons]; omega) (front.drop t) rfl
        have counts := shownCount_cons first front
        have countsAll := shownCount_cons first (front ++ back)
        rw [head, taken] at counts
        rw [taken, split] at countsAll
        rw [decodeLossy_cons, decodeLossy_cons, head, taken, split]
        simp only [whole, decide_true, Bool.true_and]
        split at later
        · rename_i between
          rw [if_pos between, later, List.cons_append]
        · rename_i within
          rw [if_neg within, counts, countsAll]
          omega
      · -- The rest of the character is replaced byte by byte.
        have beyond : front.length < (decodeHead first (front ++ back)).2 - 1 :=
          Nat.not_le.mp whole
        have long : 1 < (decodeHead first (front ++ back)).2 := by omega
        have inside := decodeHead_inside first (front ++ back)
        have taken := decodeHead_taken first (front ++ back)
        have countsAll := shownCount_cons first (front ++ back)
        have counts := shownCount_cons first front
        rw [if_neg (decodeHead_long long)] at countsAll counts
        generalize (decodeHead first (front ++ back)).2 - 1 = t at whole beyond inside taken countsAll ⊢
        rw [List.length_append] at inside
        -- These bytes of what is behind the cut belong to the character in front of it.
        have own : ∀ byte ∈ back.take (t - front.length), isContinuation byte.toNat := by
          intro byte member
          apply taken
          rw [List.take_append]
          exact List.mem_append_right _ member
        have single := shownCount_continuing own (back.drop (t - front.length))
        rw [List.take_append_drop, List.length_take] at single
        rw [List.drop_append, List.drop_eq_nil_of_le (Nat.le_of_lt beyond), List.nil_append]
          at countsAll
        simp only [whole, decide_false, Bool.false_and, Bool.false_eq_true, if_false]
        omega

/-- A cut never leads to fewer characters. -/
theorem shownCount_append_le (front back : List UInt8) :
    shownCount (front ++ back) ≤ shownCount front + shownCount back := by
  have either := decodeLossy_append front back
  split at either
  · rw [shownCount, either, List.countP_append]
    exact Nat.le_refl _
  · exact Nat.le_of_lt either

/-- No piece ends within a character of the whole. -/
def CutsBetween (pieces : List (List UInt8)) : Prop :=
  ∀ front, front <+: pieces → isBetween 0 pieces.flatten front.flatten.length = true

/-- The first piece ends between two characters of the whole, and each other one of the rest. -/
theorem cutsBetween_cons {piece : List UInt8} {pieces : List (List UInt8)} :
    CutsBetween (piece :: pieces) ↔
      isBetween 0 (piece ++ pieces.flatten) piece.length = true ∧ CutsBetween pieces := by
  -- Behind the first piece the decoder starts anew, so positions are counted from there.
  constructor
  · intro between
    have first : isBetween 0 (piece ++ pieces.flatten) piece.length = true := by
      have here := between [piece] ⟨pieces, rfl⟩
      rwa [List.flatten_singleton] at here
    refine ⟨first, fun front leads => ?_⟩
    have here := between (piece :: front) (List.prefix_cons_inj _ |>.mpr leads)
    rw [List.flatten_cons, List.flatten_cons, List.length_append, isBetween_add first,
      List.drop_left] at here
    exact here
  · intro both front leads
    obtain ⟨first, others⟩ := both
    cases front with
    | nil => rfl
    | cons own front =>
      obtain ⟨rfl, within⟩ := List.cons_prefix_cons.mp leads
      rw [List.flatten_cons, List.flatten_cons, List.length_append, isBetween_add first,
        List.drop_left]
      exact others front within

/-- Without pieces there is no cut. -/
theorem cutsBetween_nil : CutsBetween [] := by
  intro front leads
  rw [List.prefix_nil.mp leads]
  rfl

instance CutsBetween.decidable : ∀ pieces, Decidable (CutsBetween pieces)
  | [] => isTrue cutsBetween_nil
  | _ :: pieces =>
    have := CutsBetween.decidable pieces
    decidable_of_iff' _ cutsBetween_cons

/-- Pieces are decoded to no fewer characters than the whole. -/
theorem shownCount_flatten_le (pieces : List (List UInt8)) :
    shownCount pieces.flatten ≤ (pieces.flatMap decodeLossy).countP fun c => c ≠ '\n' := by
  -- Every piece that is put in front adds one more cut.
  induction pieces with
  | nil => exact Nat.le_refl _
  | cons piece pieces ih =>
    have here := shownCount_append_le piece pieces.flatten
    rw [List.flatten_cons, List.flatMap_cons, List.countP_append]
    exact Nat.le_trans here (Nat.add_le_add_left ih _)

/-- Without a cut within a character they are decoded to the same, and else to more of them. -/
theorem flatMap_decodeLossy (pieces : List (List UInt8)) :
    (CutsBetween pieces → pieces.flatMap decodeLossy = decodeLossy pieces.flatten) ∧
    (¬ CutsBetween pieces →
      shownCount pieces.flatten < (pieces.flatMap decodeLossy).countP fun c => c ≠ '\n') := by
  -- The first cut within a character makes up for what the others do.
  induction pieces with
  | nil => exact ⟨fun _ => rfl, fun cut => absurd cutsBetween_nil cut⟩
  | cons piece pieces ih =>
    have here := decodeLossy_append piece pieces.flatten
    rw [cutsBetween_cons, List.flatMap_cons, List.flatten_cons, List.countP_append]
    refine ⟨?_, ?_⟩
    · intro both
      rw [if_pos both.1] at here
      rw [ih.1 both.2, here]
    · intro cut
      have others := shownCount_flatten_le pieces
      by_cases first : isBetween 0 (piece ++ pieces.flatten) piece.length = true
      · -- The cut is further behind.
        have later := ih.2 fun between => cut ⟨first, between⟩
        rw [if_pos first] at here
        rw [shownCount, here, List.countP_append]
        exact Nat.add_lt_add_left later _
      · rw [if_neg first] at here
        exact Nat.lt_of_lt_of_le here (Nat.add_le_add_left others _)

end Text
