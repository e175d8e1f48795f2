import McpCli.Daemon.Framing

/-! What is written as a frame is read off the stream again, as long as the reader accepts it. -/

namespace McpCli

/-- A length that fits in four bytes is read back as it was. -/
theorem fromBe_length {payload : List UInt8} (fits : payload.length < 2 ^ 32) :
    Bytes.fromBe (Bytes.toBe 4 payload.length) = payload.length :=
  Bytes.fromBe_toBe_of_lt fits

/-- The first four bytes of a written frame are its length. -/
theorem take_frame (payload rest : List UInt8) :
    (Bytes.toBe 4 payload.length ++ payload ++ rest).take 4 = Bytes.toBe 4 payload.length := by
  rw [List.append_assoc, List.take_left' (Bytes.length_toBe 4 _)]

/-- Behind its length, a written frame has its payload. -/
theorem drop_frame (payload rest : List UInt8) :
    (Bytes.toBe 4 payload.length ++ payload ++ rest).drop 4 = payload ++ rest := by
  rw [List.append_assoc, List.drop_left' (Bytes.length_toBe 4 _)]

/-- A written frame is split off again, whatever follows it. -/
theorem splitFrame_append {payload : List UInt8} (fits : payload.length < 2 ^ 32)
    (rest : List UInt8) :
    splitFrame (Bytes.toBe 4 payload.length ++ payload ++ rest) = some (payload, rest) := by
  -- The four bytes in front say how many of the others are the payload.
  have enough : ¬ ((Bytes.toBe 4 payload.length ++ payload ++ rest).length < 4 ∨
      (payload ++ rest).length < payload.length) := by
    simp only [List.length_append, Bytes.length_toBe]
    omega
  rw [splitFrame, take_frame, drop_frame, fromBe_length fits, if_neg enough, List.take_left,
    List.drop_left]

/-- Every payload that is read could have been written. -/
theorem maxFrame_lt : maxFrame < 2 ^ 32 := by decide

/-- A payload is written unless its length does not fit in four bytes. -/
theorem writeFrame_eq_some {payload frame : List UInt8} :
    writeFrame payload = some frame ↔
      payload.length < 2 ^ 32 ∧ frame = Bytes.toBe 4 payload.length ++ payload := by
  rw [writeFrame, Option.ite_none_right_eq_some, Option.some.injEq, eq_comm (b := frame)]

/-- Frames are written one behind the other. -/
theorem writeFrames_cons {payload stream : List UInt8} {payloads : List (List UInt8)} :
    writeFrames (payload :: payloads) = some stream ↔
      ∃ rest, payload.length < 2 ^ 32 ∧ writeFrames payloads = some rest ∧
        stream = Bytes.toBe 4 payload.length ++ payload ++ rest := by
  -- The first frame is written, and then the others behind it.
  constructor
  · intro written
    simp only [writeFrames, Option.bind_eq_bind, Option.bind_eq_some_iff, Option.some.injEq,
      writeFrame_eq_some] at written
    obtain ⟨frame, ⟨fits, rfl⟩, rest, after, rfl⟩ := written
    exact ⟨rest, fits, after, rfl⟩
  · intro framed
    obtain ⟨rest, fits, after, rfl⟩ := framed
    have first : writeFrame payload = some (Bytes.toBe 4 payload.length ++ payload) :=
      writeFrame_eq_some.mpr ⟨fits, rfl⟩
    simp only [writeFrames, first, after, Option.bind_eq_bind, Option.bind_some]

/-- At the end of the stream there is no frame. -/
theorem readFrameInto_nil (buf : List UInt8) :
    readFrameInto buf [] = { result := .ok none, buf, rest := [] } := rfl

/-- A frame that is not too large is read whole, whatever the buffer held before. -/
theorem readFrameInto_frame {payload : List UInt8} (small : payload.length ≤ maxFrame)
    (buf rest : List UInt8) :
    readFrameInto buf (Bytes.toBe 4 payload.length ++ payload ++ rest) =
      { result := .ok (some ()), buf := payload, rest } := by
  have fits : payload.length < 2 ^ 32 := Nat.lt_of_le_of_lt small maxFrame_lt
  have enough : ¬ (Bytes.toBe 4 payload.length ++ payload ++ rest).length < 4 := by
    simp only [List.length_append, Bytes.length_toBe]
    omega
  have whole : ¬ (payload ++ rest).length < payload.length := by
    rw [List.length_append]
    omega
  -- As many bytes are written over the buffer as it was resized to, so nothing is left of it.
  have covered : (resize payload.length 0 []).drop (payload ++ rest).length = [] := by
    apply List.drop_eq_nil_of_le
    simp only [resize, List.take_nil, List.nil_append, List.length_nil, Nat.sub_zero,
      List.length_replicate, List.length_append]
    omega
  simp only [readFrameInto, take_frame, drop_frame, fromBe_length fits, if_neg enough,
    if_neg (Nat.not_lt.mpr small), if_neg whole, covered, List.take_left, List.drop_left,
    List.append_nil]

/-- The length of a frame that is too large is refused. -/
theorem readFrameInto_oversize {payload : List UInt8} (fits : payload.length < 2 ^ 32)
    (large : maxFrame < payload.length) (buf rest : List UInt8) :
    (readFrameInto buf (Bytes.toBe 4 payload.length ++ payload ++ rest)).result =
      .error s!"frame too large: {payload.length}" := by
  -- The length is there to be read, and it is all that is looked at.
  have enough : ¬ (Bytes.toBe 4 payload.length ++ payload ++ rest).length < 4 := by
    simp only [List.length_append, Bytes.length_toBe]
    omega
  simp only [readFrameInto, take_frame, drop_frame, fromBe_length fits, if_neg enough,
    if_pos large]

/-- The payloads one by one, and then the end of the stream. -/
def wholeFrames (payloads : List (List UInt8)) : List (Except String (Option (List UInt8))) :=
  payloads.map (fun payload => .ok (some payload)) ++ [.ok none]

/--
Whatever was written is read back frame by frame up to the end of the stream, starting with any
buffer, exactly if no payload is larger than what the reader accepts.
-/
theorem readFrames_writeFrames_iff {payloads : List (List UInt8)} {stream : List UInt8}
    (written : writeFrames payloads = some stream) (buf : List UInt8) :
    readFrames (payloads.length + 1) buf stream = wholeFrames payloads ↔
      ∀ payload ∈ payloads, payload.length ≤ maxFrame := by
  -- After a frame, its payload is in the buffer, and the other frames are on the stream.
  induction payloads generalizing buf stream with
  | nil =>
    cases written
    simp [readFrames, readFrameInto_nil, wholeFrames]
  | cons payload payloads ih =>
    obtain ⟨rest, fits, after, rfl⟩ := writeFrames_cons.mp written
    rcases Nat.lt_or_ge maxFrame payload.length with large | small
    · -- The reader stops at this frame with an error.
      have refused := readFrameInto_oversize fits large buf rest
      have stops : readFrames (payloads.length + 1 + 1) buf
          (Bytes.toBe 4 payload.length ++ payload ++ rest) =
          [.error s!"frame too large: {payload.length}"] := by
        rw [readFrames]
        simp only [refused]
      constructor
      · intro same
        rw [List.length_cons, stops] at same
        cases same
      · intro all
        have := all payload List.mem_cons_self
        omega
    · have read := readFrameInto_frame small buf rest
      have goes : readFrames (payloads.length + 1 + 1) buf
          (Bytes.toBe 4 payload.length ++ payload ++ rest) =
          .ok (some payload) :: readFrames (payloads.length + 1) payload rest := by
        rw [readFrames]
        simp only [read]
      have shape : wholeFrames (payload :: payloads) =
          .ok (some payload) :: wholeFrames payloads := rfl
      rw [List.length_cons, goes, shape, List.cons.injEq, ih after payload,
        List.forall_mem_cons]
      simp [small]

/-- Two frames, one of them empty, are read back with a buffer that was used before. -/
theorem readFrames_two :
    writeFrames [[104, 105], []] = some [0, 0, 0, 2, 104, 105, 0, 0, 0, 0] ∧
      readFrames 3 [1, 2, 3] [0, 0, 0, 2, 104, 105, 0, 0, 0, 0] = wholeFrames [[104, 105], []] :=
  ⟨rfl, (@readFrames_writeFrames_iff [[104, 105], []] _ rfl [1, 2, 3]).mpr (by decide)⟩

/-- A payload of one byte more than the largest frame. -/
def oversizePayload : List UInt8 := List.replicate (maxFrame + 1) 0

/-- It is written, but the reader refuses what was written. -/
theorem oversize_written_not_read :
    ∃ stream, writeFrames [oversizePayload] = some stream ∧
      readFrames 2 [] stream ≠ wholeFrames [oversizePayload] := by
  have length : oversizePayload.length = maxFrame + 1 := List.length_replicate
  have fits : oversizePayload.length < 2 ^ 32 := by
    rw [length]
    decide
  have large : maxFrame < oversizePayload.length := by
    rw [length]
    exact Nat.lt_succ_self maxFrame
  refine ⟨_, writeFrames_cons.mpr ⟨[], fits, rfl, rfl⟩, ?_⟩
  -- The reader refuses the length, before the payload.
  have refused := readFrameInto_oversize fits large [] []
  rw [readFrames]
  simp only [refused]
  intro same
  cases same

/--
The payloads whose frames end in front of a cut, and how many bytes of another frame are there.
-/
def completeFrames : (cut : Nat) → List (List UInt8) → List (List UInt8) × Nat
  | _, [] => ([], 0)
  | cut, payload :: rest =>
    if 4 + payload.length ≤ cut then
      let (complete, inside) := completeFrames (cut - (4 + payload.length)) rest
      (payload :: complete, inside)
    else ([], cut)

/-- A length of which some bytes are missing is taken for the end of the stream. -/
theorem readFrameInto_short {stream : List UInt8} (short : stream.length < 4) (buf : List UInt8) :
    (readFrameInto buf stream).result = .ok none := by
  rw [readFrameInto, if_pos short]

/-- A frame that is cut behind its length is an error. -/
theorem readFrameInto_cut {payload : List UInt8} (small : payload.length ≤ maxFrame) {cut : Nat}
    (behind : 4 ≤ cut) (inside : cut < 4 + payload.length) (buf : List UInt8) :
    (readFrameInto buf ((Bytes.toBe 4 payload.length ++ payload).take cut)).result =
      .error "early eof" := by
  have fits : payload.length < 2 ^ 32 := Nat.lt_of_le_of_lt small maxFrame_lt
  -- The length is whole, and only a part of the payload follows it.
  have shape : (Bytes.toBe 4 payload.length ++ payload).take cut =
      Bytes.toBe 4 payload.length ++ payload.take (cut - 4) := by
    rw [List.take_append, Bytes.length_toBe, List.take_of_length_le]
    rw [Bytes.length_toBe]
    exact behind
  have enough : ¬ (Bytes.toBe 4 payload.length ++ payload.take (cut - 4)).length < 4 := by
    simp only [List.length_append, Bytes.length_toBe]
    omega
  have short : (payload.take (cut - 4)).length < payload.length := by
    rw [List.length_take]
    omega
  rw [shape]
  simp only [readFrameInto, if_neg enough, List.take_left' (Bytes.length_toBe 4 _),
    List.drop_left' (Bytes.length_toBe 4 _), fromBe_length fits, if_neg (Nat.not_lt.mpr small),
    if_pos short]

/--
Of a stream that is cut anywhere, the frames in front of the cut are read, and then the end of the
stream, or an error if the length of another frame is there.
-/
theorem readFrames_take {payloads : List (List UInt8)} {stream : List UInt8}
    (written : writeFrames payloads = some stream)
    (small : ∀ payload ∈ payloads, payload.length ≤ maxFrame) (cut : Nat) (buf : List UInt8) :
    readFrames (payloads.length + 1) buf (stream.take cut) =
      (completeFrames cut payloads).1.map (fun payload => .ok (some payload)) ++
        [if (completeFrames cut payloads).2 < 4 then .ok none else .error "early eof"] := by
  -- The induction goes through the frames up to the one that is cut.
  induction payloads generalizing cut buf stream with
  | nil =>
    cases written
    rw [List.take_nil, List.length_nil, readFrames, completeFrames]
    rfl
  | cons payload rest ih =>
    obtain ⟨behind, fits, after, rfl⟩ := writeFrames_cons.mp written
    rw [List.forall_mem_cons] at small
    have frame : (Bytes.toBe 4 payload.length ++ payload).length = 4 + payload.length := by
      rw [List.length_append, Bytes.length_toBe]
    rw [completeFrames, List.length_cons, readFrames]
    by_cases whole : 4 + payload.length ≤ cut
    · -- This frame is read whole, and the cut is in what follows it.
      have shape : (Bytes.toBe 4 payload.length ++ payload ++ behind).take cut =
          Bytes.toBe 4 payload.length ++ payload ++ behind.take (cut - (4 + payload.length)) := by
        rw [List.take_append, frame, List.take_of_length_le]
        rw [frame]
        exact whole
      rw [shape, if_pos whole]
      simp only [readFrameInto_frame small.1, ih after small.2, List.map_cons, List.cons_append]
    · have shape : (Bytes.toBe 4 payload.length ++ payload ++ behind).take cut =
          (Bytes.toBe 4 payload.length ++ payload).take cut := by
        apply List.take_append_of_le_length
        rw [frame]
        omega
      rw [shape, if_neg whole]
      rcases Nat.lt_or_ge cut 4 with short | length
      · have missing : ((Bytes.toBe 4 payload.length ++ payload).take cut).length < 4 := by
          rw [List.length_take]
          omega
        simp only [readFrameInto_short missing, if_pos short, List.map_nil, List.nil_append]
      · have cutShort := readFrameInto_cut small.1 length (Nat.not_le.mp whole) buf
        simp only [cutShort, if_neg (Nat.not_lt.mpr length), List.map_nil, List.nil_append]

/--
Of a stream that is cut anywhere, the frames in front of the cut are read, then the end of the
stream if the cut is between frames, and an error if it is inside of one, exactly if it is not
inside of the length of a frame.
-/
theorem readFrames_cut_iff {payloads : List (List UInt8)} {stream : List UInt8}
    (written : writeFrames payloads = some stream)
    (small : ∀ payload ∈ payloads, payload.length ≤ maxFrame) (cut : Nat) (buf : List UInt8) :
    (∃ last, readFrames (payloads.length + 1) buf (stream.take cut) =
        (completeFrames cut payloads).1.map (fun payload => .ok (some payload)) ++ [last] ∧
      (last = .ok none ↔ (completeFrames cut payloads).2 = 0) ∧
      ((∃ e, last = .error e) ↔ (completeFrames cut payloads).2 ≠ 0)) ↔
      (completeFrames cut payloads).2 = 0 ∨ 4 ≤ (completeFrames cut payloads).2 := by
  rw [readFrames_take written small cut buf]
  -- What is read behind the whole frames is one result, which the place of the cut decides.
  constructor
  · intro reported
    obtain ⟨last, same, ends, fails⟩ := reported
    have lasts := List.append_cancel_left same
    rw [List.cons.injEq] at lasts
    -- A missing length is taken for the end of the stream.
    rcases Nat.lt_or_ge (completeFrames cut payloads).2 4 with short | long
    · rw [if_pos short] at lasts
      exact .inl (ends.mp lasts.1.symm)
    · exact .inr long
  · intro outside
    refine ⟨_, rfl, ?_⟩
    rcases outside with between | long
    · simp [between]
    · rw [if_neg (Nat.not_lt.mpr long)]
      have inside : (completeFrames cut payloads).2 ≠ 0 := by omega
      simp [inside]

/-- A cut behind the first frame, one inside of the next payload, and one behind its length. -/
theorem readFrames_cut_twoFrames :
    (completeFrames 6 [[104, 105], [106, 107]] = ([[104, 105]], 0) ∧
      completeFrames 11 [[104, 105], [106, 107]] = ([[104, 105]], 5)) ∧
    ∃ last, readFrames 3 [] ([0, 0, 0, 2, 104, 105, 0, 0, 0, 2, 106, 107].take 11) =
        [.ok (some [104, 105])] ++ [last] ∧
      (last = .ok none ↔ 5 = 0) ∧ ((∃ e, last = .error e) ↔ 5 ≠ 0) :=
  ⟨⟨by decide, by decide⟩,
    (@readFrames_cut_iff [[104, 105], [106, 107]] _ rfl (by decide) 11 []).mpr (.inr (by decide))⟩

/-- A cut inside of the length of the second frame is taken for the end of the stream. -/
theorem readFrames_cut_length :
    writeFrames [[104, 105], [106]] = some [0, 0, 0, 2, 104, 105, 0, 0, 0, 1, 106] ∧
    completeFrames 8 [[104, 105], [106]] = ([[104, 105]], 2) ∧
    readFrames 3 [] ([0, 0, 0, 2, 104, 105, 0, 0, 0, 1, 106].take 8) =
      [.ok (some [104, 105]), .ok none] := by
  exact ⟨rfl, by decide, rfl⟩

end McpCli
