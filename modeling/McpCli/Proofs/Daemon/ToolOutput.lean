import McpCli.Daemon.ToolRun
import McpCli.Text.Tail

/-! How much of the outputs of a command is shown, and that it is their end. -/

namespace McpCli

open Text

/-- The line in front of an output of which something was left out. -/
def truncationMark (limit : Nat) : List Char :=
  ("[[mcp-cli: output truncated to last " ++ toString limit ++ " bytes]]\n").toList

/-- A text is shown as a whole, or the last so many bytes of it behind a line that says so. -/
structure ShowsEnd (limit : Nat) (text shown : List Char) (truncated : Bool) : Prop where
  flag : truncated = true ↔ limit < (encodeUtf8 text).length
  whole : truncated = false → shown = text
  last : truncated = true →
    ∃ tail, shown = truncationMark limit ++ tail ∧ ShowsLast limit text tail

/-- Both outputs as texts, with a headline for each of them that is not empty. -/
def failureText (out err : List Char) : List Char :=
  let shown := if out = [] then [] else "$ stdout\n".toList ++ out
  if err = [] then shown
  else
    let shown := if shown ≠ [] ∧ shown.getLast? ≠ some '\n' then shown ++ ['\n'] else shown
    shown ++ "$ stderr\n".toList ++ err

/-- The end of an output that is a text is shown. -/
theorem truncateBytes_showsEnd (text : List Char) (limit : Nat) :
    ShowsEnd limit text (truncateBytes (encodeUtf8 text) limit).1
      (truncateBytes (encodeUtf8 text) limit).2 := by
  unfold truncateBytes
  by_cases fits : (encodeUtf8 text).length ≤ limit
  · rw [if_pos fits]
    refine ⟨⟨?_, fun more => absurd fits (Nat.not_le_of_lt more)⟩, ?_, ?_⟩
    · intro more
      cases more
    · -- What fits is decoded as a whole.
      exact fun _ => decodeLossy_encodeUtf8 text
    · intro more
      cases more
  · rw [if_neg fits]
    refine ⟨⟨fun _ => Nat.lt_of_not_le fits, fun _ => rfl⟩, ?_, fun _ => ⟨_, rfl, ?_⟩⟩
    · intro whole
      cases whole
    · exact showsLast_drop (Nat.le_of_not_le fits)

/-- Of any output, no more characters are shown than bytes are asked for and the mark has. -/
theorem length_truncateBytes_le (bytes : List UInt8) (limit : Nat) :
    (truncateBytes bytes limit).1.length ≤ limit + (truncationMark limit).length := by
  unfold truncateBytes
  -- Decoding makes no more characters than there are bytes, in the whole or in its end.
  split
  · rename_i fits
    exact (length_decodeLossy_le bytes).trans (fits.trans (Nat.le_add_right _ _))
  · rename_i more
    have short := length_decodeLossy_le (bytes.drop (bytes.length - limit))
    rw [List.length_drop] at short
    simp only [List.length_append]
    rw [truncationMark]
    omega

/-- No character takes no bytes. -/
theorem encodeUtf8_eq_nil_iff {text : List Char} : encodeUtf8 text = [] ↔ text = [] := by
  constructor
  · intro none_
    exact encodeUtf8_inj none_
  · rintro rfl
    rfl

/-- A text ends in a line feed exactly if its bytes do. -/
theorem getLast?_encodeUtf8_newline {text : List Char} :
    (encodeUtf8 text).getLast? = some 0x0A ↔ text.getLast? = some '\n' := by
  constructor
  · exact fun ends => getLast?_encodeUtf8 (by decide) ends
  · intro ends
    obtain ⟨front, rfl⟩ := List.getLast?_eq_some_iff.mp ends
    have last : encodeUtf8 ['\n'] = [0x0A] := by decide
    rw [encodeUtf8_append, last, List.getLast?_concat]

/-- What is shown of a failure is the end of both outputs with their headlines. -/
theorem failureTail_eq (out err : List Char) :
    failureTail (encodeUtf8 out) (encodeUtf8 err) =
      (truncateBytes (encodeUtf8 (failureText out err)) toolRunFailureTailLimit).1 := by
  unfold failureTail failureText
  have newline : encodeUtf8 ['\n'] = [0x0A] := by decide
  -- The headlines are ASCII, and are in the bytes what they are in the text.
  have stdout : (if encodeUtf8 out = [] then []
      else encodeUtf8 ("$ " ++ "stdout" ++ "\n").toList ++ encodeUtf8 out) =
        encodeUtf8 (if out = [] then [] else "$ stdout\n".toList ++ out) := by
    simp only [encodeUtf8_eq_nil_iff]
    split
    · rfl
    · rw [encodeUtf8_append]
      rfl
  simp only [stdout]
  generalize (if out = [] then [] else "$ stdout\n".toList ++ out) = shown
  simp only [encodeUtf8_eq_nil_iff, Ne, getLast?_encodeUtf8_newline]
  -- Both sides ask the same questions, one of them of the bytes.
  split
  · rfl
  · split
    · rw [encodeUtf8_append, encodeUtf8_append, encodeUtf8_append, newline]
      rfl
    · rw [encodeUtf8_append, encodeUtf8_append]
      rfl

/--
Of each output that is a text, `tool.run` shows the whole or the last characters that fit into as
many bytes as are asked for, and says which; of a command that has failed, it shows the end of both
outputs in the same way. Whatever the bytes are, there is a bound on what is shown.
-/
theorem tool_run_shows_ends (root : OsPath) (call : ToolRunCall) (output : CommandOutput) :
    let limit := max (call.params.maxOutputBytes.getD toolRunDefaultOutputLimit) 1
    let result := call.result root output
    (∀ out, output.stdout = encodeUtf8 out →
        ShowsEnd limit out result.stdout result.stdoutTruncated) ∧
      (∀ err, output.stderr = encodeUtf8 err →
        ShowsEnd limit err result.stderr result.stderrTruncated) ∧
      (∀ out err, output.stdout = encodeUtf8 out → output.stderr = encodeUtf8 err →
        if output.code = some 0 then result.failureOutput = []
        else ∃ truncated,
          ShowsEnd toolRunFailureTailLimit (failureText out err) result.failureOutput truncated) ∧
      result.stdout.length ≤ limit + (truncationMark limit).length ∧
      result.stderr.length ≤ limit + (truncationMark limit).length ∧
      result.failureOutput.length ≤
        toolRunFailureTailLimit + (truncationMark toolRunFailureTailLimit).length := by
  intro limit result
  refine ⟨fun out same => ?_, fun err same => ?_, fun out err same same' => ?_, ?_, ?_, ?_⟩
  · have shown := truncateBytes_showsEnd out limit
    rwa [← same] at shown
  · have shown := truncateBytes_showsEnd err limit
    rwa [← same] at shown
  · split
    · rename_i success
      -- A command that has not failed has no such output.
      simp [result, ToolRunCall.result, success]
    · rename_i failed
      refine ⟨(truncateBytes (encodeUtf8 (failureText out err)) toolRunFailureTailLimit).2, ?_⟩
      have shown := truncateBytes_showsEnd (failureText out err) toolRunFailureTailLimit
      rw [← failureTail_eq, ← same, ← same'] at shown
      simpa [result, ToolRunCall.result, failed] using shown
  · exact length_truncateBytes_le output.stdout limit
  · exact length_truncateBytes_le output.stderr limit
  · simp only [result, ToolRunCall.result]
    split
    · exact Nat.zero_le _
    · exact length_truncateBytes_le _ _

end McpCli
