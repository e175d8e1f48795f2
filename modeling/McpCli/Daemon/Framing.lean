import Mathlib.Algebra.Group.Nat.Defs
import McpCli.Bytes.BigEndian

/-! Frames on a stream: a length of four bytes, and then the payload. -/

namespace McpCli

/-- The largest payload that either side reads. -/
def maxFrame : Nat := 16 * 1024 * 1024

/-- The bytes of a frame, unless its length does not fit in four bytes. -/
def writeFrame (payload : List UInt8) : Option (List UInt8) :=
  if payload.length < 2 ^ 32 then some (Bytes.toBe 4 payload.length ++ payload) else none

/-- The bytes of frames written one after another, unless one of them cannot be written. -/
def writeFrames : List (List UInt8) → Option (List UInt8)
  | [] => some []
  | payload :: rest => do
    let frame ← writeFrame payload
    let frames ← writeFrames rest
    some (frame ++ frames)

/-- A buffer brought to a length, filled up with one byte where it is shorter. -/
def resize (len : Nat) (fill : UInt8) (buf : List UInt8) : List UInt8 :=
  buf.take len ++ List.replicate (len - buf.length) fill

/-- What a call that reads a frame leaves behind. -/
structure FrameRead where
  /-- `none` stands for the end of the stream, and an error is given by its text. -/
  result : Except String (Option Unit)
  buf : List UInt8
  /-- What the stream still holds. -/
  rest : List UInt8

/-- Read a frame into a buffer that may have been used before. -/
def readFrameInto (buf stream : List UInt8) : FrameRead :=
  -- A length of which some bytes are missing counts as the end of the stream as well.
  if stream.length < 4 then { result := .ok none, buf, rest := [] }
  else
    let len := Bytes.fromBe (stream.take 4)
    let body := stream.drop 4
    if maxFrame < len then { result := .error s!"frame too large: {len}", buf, rest := body }
    else
      -- The buffer is cleared before it is resized, and then written over from its start.
      let resized := resize len 0 []
      let filled := body.take len ++ resized.drop body.length
      if body.length < len then { result := .error "early eof", buf := filled, rest := [] }
      else { result := .ok (some ()), buf := filled, rest := body.drop len }

/-- What successive calls with one buffer return, up to the first that has no frame. -/
def readFrames : Nat → List UInt8 → List UInt8 → List (Except String (Option (List UInt8)))
  | 0, _, _ => []
  | calls + 1, buf, stream =>
    let read := readFrameInto buf stream
    match read.result with
    | .ok (some ()) => .ok (some read.buf) :: readFrames calls read.buf read.rest
    -- The other side has closed the stream.
    | .ok none => [.ok none]
    | .error e => [.error e]

/-- The payload of the first frame on a stream and what follows it, once all of it is there. -/
def splitFrame (stream : List UInt8) : Option (List UInt8 × List UInt8) :=
  -- The length stands in front in network order.
  let len := Bytes.fromBe (stream.take 4)
  if stream.length < 4 ∨ (stream.drop 4).length < len then none
  else some ((stream.drop 4).take len, (stream.drop 4).drop len)

end McpCli
