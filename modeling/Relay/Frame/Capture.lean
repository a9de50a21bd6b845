import Relay.Frame.Assembly

/-! # Captures

A capture is a recorded run of bytes. It is split into frames chunk by chunk, and the frames of one
chunk are taken out before the next, so that the limit on waiting frames applies to a chunk. -/

namespace Relay.Frame

/-- Why a capture cannot be split. -/
inductive CaptureError where
  | frame (cause : FrameError)
  | incomplete (bytes : Nat)
  deriving DecidableEq, Repr

namespace CaptureError

/-- The wording of a refusal, outermost first. -/
def messages : CaptureError → List String
  | .frame cause => ["split capture into messages", cause.message]
  | .incomplete bytes => [s!"capture ends with {bytes} bytes of an incomplete message"]

end CaptureError

/-- The bytes of a chunk. -/
def chunkSize : Nat := 65535

/-- Split the next `count` chunks. -/
def splitChunks (capture : Bytes) :
    Nat → Nat → Assembler → List Bytes → Except CaptureError (List Bytes)
  | 0, _, assembler, found =>
    if 0 < assembler.pending.size then .error (.incomplete assembler.pending.size)
    else .ok found.reverse
  | count + 1, start, assembler, found =>
    match assembler.push (capture.extract start (start + chunkSize)) with
    | (_, .error cause) => .error (.frame cause)
    | (assembler, .ok _) =>
      let (frames, assembler) := assembler.drain
      splitChunks capture count (start + chunkSize) assembler (frames.reverse ++ found)

/-- The frames of a capture. -/
def split (capture : Bytes) (limits : Limits) : Except CaptureError (List Bytes) :=
  splitChunks capture ((capture.size + chunkSize - 1) / chunkSize) 0 (.new limits) []

end Relay.Frame
