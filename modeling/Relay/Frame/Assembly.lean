import Relay.Frame.Header
import Relay.Journal

/-! # Assembling frames

Bytes arrive in chunks of any size, and leave as frames: each begins with its length. A length that
is impossible or too large, and a frame too many, drop what was begun and the rest of the chunk. -/

namespace Relay.Frame

/-- How large a frame may be, and how many frames may wait. -/
structure Limits where
  frameBytes : Nat
  waitingFrames : Nat
  deriving DecidableEq, Repr

namespace Limits

/-- The usual limits. A length of two bytes cannot exceed the first. -/
def standard : Limits := ⟨65535, 1024⟩

/-- Small limits. -/
def small : Limits := ⟨1024, 16⟩

/-- The largest limits. -/
def largest : Limits := ⟨UInt64.size - 1, UInt64.size - 1⟩

end Limits

/-- What a limit limits. -/
inductive LimitKind where
  | frameBytes
  | waitingFrames
  deriving DecidableEq, Repr

/-- The wording of a limit. -/
def LimitKind.name : LimitKind → String
  | .frameBytes => "frame bytes"
  | .waitingFrames => "pending frames"

/-- Why bytes are refused. -/
inductive FrameError where
  | frameTooSmall (length : Nat)
  | limitExceeded (kind : LimitKind) (limit actual : Nat)
  deriving DecidableEq, Repr

namespace FrameError

/-- The wording of a refusal. -/
def message : FrameError → String
  | .frameTooSmall length => s!"frame declares length {length}, smaller than the message header"
  | .limitExceeded kind limit actual => s!"{kind.name} limit exceeded: {actual} > {limit}"

/-- What an operator is told about a refusal. -/
def remarks : FrameError → Journal
  | .limitExceeded .frameBytes _ actual =>
    #[.warning "discarding oversized frame" [("frame_len", toString actual)]]
  | _ => #[]

end FrameError

/-- The bytes of a frame that is not complete, and complete frames that wait. -/
structure Assembler where
  limits : Limits
  pending : Bytes
  frames : Array Bytes
  deriving DecidableEq, Repr

namespace Assembler

/-- Nothing has arrived yet. -/
def new (limits : Limits) : Assembler := ⟨limits, #[], #[]⟩

/-- Why a frame of some length is refused. -/
def lengthError? (limits : Limits) (length : Nat) : Option FrameError :=
  if length < Header.size then some (.frameTooSmall length)
  else if limits.frameBytes < length then
    some (.limitExceeded .frameBytes limits.frameBytes length)
  else none

/-- The length that a frame declares. -/
def declaredLength (pending : Bytes) : Nat :=
  (Header.numberAt pending 0).toNat

/-- Take in one byte. -/
def pushByte : Assembler → UInt8 → Assembler × Option FrameError
  | ⟨limits, pending, frames⟩, b =>
    let pending := pending.push b
    if pending.size < 2 then (⟨limits, pending, frames⟩, none)
    else
      let length := declaredLength pending
      match lengthError? limits length with
      | some error => (⟨limits, #[], frames⟩, some error)
      | none =>
        if pending.size < length then (⟨limits, pending, frames⟩, none)
        else if limits.waitingFrames ≤ frames.size then
          (⟨limits, #[], frames⟩,
            some (.limitExceeded .waitingFrames limits.waitingFrames (frames.size + 1)))
        else (⟨limits, #[], frames.push pending⟩, none)

/-- Take in bytes up to the first that is refused. -/
def pushList (assembler : Assembler) : List UInt8 → Assembler × Option FrameError
  | [] => (assembler, none)
  | b :: rest =>
    match assembler.pushByte b with
    | (assembler, some error) => (assembler, some error)
    | (assembler, none) => assembler.pushList rest

/-- Take in a chunk, and count the frames that wait. -/
def push (assembler : Assembler) (chunk : Bytes) : Assembler × Except FrameError Nat :=
  match assembler.pushList chunk.toList with
  | (assembler, some error) => (assembler, .error error)
  | (assembler, none) => (assembler, .ok assembler.frames.size)

/-- Take out the frame that waited longest. -/
def pop (assembler : Assembler) : Option Bytes × Assembler :=
  (assembler.frames[0]?,
    { assembler with frames := assembler.frames.extract 1 assembler.frames.size })

/-- Take out all frames. -/
def drain (assembler : Assembler) : List Bytes × Assembler :=
  (assembler.frames.toList, { assembler with frames := #[] })

/-- Forget everything. -/
def reset (assembler : Assembler) : Assembler := new assembler.limits

end Assembler

end Relay.Frame
