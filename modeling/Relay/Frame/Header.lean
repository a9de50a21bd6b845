import Relay.Stream.Endian

/-! # The front of a message

A message begins with its length, the front included, and its code, each a number of two bytes. -/

namespace Relay.Frame

open Relay.Stream

/-- Length and code of a message. -/
structure Header where
  length : UInt16
  code : UInt16
  deriving DecidableEq, Repr

/-- Why a front cannot be read or written. -/
inductive HeaderError where
  | tooSmall (actual required : Nat)
  | lengthMismatch (declared : UInt16) (actual : Nat)
  | bufferTooSmall (needed available : Nat)
  | lengthOverflow (length : Nat)
  deriving DecidableEq, Repr

/-- The wording of a refusal. -/
def HeaderError.message : HeaderError → String
  | .tooSmall actual required =>
    s!"message too small: {actual} bytes, need at least {required}"
  | .lengthMismatch declared actual =>
    s!"length mismatch: header declares {declared} bytes but {actual} supplied"
  | .bufferTooSmall needed available =>
    s!"buffer too small: need {needed} bytes, have {available}"
  | .lengthOverflow length =>
    s!"message length {length} does not fit in the 16-bit length field"

namespace Header

/-- The bytes of a front. -/
def size : Nat := 4

/-- The bytes that follow the front. -/
def payloadLength (header : Header) : Nat := header.length.toNat - size

/-- The number of two bytes at a place. -/
def numberAt (bytes : Bytes) (place : Nat) : UInt16 :=
  .ofNat (ofLittleEndian (bytes.extract place (place + 2)).toList)

/-- Put a number of two bytes at a place. -/
def putAt (bytes : Bytes) (place : Nat) (value : UInt16) : Bytes :=
  (bytes.setIfInBounds place (.ofNat value.toNat)).setIfInBounds (place + 1)
    (.ofNat (value.toNat / 256))

/-- The front of a run of bytes. -/
def read (bytes : Bytes) : Except HeaderError Header :=
  if bytes.size < size then .error (.tooSmall bytes.size size)
  else .ok ⟨numberAt bytes 0, numberAt bytes 2⟩

/-- The front of a whole message. -/
def readWhole (bytes : Bytes) : Except HeaderError Header := do
  let header ← read bytes
  if header.length.toNat ≠ bytes.size then throw (.lengthMismatch header.length bytes.size)
  pure header

/-- Write a front over the first bytes. -/
def write (header : Header) (bytes : Bytes) : Except HeaderError Bytes :=
  if bytes.size < size then .error (.bufferTooSmall size bytes.size)
  else .ok (putAt (putAt bytes 0 header.length) 2 header.code)

/-- Write the length of a message into its front. -/
def patchLength (message : Bytes) : Except HeaderError Bytes :=
  if message.size < size then .error (.bufferTooSmall size message.size)
  else if UInt16.size ≤ message.size then .error (.lengthOverflow message.size)
  else .ok (putAt message 0 (.ofNat message.size))

end Header

end Relay.Frame
