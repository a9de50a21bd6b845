import Relay.Json.Number
import Relay.Json.Quoted

/-! # Going past values

A value that nobody wants must be JSON, but it may nest as deep as it likes, its numbers may be of
any size, and units of characters need not come in pairs. -/

namespace Relay.Json.Reader

/-- What a value lies in. -/
inductive Frame where
  | list
  | object
  deriving DecidableEq, Repr

/-- The fault of a frame that ends neither with its bracket nor with a comma. -/
def Frame.wantsEnd : Frame → FaultKind
  | .list => .wantsListEnd
  | .object => .wantsObjectEnd

/-- The fault of a frame in which the text ends. -/
def Frame.cutShort : Frame → FaultKind
  | .list => .endInList
  | .object => .endInObject

/-- The closing bracket of a frame. -/
def Frame.bracket : Frame → Char
  | .list => ']'
  | .object => '\x7d'

/-- Go on behind the colon between a key and its value. -/
def colon : Reader Unit := do
  match ← spaces with
  | some ':' => advance
  | some _ => failNext .wantsColon
  | none => failHere .endInObject

/-- Go on behind the key that a value in a frame needs, and its colon. -/
def skipKey : Frame → Reader Unit
  | .list => pure ()
  | .object => do
    match ← spaces with
    | some '"' =>
      skipText
      colon
    | some _ => failNext .keyNoText
    | none => failHere .endInObject

/-- Go on behind a value that is no array or object and begins with a character. -/
def skipScalar (c : Char) : Reader Unit :=
  match c with
  | 'n' => wordRest ['u', 'l', 'l']
  | 't' => wordRest ['r', 'u', 'e']
  | 'f' => wordRest ['a', 'l', 's', 'e']
  | '"' => skipText
  | c =>
    if beginsNumber c then do
      let _ ← numeral .badNumber
    else failNext .wantsValue

mutual

/-- Go on behind a value and the ends of the frames that it lies in, nearest first. -/
def skipWithin (frames : List Frame) : Nat → Reader Unit
  | 0 => pure ()
  | steps + 1 => do
    match ← valueStart with
    | '[' =>
      advance
      skipBehind false (.list :: frames) steps
    | '\x7b' =>
      advance
      skipBehind false (.object :: frames) steps
    | c =>
      skipScalar c
      skipBehind true frames steps

/-- Go on behind the ends of frames. In the nearest of them a comma may follow if it has a value
already. -/
def skipBehind (filled : Bool) (frames : List Frame) : Nat → Reader Unit
  | 0 => pure ()
  | steps + 1 =>
    match frames with
    | [] => pure ()
    | frame :: outer => do
      match ← spaces with
      | none => failHere frame.cutShort
      | some c =>
        if c = frame.bracket then
          advance
          skipBehind true outer steps
        else if filled && c != ',' then failNext frame.wantsEnd
        else
          if filled then advance
          skipKey frame
          skipWithin frames steps

end

/-- Go on behind a value. -/
def skipValue : Reader Unit := do
  skipWithin [] (← steps)

end Relay.Json.Reader
