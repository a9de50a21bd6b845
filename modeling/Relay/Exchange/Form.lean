import Relay.Json.Record

/-! # JSON forms

How data of other types is written as JSON and read back, and functions whose arguments come as
JSON. Numbers of 64 bits are written as texts, since many readers of JSON cannot hold them. -/

namespace Relay.Exchange

/-- Types that can be read from JSON. -/
class OfJson (α : Type) where
  ofJson? : Json → Option α

/-- Types that can be written as JSON. -/
class ToJson (α : Type) where
  toJson : α → Json

export OfJson (ofJson?)
export ToJson (toJson)

/-- The members of an object. -/
abbrev Members := List (String × Json)

/-- The items of an array. -/
def items? : Json → Option (List Json)
  | .array items => some items
  | _ => none

/-- The members of an object. -/
def members? : Json → Option Members
  | .object members => some members
  | _ => none

/-- A member that is there and not null. -/
def member? (data : Json) (name : String) : Option Json :=
  match data.get? name with
  | some .null => none
  | other => other

/-- What a member that is there and not null stands for. -/
def get? [OfJson α] (data : Json) (name : String) : Option α :=
  (member? data name).bind ofJson?

/-- The items of an array that is a member. -/
def itemsOf (data : Json) (name : String) : List Json :=
  ((member? data name).bind items?).getD []

mutual

/-- A text, written whole, in parts, or as a number of repetitions. -/
def text? : Json → Option String
  | .string text => some text
  | .array parts => texts? parts
  | .object [("repeat", .array [.integer n, part])] =>
    (text? part).map fun piece => String.join (List.replicate n.toNat piece)
  | _ => none

/-- Texts one after the other. -/
def texts? : List Json → Option String
  | [] => some ""
  | part :: rest => do
    let head ← text? part
    let tail ← texts? rest
    pure (head ++ tail)

end

/-- The number of hexadecimal digits. -/
def hexNumber (digits : List Char) : Nat :=
  digits.foldl (fun n c => n * 16 + (Text.hexDigit? c).getD 0) 0

/-- The bytes of pairs of hexadecimal digits, behind those found before. -/
def bytesOfHex (found : Array UInt8) : List Char → Array UInt8
  | a :: b :: rest => bytesOfHex (found.push (.ofNat (hexNumber [a, b]))) rest
  | _ => found

/-- A type read by way of another. -/
@[reducible] def OfJson.map [OfJson α] (make : α → β) : OfJson β :=
  ⟨fun data => (ofJson? data).map make⟩

instance : OfJson Json := ⟨some⟩
instance : OfJson String := ⟨text?⟩
instance : OfJson (Array UInt8) := .map fun text : String => bytesOfHex #[] text.toList
instance : OfJson Int := ⟨fun
  | .integer n => some n
  | .string text => text.toInt?
  | _ => none⟩
instance : OfJson Nat := .map Int.toNat
instance : OfJson Bool := ⟨fun
  | .bool value => some value
  | _ => none⟩
instance : OfJson UInt8 := .map UInt8.ofNat
instance : OfJson UInt16 := .map UInt16.ofNat
instance : OfJson UInt32 := .map UInt32.ofNat
instance : OfJson UInt64 := .map UInt64.ofNat
instance : OfJson Int16 := .map Int16.ofInt
instance : OfJson Int32 := .map Int32.ofInt
instance : OfJson Int64 := .map Int64.ofInt
instance [OfJson α] : OfJson (List α) := ⟨fun data => do (← items? data).mapM ofJson?⟩
instance [OfJson α] : OfJson (Option α) := ⟨fun
  | .null => some none
  | data => (ofJson? data).map some⟩
instance [OfJson α] [OfJson β] : OfJson (α × β) := ⟨fun
  | .array [x, y] => do pure (← ofJson? x, ← ofJson? y)
  | _ => none⟩

/-- The sixty-four bit hash of a run of bytes: every byte is mixed in and multiplied away. -/
def hash64 (bytes : ByteArray) : UInt64 :=
  bytes.foldl (fun hash b => (hash ^^^ b.toUInt64) * 0x100000001b3) 0xcbf29ce484222325

/-- Hexadecimal digits with zeros in front up to a width. -/
def hexPadded (width n : Nat) : String :=
  let digits := Text.hexText n
  String.ofList (List.replicate (width - digits.length) '0') ++ digits

/-- The text of some bytes; if there are too many, their number and their hash. -/
def digest (limit : Nat) (bytes : ByteArray) (text : Unit → String) : Json :=
  if bytes.size ≤ limit then .string (text ())
  else .object [("len", .integer bytes.size),
    ("fnv", .string (hexPadded 16 (hash64 bytes).toNat))]

/-- A text that is only written whole if it is short. -/
structure Excerpt where
  text : String

instance : ToJson Excerpt := ⟨fun excerpt =>
  digest 4096 excerpt.text.toUTF8 fun _ => excerpt.text⟩
instance : ToJson Json := ⟨id⟩
instance : ToJson Unit := ⟨fun _ => .null⟩
instance : ToJson Bool := ⟨.bool⟩
instance : ToJson String := ⟨.string⟩
instance : ToJson (Array UInt8) := ⟨fun bytes => digest 2048 ⟨bytes⟩ fun _ => Text.hexBytes bytes⟩
instance : ToJson Int := ⟨.integer⟩
instance : ToJson Nat := ⟨fun n => .integer n⟩
instance : ToJson UInt8 := ⟨fun n => .integer n.toNat⟩
instance : ToJson UInt16 := ⟨fun n => .integer n.toNat⟩
instance : ToJson UInt32 := ⟨fun n => .integer n.toNat⟩
instance : ToJson UInt64 := ⟨fun n => .string (toString n.toNat)⟩
instance : ToJson Int16 := ⟨fun n => .integer n.toInt⟩
instance : ToJson Int32 := ⟨fun n => .integer n.toInt⟩
instance : ToJson Int64 := ⟨fun n => .string (toString n.toInt)⟩
instance [ToJson α] : ToJson (Option α) := ⟨fun x => x.elim .null toJson⟩
instance [ToJson α] : ToJson (List α) := ⟨fun xs => .array (xs.map toJson)⟩
instance [ToJson α] [ToJson β] : ToJson (α × β) := ⟨fun (x, y) => .array [toJson x, toJson y]⟩
instance : ToJson Members := ⟨.object⟩

/-- Apply a function to one argument. -/
def on1 [OfJson α] (arguments : List Json) (f : α → Option ρ) : Option ρ :=
  match arguments with
  | [x] => do f (← ofJson? x)
  | _ => none

/-- Apply a function to two arguments. -/
def on2 [OfJson α] [OfJson β] (arguments : List Json) (f : α → β → Option ρ) : Option ρ :=
  match arguments with
  | x :: rest => do on1 rest (f (← ofJson? x))
  | [] => none

/-- Apply a function to three arguments. -/
def on3 [OfJson α] [OfJson β] [OfJson γ] (arguments : List Json) (f : α → β → γ → Option ρ) :
    Option ρ :=
  match arguments with
  | x :: rest => do on2 rest (f (← ofJson? x))
  | [] => none

/-- Apply a function to four arguments. -/
def on4 [OfJson α] [OfJson β] [OfJson γ] [OfJson δ] (arguments : List Json)
    (f : α → β → γ → δ → Option ρ) : Option ρ :=
  match arguments with
  | x :: rest => do on3 rest (f (← ofJson? x))
  | [] => none

end Relay.Exchange
