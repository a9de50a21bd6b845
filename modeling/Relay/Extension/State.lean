import Relay.Json.Record

/-! # Saved states of extensions -/

namespace Relay

open Json

/-- What an extension saved: whose it is, in which format, and the data. -/
structure SavedState where
  module : String
  format : UInt32
  payload : Json

namespace SavedState

/-- The JSON form. -/
def toJson (state : SavedState) : Json :=
  .object [("module", .string state.module), ("format", .integer state.format.toNat),
    ("payload", state.payload)]

/-- Read the JSON form. All members are needed. -/
def reader : Reader SavedState :=
  Reader.record "struct SavedState"
    [.always "module" .text fun state name => { state with module := name },
      .always "format" .word32 fun state format => { state with format := format },
      .always "payload" .data fun state payload => { state with payload := payload }]
    ⟨"", 0, .null⟩

end SavedState

end Relay
