import Relay.Exchange.Protocol
import Relay.Exchange.Value
import Relay.Pipeline

/-! # Hooks and remarks as JSON

What is not said about the filter of a hook is as usual; where null is said it does not matter. -/

namespace Relay.Exchange

/-- The word for how serious an entry is. -/
def severityWord : Severity → String
  | .info => "INFO"
  | .warning => "WARN"
  | .failure => "ERROR"

instance : ToJson Entry := ⟨fun entry => .array [.string (severityWord entry.severity),
  .string entry.text, .object (entry.details.map fun (name, text) => (name, .string text))]⟩

instance : OfJson Direction := ⟨fun
  | .string "client" => some .toClient
  | .string "server" => some .toServer
  | _ => none⟩
instance : ToJson Direction := ⟨fun
  | .toClient => .string "client"
  | .toServer => .string "server"⟩

instance : ToJson Flags := ⟨fun flags => .object [("fake", .bool flags.fake),
  ("incoming", .bool flags.incoming), ("modified", .bool flags.modified),
  ("silenced", .bool flags.silenced)]⟩
instance : ToJson Outbound := ⟨fun message => toJson (message.direction, message.bytes)⟩
instance : ToJson Outcome := ⟨fun
  | .dropped => .string "dropped"
  | .forward bytes => .object [("forward", toJson bytes)]⟩

instance : OfJson Filter := ⟨fun
  | .string "any" => some .any
  | data =>
    let part (name : String) (usual : Option Bool) : Option Bool :=
      match data.get? name with
      | none => usual
      | some value => ofJson? value
    some ⟨part "fake" Filter.standard.fake, part "incoming" Filter.standard.incoming,
      part "modified" Filter.standard.modified, part "silenced" Filter.standard.silenced⟩⟩

instance : OfJson HookOptions := ⟨fun data => some
  ⟨(get? data "order").getD HookOptions.standard.order,
    (get? data "filter").getD HookOptions.standard.filter,
    (get? data "once").getD HookOptions.standard.once⟩⟩

instance : OfJson PipelineLimits := ⟨fun
  | .string "testing" => some .small
  | data => some
    ⟨(get? data "max_deferred_writes").getD PipelineLimits.standard.deferredWrites,
      (get? data "max_write_depth").getD PipelineLimits.standard.writeDepth⟩⟩

end Relay.Exchange
