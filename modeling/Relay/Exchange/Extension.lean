import Relay.Exchange.Protocol
import Relay.Exchange.Refusal
import Relay.Extension.Host

/-! # Extensions as JSON -/

namespace Relay.Exchange

instance : ToJson ExtensionInfo := ⟨fun info => .object [
  ("name", toJson info.name), ("raw_name", toJson info.rawName),
  ("printable", toJson info.printable), ("path", toJson info.path),
  ("category", toJson info.category.name), ("nice_name", toJson info.niceName),
  ("reloadable", toJson info.reloadable), ("load_on", toJson info.phase.name),
  ("dependencies", toJson info.dependencies), ("conflicts", toJson info.conflicts),
  ("auto_update_disabled", toJson info.autoUpdateDisabled), ("disabled", toJson info.disabled),
  ("support_url", toJson info.supportUrl), ("author", toJson info.author),
  ("version", toJson info.version), ("description", toJson info.description),
  ("defs", .object (info.usage.map fun (name, versions) => (name, toJson versions)))]⟩

instance : OfJson ExtensionInfo := ⟨fun data => do
  pure { ExtensionInfo.ofName (← get? data "name") with
    niceName := get? data "nice_name"
    dependencies := (get? data "dependencies").getD []
    conflicts := (get? data "conflicts").getD [] }⟩

instance : ToJson SavedState := ⟨fun state => state.toJson⟩
instance : OfJson SavedState := ⟨fun data => do
  pure ⟨← get? data "module", ← get? data "format", (data.get? "payload").getD .null⟩⟩

instance : ToJson Discovery := ⟨fun discovery => .object [
  ("installed", toJson discovery.installed), ("excluded", refusals discovery.excluded)]⟩
instance : ToJson LoadReport := ⟨fun report => .object [("loaded", toJson report.loaded),
  ("excluded", refusals report.excluded), ("failed", refusals report.failed)]⟩

end Relay.Exchange
