import Relay.Exchange.Refusal
import Relay.Settings

/-! # Settings as JSON

Limits are written as texts, since they may have 64 bits. -/

namespace Relay.Exchange

instance : Refuse SettingsError := ⟨fun e => refusal (match e with
  | .unreadable .. => "Io"
  | .invalid .. => "Config") e.message⟩

instance : ToJson Settings := ⟨fun settings => .object [
  ("platform", toJson settings.platform.name), ("data_dir", toJson settings.protocolDirectory),
  ("module_dir", toJson settings.extensionDirectory),
  ("support_url", toJson settings.supportUrl), ("core_modules", toJson settings.core),
  ("wire", toJson [toString settings.limits.frames.frameBytes,
    toString settings.limits.frames.waitingFrames]),
  ("dispatch", toJson [toString settings.limits.pipeline.deferredWrites,
    toString settings.limits.pipeline.writeDepth])]⟩

end Relay.Exchange
