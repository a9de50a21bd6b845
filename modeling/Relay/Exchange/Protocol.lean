import Relay.Exchange.Form
import Relay.Layout.Render
import Relay.Protocol.Resolve

/-! # Protocol knowledge as JSON -/

namespace Relay.Exchange

/-- A platform that is asked for, or why there is no such platform. -/
abbrev AskedPlatform := Except StoreError Platform

/-- A version that is asked for, or why the text for it means none. -/
abbrev AskedVersion := Except Text.NumeralError VersionRequest

instance : OfJson AskedPlatform := .map Platform.parse
instance : OfJson AskedVersion := ⟨fun
  | .integer n => some (.ok (.exact (.ofNat n.toNat)))
  | .string text => some (VersionRequest.parse text)
  | _ => none⟩
instance : OfJson VersionRequest := ⟨fun data => do
  (← (ofJson? data : Option AskedVersion)).toOption⟩
instance : OfJson MessageKey := ⟨fun
  | .integer n => some (.code (.ofNat n.toNat))
  | data => (ofJson? data).map .name⟩
instance : OfJson OpcodeTable := .map OpcodeTable.ofList

instance : ToJson OpcodeTable := ⟨fun table =>
  .array ((table.codes.mergeSort fun x y => decide (x.1 ≤ y.1)).map fun (name, code) =>
    .array [toJson name, toJson code, toJson (table.name? code)])⟩
instance : ToJson UsedVersions := ⟨fun
  | .one version => toJson ("one", [version.text])
  | .many versions => toJson ("many", versions.map (·.text))⟩
instance : ToJson Deprecation := ⟨fun bounds => .object [("write_until", toJson bounds.writeUntil),
  ("read_until", toJson bounds.readUntil)]⟩
instance : ToJson Resolved := ⟨fun resolved => .object [("name", toJson resolved.name),
  ("opcode", toJson resolved.code), ("version", toJson resolved.version),
  ("latest_version", toJson resolved.latest), ("is_latest", toJson resolved.isLatest),
  ("definition", toJson (Excerpt.mk resolved.layout.render)),
  ("deprecation", toJson resolved.bounds)]⟩

/-- The versions of every message. -/
def versionsJson (store : Store) : Json :=
  .object (store.names.map fun name => (name, toJson (store.versions name)))

instance : ToJson Store := ⟨fun store =>
  .object [("platform", toJson store.platform.name),
    ("maps", .object (store.tables.map fun (protocol, table) =>
      (toString protocol.toNat, toJson table))),
    ("versions", versionsJson store), ("manifest", toJson store.manifest.toJson.compact)]⟩

end Relay.Exchange
