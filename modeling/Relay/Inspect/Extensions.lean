import Relay.Extension.Discovery

/-! # Reports on directories of extensions -/

namespace Relay

/-- The line about an extension that can be loaded. -/
def ExtensionInfo.line (info : ExtensionInfo) : String :=
  let version := info.version.getD "-"
  s!"  {info.printable} {version} [{info.category.name}, load on {info.phase.name}]\n"

/-- The line about what is left out. -/
def HostError.line (error : HostError) : String :=
  "  " ++ ": ".intercalate error.messages ++ "\n"

/-- The text of a report on what was found. -/
def Discovery.text (discovery : Discovery) : String :=
  let excluded :=
    if discovery.excluded.isEmpty then ""
    else s!"excluded: {discovery.excluded.length}\n" ++
      String.join (discovery.excluded.map HostError.line)
  s!"installed: {discovery.installed.length}\n" ++
    String.join (discovery.installed.map ExtensionInfo.line) ++ excluded

end Relay
