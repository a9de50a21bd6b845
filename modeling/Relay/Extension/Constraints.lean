import Relay.Extension.Error

/-! # Dependencies and conflicts

An extension whose dependency is not installed is left out, and so is one that conflicts with an
installed one. Leaving one out may break others, so both rules are applied until nothing changes. -/

namespace Relay

namespace Constraints

/-- Whether an extension is among others. -/
def isInstalled (infos : List ExtensionInfo) (name : String) : Bool :=
  let name := Text.toSmall name
  infos.any fun info => info.name == name

/-- The first dependency of an extension that is not installed. -/
def missingDependency? (infos : List ExtensionInfo) (info : ExtensionInfo) : Option String :=
  info.dependencies.find? fun name => !isInstalled infos name

/-- The first conflict of an extension with an installed one. Nothing conflicts with itself. -/
def presentConflict? (infos : List ExtensionInfo) (info : ExtensionInfo) : Option String :=
  info.conflicts.find? fun name => Text.toSmall name != info.name && isInstalled infos name

/-- What an operator is told of an extension that is left out. -/
def dependencyRemark (info : ExtensionInfo) (dependency : String) : Entry :=
  .failure "module requires a dependency that is not installed"
    [("module", info.printable), ("dependency", dependency)]

/-- What an operator is told of an extension that is left out. -/
def conflictRemark (info : ExtensionInfo) (conflict : String) : Entry :=
  .failure "module cannot be loaded while a conflicting module is installed"
    [("module", info.printable), ("conflict", conflict)]

/-- Extensions of which some were left out, in the order in which that happened. -/
structure Selection where
  infos : List ExtensionInfo
  removed : List HostError
  remarks : Journal

/-- Apply a rule to one extension after the other. Those in `kept` came before and stay; each is
judged by what is left at that time. -/
def sweep (rule : List ExtensionInfo → ExtensionInfo → Option (HostError × Entry))
    (kept : List ExtensionInfo) (removed : List HostError) (remarks : Journal) :
    List ExtensionInfo → Selection
  | [] => ⟨kept, removed, remarks⟩
  | info :: rest =>
    match rule (kept ++ info :: rest) info with
    | some (error, remark) => sweep rule kept (removed ++ [error]) (remarks.push remark) rest
    | none => sweep rule (kept ++ [info]) removed remarks rest

/-- Leave out an extension whose dependency is not installed. -/
def dependencyRule (infos : List ExtensionInfo) (info : ExtensionInfo) :
    Option (HostError × Entry) :=
  (missingDependency? infos info).map fun dependency =>
    (.dependencyMissing info.name dependency, dependencyRemark info dependency)

/-- Leave out an extension that conflicts with an installed one. -/
def conflictRule (infos : List ExtensionInfo) (info : ExtensionInfo) :
    Option (HostError × Entry) :=
  (presentConflict? infos info).map fun conflict =>
    (.conflict info.name conflict, conflictRemark info conflict)

/-- Apply both rules once. -/
def pass (selection : Selection) : Selection :=
  let first := sweep dependencyRule [] selection.removed selection.remarks selection.infos
  sweep conflictRule [] first.removed first.remarks first.infos

/-- Apply both rules until nothing changes. Every pass but the last leaves something out, so that
`fuel` need not exceed the number of extensions. -/
def passes : Nat → Selection → Selection
  | 0, selection => selection
  | fuel + 1, selection =>
    let next := pass selection
    if next.infos.length < selection.infos.length then passes fuel next else next

/-- The extensions that can be loaded together, and those that are left out. -/
def resolve (infos : List ExtensionInfo) : Selection :=
  passes infos.length ⟨infos, [], #[]⟩

end Constraints

end Relay
