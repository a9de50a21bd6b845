import Relay.Extension.Constraints

/-! # Finding extensions

The directories of extensions are looked at in order. What cannot be read, what repeats a name, what
uses definitions that do not exist, and what breaks a constraint is left out. -/

namespace Relay

/-- The extensions that can be loaded, and those that are left out. -/
structure Discovery where
  installed : List ExtensionInfo
  excluded : List HostError

namespace Discovery

/-- A discovery that is under way. -/
structure Draft where
  found : List ExtensionInfo
  excluded : List HostError
  remarks : Journal

/-- What an operator is told of an extension that uses definitions that do not exist. -/
def missingRemarks (info : ExtensionInfo) (missing : List MissingDefinition)
    (supportUrl : Option String) : List Entry :=
  (missing.map fun definition =>
    .failure "module uses outdated or unsupported message"
      [("module", info.printable), ("def", definition.text)]) ++
  [.failure "please contact the module's author"
    [("module", info.printable), ("support", info.support supportUrl)]]

/-- Leave an extension out. -/
def Draft.exclude (draft : Draft) (error : HostError) (remarks : List Entry) : Draft :=
  { draft with
    excluded := draft.excluded ++ [error]
    remarks := draft.remarks ++ remarks.toArray }

/-- Look at a directory. -/
def look (tree : Files.Tree) (root : String) (store : Option Store) (supportUrl : Option String)
    (draft : Draft) (directory : String) : Draft :=
  match ExtensionInfo.load tree root directory with
  | .error error =>
    draft.exclude (.info error) [.failure "unable to load module information"
      [("module", directory), ("error", chainText [error.message, error.detail])]]
  | .ok info =>
    let missing := store.elim [] (·.missing info.usage)
    if info.disabled then draft
    else if draft.found.any fun other => other.name == info.name then
      draft.exclude (.duplicate info.name)
        [.failure "duplicate module detected" [("module", directory)]]
    else if !missing.isEmpty then
      draft.exclude (.missingDefinitions info.name missing)
        (missingRemarks info missing supportUrl)
    else { draft with found := draft.found ++ [info] }

/-- Find the extensions below a directory. Extensions for other places count for the constraints and
are then left aside. -/
def run (tree : Files.Tree) (root : String) (store : Option Store) (supportUrl : Option String) :
    Except HostError (Discovery × Journal) :=
  match ExtensionInfo.directories tree root with
  | .error error => .error (.info error)
  | .ok directories =>
    let draft := directories.foldl (look tree root store supportUrl) ⟨[], [], #[]⟩
    let selection := Constraints.resolve draft.found
    .ok (⟨selection.infos.filter (·.category == .network), draft.excluded ++ selection.removed⟩,
      draft.remarks ++ selection.remarks)

end Discovery

end Relay
