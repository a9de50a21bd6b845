import Relay.Files.Tree
import Relay.Layout.Parse
import Relay.Protocol.Resolve

/-! # Loading the store from files

Opcode tables lie in one directory and, for additions, another; definitions lie in a third, named by
message, version and perhaps platform; the manifest lies beside them. Other files are left alone. -/

namespace Relay.Store

open Files Text

/-- The protocol of a table, by the name of its file. -/
def tableFileProtocol? (file : String) : Option UInt32 := do
  let rest ← afterFront "protocol.".toList file.toList
  let digits ← beforeBack ".map".toList rest
  if isDigits digits then
    match numeral (UInt32.size - 1) digits with
    | .ok n => some (.ofNat n)
    | .error _ => none
  else none

/-- Message, version and perhaps platform of a definition, by the name of its file. -/
def definitionFileParts? (file : String) : Option (String × UInt32 × Option String) := do
  let stem ← beforeBack ".def".toList file.toList
  let (name, version, tag) ←
    match splitAll '.' stem with
    | [name, version] => some (name, version, none)
    | [name, version, tag] => some (name, version, some tag)
    | _ => none
  if isIdentifier name && isDigits version && tag.all isIdentifier then
    match numeral (UInt32.size - 1) version with
    | .ok n => some (String.ofList name, .ofNat n, tag.map String.ofList)
    | .error _ => none
  else none

/-- A store that is being loaded, with the names that occur in opcode tables. -/
structure Loading where
  store : Store
  mapped : List String
  unmapped : List String
  remarks : Journal

/-- A step of loading. A refusal keeps the remarks made so far. -/
abbrev Load := EStateM StoreError Loading

namespace Load

/-- Note an oddity. -/
def warn (text : String) (details : List (String × String)) : Load Unit :=
  modify fun loading => { loading with remarks := loading.remarks.push (.warning text details) }

/-- Note the oddities of a file. -/
def note (remarks : Journal) : Load Unit :=
  modify fun loading => { loading with remarks := loading.remarks ++ remarks }

/-- The text of a file. -/
def text (tree : Tree) (path : String) : Load String :=
  match tree.readText path with
  | .ok source => pure source
  | .error cause => throw (.unreadable path cause)

/-- The names of the entries of a directory, ascending. -/
def entries (tree : Tree) (path : String) : Load (List String) :=
  match tree.list path with
  | .ok found => pure (found.map Prod.fst)
  | .error cause => throw (.unreadable path cause)

/-- Add the rows of a table to those of its protocol. -/
def addTable (protocol : UInt32) (table : OpcodeTable) : Load Unit :=
  modify fun loading =>
    let before := (loading.store.table? protocol).getD .empty
    { loading with
      store := loading.store.setTable protocol (before.overlay table)
      mapped := table.codes.map Prod.fst ++ loading.mapped }

/-- Take in a file of a directory of tables. -/
def tableFile (tree : Tree) (directory file : String) : Load Unit := do
  let path := join directory file
  match tableFileProtocol? file with
  | none =>
    if file.startsWith "protocol." && file.endsWith ".map" then
      warn "invalid map filename syntax" [("path", path)]
  | some protocol =>
    let (table, remarks) := OpcodeTable.parse (← text tree path) path
    note remarks
    addTable protocol table

/-- Take in a file of the directory of definitions. Definitions for other platforms are left
alone. -/
def definitionFile (tree : Tree) (directory file : String) : Load Unit := do
  let path := join directory file
  match definitionFileParts? file with
  | none =>
    if file.endsWith ".def" then warn "invalid definition filename syntax" [("path", path)]
  | some (name, version, tag) =>
    let loading ← get
    if !loading.mapped.contains name && !loading.unmapped.contains name then
      set { loading with unmapped := name :: loading.unmapped }
    if tag.all (· == loading.store.platform.name) then
      let (parsed, remarks) := Layout.parse (← text tree path) path
      note remarks
      modify fun loading =>
        { loading with store := loading.store.add ⟨name, version, parsed.layout, tag.isSome⟩ }

/-- Take in all files of a directory. -/
def eachFile (tree : Tree) (directory : String) (take : Tree → String → String → Load Unit) :
    Load Unit := do
  for file in ← entries tree directory do
    take tree directory file

/-- Remark upon messages that have a definition but no code. -/
def remarkUnmapped : Load Unit := do
  for name in (← get).unmapped.mergeSort fun x y => decide (x ≤ y) do
    warn "unmapped message" [("name", name)]

/-- Take in the manifest, if there is one. -/
def manifestFile (tree : Tree) (path : String) : Load Unit := do
  if tree.isFile path then
    match Manifest.parse (← text tree path) with
    | .error cause => throw (.invalidManifest path cause)
    | .ok manifest =>
      modify fun loading => { loading with store := loading.store.setManifest manifest }

/-- Take in everything. -/
def all (tree : Tree) (base : String) : Load Unit := do
  eachFile tree (join base "map") tableFile
  if tree.isDirectory (join base "map_base") then
    eachFile tree (join base "map_base") tableFile
  eachFile tree (join base "protocol") definitionFile
  remarkUnmapped
  manifestFile tree (join base "manifest.json")

end Load

/-- The store of the files in a directory. -/
def load (tree : Tree) (base : String) (platform : Platform) :
    Except StoreError Store × Journal :=
  match Load.all tree base ⟨.empty platform, [], [], #[]⟩ with
  | .ok () loading => (.ok loading.store, loading.remarks)
  | .error error loading => (.error error, loading.remarks)

end Relay.Store
