import Relay.Layout.Decode
import Relay.Layout.Encode
import Relay.Protocol.Manifest
import Relay.Protocol.OpcodeTable
import Relay.Protocol.Platform
import Relay.Protocol.Version

/-! # The store of protocol knowledge

Opcode tables by protocol, definitions by message name and version, and the manifest. A definition
is general or made for the platform of the store; one made for the platform takes the place of a
general one of the same version. -/

namespace Relay

/-- A definition of a message. -/
structure Definition where
  name : String
  version : UInt32
  layout : Layout
  platformSpecific : Bool
  deriving Repr

/-- What is known about protocols. Definitions are kept in ascending order of name and version. For
every name, `floors` has the lowest version of a general definition that was ever added. -/
structure Store where
  platform : Platform
  tables : List (UInt32 × OpcodeTable)
  definitions : List Definition
  floors : List (String × UInt32)
  manifest : Manifest

namespace Store

/-- The store that knows nothing. -/
def empty (platform : Platform) : Store := ⟨platform, [], [], [], .empty⟩

/-- The opcode table of a protocol. -/
def table? (store : Store) (protocol : UInt32) : Option OpcodeTable :=
  store.tables.lookup protocol

/-- Install an opcode table in place of the one of the same protocol. -/
def setTable (store : Store) (protocol : UInt32) (table : OpcodeTable) : Store :=
  { store with
    tables := store.tables.filter (fun (other, _) => other != protocol) ++ [(protocol, table)] }

/-- The protocols with an opcode table, ascending. -/
def protocols (store : Store) : List UInt32 :=
  (store.tables.map Prod.fst).mergeSort fun x y => decide (x ≤ y)

/-- Replace the manifest. -/
def setManifest (store : Store) (manifest : Manifest) : Store :=
  { store with manifest := manifest }

/-- Whether a definition comes before a name and version. -/
def precedes (definition : Definition) (name : String) (version : UInt32) : Bool :=
  decide (definition.name < name) || (definition.name == name && definition.version < version)

/-- Add a definition to others in their order. Only one made for the platform replaces another. -/
def insertDefinition (added : Definition) : List Definition → List Definition
  | [] => [added]
  | definition :: rest =>
    if precedes definition added.name added.version then
      definition :: insertDefinition added rest
    else if definition.name = added.name ∧ definition.version = added.version then
      (if added.platformSpecific then added else definition) :: rest
    else added :: definition :: rest

/-- Lower the floor of a name. -/
def lowerFloor (floors : List (String × UInt32)) (name : String) (version : UInt32) :
    List (String × UInt32) :=
  match floors.lookup name with
  | none => floors ++ [(name, version)]
  | some _ => floors.map fun (other, floor) =>
    (other, if other == name ∧ version < floor then version else floor)

/-- Add a definition. -/
def add (store : Store) (definition : Definition) : Store :=
  { store with
    floors :=
      if definition.platformSpecific then store.floors
      else lowerFloor store.floors definition.name definition.version
    definitions := insertDefinition definition store.definitions }

/-- Add a general definition. -/
def addGeneral (store : Store) (name : String) (version : UInt32) (layout : Layout) : Store :=
  store.add ⟨name, version, layout, false⟩

/-- Add a definition made for a platform, if it is the platform of the store. -/
def addForPlatform (store : Store) (name : String) (version : UInt32) (platform : Platform)
    (layout : Layout) : Bool × Store :=
  if platform = store.platform then (true, store.add ⟨name, version, layout, true⟩)
  else (false, store)

/-- The definitions of a message, by ascending version. -/
def definitionsOf (store : Store) (name : String) : List Definition :=
  store.definitions.filter (·.name == name)

/-- The versions of a message, ascending. -/
def versions (store : Store) (name : String) : List UInt32 :=
  (store.definitionsOf name).map (·.version)

/-- The names of messages with a definition, ascending. -/
def names (store : Store) : List String :=
  store.definitions.foldr (fun definition names =>
    if names.head? == some definition.name then names else definition.name :: names) []

/-- The latest version of a message. -/
def latest? (store : Store) (name : String) : Option UInt32 :=
  (store.versions name).getLast?

/-- The definition of a version. -/
def definition? (store : Store) (name : String) (version : UInt32) : Option Definition :=
  store.definitions.find? fun definition =>
    definition.name == name && definition.version == version

/-- Whether a version has a definition. -/
def hasDefinition (store : Store) (name : String) (version : UInt32) : Bool :=
  (store.definition? name version).isSome

/-- The used versions that have no definition. Raw use needs none. -/
def missing (store : Store) (usage : Usage) : List MissingDefinition :=
  usage.flatMap fun (name, versions) =>
    (versions.toList.filter fun used =>
      match used with
      | .raw => false
      | .version version => !store.hasDefinition name version).map (⟨name, ·⟩)

/-- Whether a definition is kept on a protocol: it may be read, and it is not made for the platform
below all general versions. -/
def isCurrent (store : Store) (protocol : UInt32) (definition : Definition) : Bool :=
  let stale := definition.platformSpecific &&
    (store.floors.lookup definition.name).any fun floor => definition.version < floor
  !stale && (store.manifest.deprecation definition.name definition.version).isReadable protocol

/-- Drop the definitions that are of no use on a protocol, and count them. -/
def purge (store : Store) (protocol : UInt32) : Nat × Store :=
  let kept := store.definitions.filter (store.isCurrent protocol)
  (store.definitions.length - kept.length, { store with definitions := kept })

end Store

end Relay
