import Relay.Json.Record
import Relay.Text.Numeral

/-! # Versions of definitions

Messages are known by name or code, and their definitions by version. A request for a definition
names a version or asks for the latest one. -/

namespace Relay

open Json

/-- How a message is named. -/
inductive MessageKey where
  | name (name : String)
  | code (code : UInt16)
  deriving DecidableEq, Repr

/-- The text of a message key. -/
def MessageKey.text : MessageKey → String
  | .name text => text
  | .code number => s!"opcode {number}"

/-- Which version of a definition is wanted. -/
inductive VersionRequest where
  | latest
  | exact (version : UInt32)
  deriving DecidableEq, Repr

namespace VersionRequest

/-- The text of a request. -/
def text : VersionRequest → String
  | .latest => "*"
  | .exact version => toString version.toNat

/-- The request that a text stands for. -/
def parse (text : String) : Except Text.NumeralError VersionRequest :=
  if text = "*" ∨ text = "latest" then .ok .latest
  else (Text.numeral (UInt32.size - 1) text.toList).map fun n => .exact (.ofNat n)

end VersionRequest

/-- A version that an extension says it uses. Raw use needs no definition. -/
inductive UsedVersion where
  | raw
  | version (version : UInt32)
  deriving DecidableEq, Repr

namespace UsedVersion

/-- The text of a used version. -/
def text : UsedVersion → String
  | .raw => "raw"
  | .version number => toString number.toNat

/-- Raw use comes before all versions. -/
def le : UsedVersion → UsedVersion → Bool
  | .raw, _ => true
  | .version _, .raw => false
  | .version x, .version y => x ≤ y

/-- The JSON form. -/
def toJson : UsedVersion → Json
  | .raw => .string "raw"
  | .version number => .integer number.toNat

/-- The used version that data stands for. -/
def ofJson? : Json → Option UsedVersion
  | .integer n => if 0 ≤ n ∧ n < UInt32.size then some (.version (.ofNat n.toNat)) else none
  | .string "raw" => some .raw
  | .object [("raw", .null)] => some .raw
  | _ => none

/-- Read the JSON form. -/
def reader : Reader UsedVersion :=
  Reader.dataFor "DefVersion" ofJson?

end UsedVersion

/-- The versions of one message that an extension uses. -/
inductive UsedVersions where
  | one (version : UsedVersion)
  | many (versions : List UsedVersion)
  deriving DecidableEq, Repr

namespace UsedVersions

/-- The versions as a list. -/
def toList : UsedVersions → List UsedVersion
  | .one version => [version]
  | .many versions => versions

/-- The JSON form. -/
def toJson : UsedVersions → Json
  | .one version => version.toJson
  | .many versions => .array (versions.map UsedVersion.toJson)

/-- The used versions that data stands for. -/
def ofJson? : Json → Option UsedVersions
  | .array versions => (versions.mapM UsedVersion.ofJson?).map .many
  | version => (UsedVersion.ofJson? version).map .one

/-- Read the JSON form. -/
def reader : Reader UsedVersions :=
  Reader.dataFor "DefVersions" ofJson?

end UsedVersions

/-- The messages that an extension uses, in the order of their names. -/
abbrev Usage := List (String × UsedVersions)

/-- Read the JSON form of a usage. -/
def Usage.reader : Reader Usage :=
  Reader.sorted Reader.quoted UsedVersions.reader

/-- A used version that has no definition. -/
structure MissingDefinition where
  name : String
  version : UsedVersion
  deriving DecidableEq, Repr

/-- The text of a missing definition. -/
def MissingDefinition.text (missing : MissingDefinition) : String :=
  missing.name ++ "." ++ missing.version.text

end Relay
