import Relay.Json.Record

/-! # The manifest

Until when versions of definitions may be used, and which client build speaks which protocol. A
version may be written up to a last protocol and read up to another; without a last one it may be
used for ever. -/

namespace Relay

open Json

/-- What one does with a definition. -/
inductive Access where
  | read
  | write
  deriving DecidableEq, Repr

/-- The word for an access. -/
def Access.name : Access → String
  | .read => "read"
  | .write => "write"

/-- The last protocols on which a version may be written and read. -/
structure Deprecation where
  writeUntil : Option UInt32
  readUntil : Option UInt32
  deriving DecidableEq, Repr, Inhabited

namespace Deprecation

/-- No last protocol. -/
def never : Deprecation := ⟨none, none⟩

/-- Whether a protocol is not beyond a last one. -/
def within (last : Option UInt32) (protocol : UInt32) : Bool :=
  last.all fun last => protocol ≤ last

/-- Whether a version may be read on a protocol. -/
def isReadable (bounds : Deprecation) (protocol : UInt32) : Bool :=
  within bounds.readUntil protocol

/-- Whether a version may be written on a protocol. What cannot be read cannot be written. -/
def isWriteable (bounds : Deprecation) (protocol : UInt32) : Bool :=
  bounds.isReadable protocol && within bounds.writeUntil protocol

/-- Whether an access is allowed on a protocol. -/
def allows (bounds : Deprecation) (access : Access) (protocol : UInt32) : Bool :=
  match access with
  | .read => bounds.isReadable protocol
  | .write => bounds.isWriteable protocol

/-- A last protocol, or null. -/
def boundJson (last : Option UInt32) : Json :=
  last.elim .null fun last => .integer last.toNat

/-- The JSON form. -/
def toJson (bounds : Deprecation) : Json :=
  .object [("writeUntil", boundJson bounds.writeUntil), ("readUntil", boundJson bounds.readUntil)]

end Deprecation

/-- A client build. -/
structure Build where
  region : String
  major : UInt32
  minor : UInt32
  protocol : UInt32
  deriving DecidableEq, Repr

/-- The JSON form of a build. -/
def Build.toJson (build : Build) : Json :=
  .object [("region", .string build.region), ("major", .integer build.major.toNat),
    ("minor", .integer build.minor.toNat), ("protocol", .integer build.protocol.toNat)]

/-- Bounds by name and version, and builds in order. -/
structure Manifest where
  deprecated : List (String × List (UInt32 × Deprecation))
  builds : List Build
  deriving DecidableEq, Repr

/-- Read the JSON form of a deprecation. -/
def Deprecation.reader : Reader Deprecation :=
  Reader.record "struct Deprecation"
    [.maybe "writeUntil" (.optional .word32) fun bounds last => { bounds with writeUntil := last },
      .maybe "readUntil" (.optional .word32) fun bounds last => { bounds with readUntil := last }]
    .never

/-- Read the JSON form of a build. All members are needed. -/
def Build.reader : Reader Build :=
  Reader.record "struct Build"
    [.always "region" .text fun build region => { build with region := region },
      .always "major" .word32 fun build major => { build with major := major },
      .always "minor" .word32 fun build minor => { build with minor := minor },
      .always "protocol" .word32 fun build protocol => { build with protocol := protocol }]
    ⟨"", 0, 0, 0⟩

namespace Manifest

/-- The manifest that says nothing. -/
def empty : Manifest := ⟨[], []⟩

/-- The bounds of a version. -/
def deprecation (manifest : Manifest) (name : String) (version : UInt32) : Deprecation :=
  ((manifest.deprecated.lookup name).bind (·.lookup version)).getD .never

/-- Whether two texts are equal up to the case of ASCII letters. -/
def sameRegion (x y : String) : Bool :=
  x.toList.map Char.toLower == y.toList.map Char.toLower

/-- The protocol of the first build that fits. -/
def protocolOfBuild? (manifest : Manifest) (region : String) (major minor : UInt32) :
    Option UInt32 :=
  (manifest.builds.find? fun build =>
    build.major == major && build.minor == minor && sameRegion build.region region).map
      (·.protocol)

/-- The JSON form. -/
def toJson (manifest : Manifest) : Json :=
  .object [("deprecated", .object (manifest.deprecated.map fun (name, versions) =>
      (name, .object (versions.map fun (version, bounds) =>
        (toString version.toNat, bounds.toJson))))),
    ("builds", .array (manifest.builds.map Build.toJson))]

/-- Read the JSON form. -/
def reader : Reader Manifest :=
  Reader.record "struct Manifest"
    [.maybe "deprecated" (.sorted .quoted (.sorted .quotedWord32 Deprecation.reader))
        fun manifest deprecated => { manifest with deprecated := deprecated },
      .maybe "builds" (.list Build.reader)
        fun manifest builds => { manifest with builds := builds }]
    .empty

/-- Read the text of a manifest. -/
def parse (source : String) : Except Fault Manifest :=
  reader.run source

end Manifest

end Relay
