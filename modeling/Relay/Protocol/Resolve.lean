import Relay.Files.Tree
import Relay.Json.Fault
import Relay.Protocol.Store

/-! # Resolving messages

From a message key and a version request to one definition, and reading and writing messages by
it. -/

namespace Relay

/-- Why the store cannot help. -/
inductive StoreError where
  | unmappedProtocol (protocol : UInt32)
  | unmappedCode (protocol : UInt32) (code : UInt16)
  | unknownMessage (protocol : UInt32) (name : String)
  | noDefinition (name : String) (version : VersionRequest)
  | outdated (name : String) (version latest : UInt32)
  | deprecated (name : String) (version protocol : UInt32) (access : Access)
  | invalidPlatform (name : String)
  | unreadable (path : String) (cause : Files.ReadError)
  | invalidManifest (path : String) (cause : Json.Fault)
  | decode (name : String) (version : UInt32) (cause : DecodeError)
  | encode (name : String) (version : UInt32) (cause : EncodeError)
  deriving DecidableEq, Repr

namespace StoreError

/-- The wording of a refusal. -/
def message : StoreError → String
  | .unmappedProtocol protocol => s!"no mapping for protocol version {protocol}"
  | .unmappedCode protocol code =>
    s!"mapping not found for opcode {code} (protocol {protocol})"
  | .unknownMessage protocol name =>
    s!"code not known for message \"{name}\" (protocol {protocol})"
  | .noDefinition name version =>
    s!"no definition found for message \"{name}\" (version {version.text})"
  | .outdated name version latest =>
    s!"version {version} of message \"{name}\" is outdated and cannot be used anymore " ++
      s!"(latest {latest})"
  | .deprecated name version protocol access =>
    s!"version {version} of message \"{name}\" cannot be used to {access.name} " ++
      s!"on protocol {protocol}"
  | .invalidPlatform name => s!"invalid platform \"{name}\""
  | .unreadable path _ => s!"failed to read \"{path}\""
  | .invalidManifest path _ => s!"invalid manifest \"{path}\""
  | .decode name version _ => s!"failed to decode {name}<{version}>"
  | .encode name version _ => s!"failed to encode {name}<{version}>"

/-- The wordings of what led to a refusal, nearest first. -/
def causes : StoreError → List String
  | .decode _ _ cause => cause.message :: cause.causes
  | .encode _ _ cause => [cause.message]
  | _ => []

/-- What was said of the file or the text that led to a refusal. -/
def detail? : StoreError → Option String
  | .unreadable _ cause => some cause.message
  | .invalidManifest _ cause => some cause.message
  | _ => none

end StoreError

/-- The platform with a name. -/
def Platform.parse (name : String) : Except StoreError Platform :=
  match Platform.ofName? name with
  | some platform => .ok platform
  | none => .error (.invalidPlatform name)

/-- One definition of one message of a protocol. -/
structure Resolved where
  name : String
  code : UInt16
  version : UInt32
  latest : UInt32
  layout : Layout
  bounds : Deprecation
  deriving Repr

namespace Resolved

/-- Whether it is the latest version. -/
def isLatest (resolved : Resolved) : Bool :=
  resolved.version == resolved.latest

/-- Refuse an access that is not allowed on a protocol. -/
def ensure (resolved : Resolved) (access : Access) (protocol : UInt32) : Except StoreError Unit :=
  if resolved.bounds.allows access protocol then .ok ()
  else .error (.deprecated resolved.name resolved.version protocol access)

/-- The object in a message, and what is odd about the message. -/
def decode (resolved : Resolved) (message : Bytes) : Except StoreError Object × Journal :=
  let (result, remarks) := resolved.layout.decode message
  (result.mapError (.decode resolved.name resolved.version ·), remarks)

/-- The object in a message if the message may be read on a protocol, and what is odd about it. -/
def read (resolved : Resolved) (protocol : UInt32) (message : Bytes) :
    Except StoreError Object × Journal :=
  match resolved.ensure .read protocol with
  | .ok () => resolved.decode message
  | .error error => (.error error, #[])

/-- The message with an object. -/
def encode (resolved : Resolved) (object : Object) : Except StoreError Bytes :=
  (resolved.layout.encode resolved.code object).mapError (.encode resolved.name resolved.version ·)

end Resolved

namespace Store

/-- Name and code of a message on a protocol. -/
def lookup (store : Store) (protocol : UInt32) (key : MessageKey) :
    Except StoreError (String × UInt16) :=
  match store.table? protocol with
  | none => .error (.unmappedProtocol protocol)
  | some table =>
    match key with
    | .name name =>
      match table.code? name with
      | some code => .ok (name, code)
      | none => .error (.unknownMessage protocol name)
    | .code code =>
      match table.name? code with
      | some name => .ok (name, code)
      | none => .error (.unmappedCode protocol code)

/-- The definition that a request asks for. -/
def resolve (store : Store) (protocol : UInt32) (key : MessageKey) (request : VersionRequest) :
    Except StoreError Resolved := do
  let (name, code) ← store.lookup protocol key
  match store.latest? name with
  | none => throw (.noDefinition name request)
  | some latest =>
    let wanted :=
      match request with
      | .latest => latest
      | .exact version => version
    match store.definition? name wanted with
    | some definition =>
      pure ⟨name, code, wanted, latest, definition.layout, store.manifest.deprecation name wanted⟩
    | none =>
      if wanted < latest then throw (.outdated name wanted latest)
      else throw (.noDefinition name request)

/-- Read a message by the definition that a request asks for. -/
def read (store : Store) (protocol : UInt32) (key : MessageKey) (request : VersionRequest)
    (message : Bytes) : Except StoreError Object × Journal :=
  let checked := do
    let resolved ← store.resolve protocol key request
    resolved.ensure .read protocol
    pure resolved
  match checked with
  | .error error => (.error error, #[])
  | .ok resolved => resolved.decode message

/-- Write a message by the definition that a request asks for. -/
def write (store : Store) (protocol : UInt32) (key : MessageKey) (request : VersionRequest)
    (object : Object) : Except StoreError Bytes := do
  let resolved ← store.resolve protocol key request
  resolved.ensure .write protocol
  resolved.encode object

end Store

end Relay
