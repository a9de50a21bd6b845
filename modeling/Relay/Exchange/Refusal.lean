import Relay.Exchange.Form
import Relay.Extension.Error
import Relay.Frame.Assembly

/-! # Refusals as JSON

A result is an object with one member. A refusal has a word for its kind, its wording and the
wordings of what led to it, if there are any. A refusal that only passes another on is written as
that other one. -/

namespace Relay.Exchange

/-- The members of a refusal. -/
def refusal (kind message : String) (causes : List String := []) : Members :=
  [("error", .string kind), ("message", .string message)] ++
    (if causes.isEmpty then [] else [("causes", .array (causes.map .string))])

/-- Refusals that can be written as JSON. -/
class Refuse (ε : Type) where
  refuse : ε → Members

export Refuse (refuse)

/-- Some refusals. -/
def refusals [Refuse ε] (errors : List ε) : Json :=
  .array (errors.map fun error => .object (refuse error))

/-- The members of a result. -/
def outcome [ToJson α] [Refuse ε] : Except ε α → Members
  | .ok x => [("ok", toJson x)]
  | .error e => refuse e

instance [ToJson α] [Refuse ε] : ToJson (Except ε α) := ⟨fun result => .object (outcome result)⟩

instance : Refuse Text.NumeralError := ⟨fun e => refusal "ParseIntError" e.message⟩

instance : Refuse Stream.StreamError := ⟨fun e => refusal (match e with
  | .unexpectedEnd .. => "UnexpectedEof"
  | .seekOutOfBounds .. => "SeekOutOfBounds"
  | .positionOverflow .. => "PositionOverflow") e.message⟩

instance : Refuse Frame.HeaderError := ⟨fun e => refusal (match e with
  | .tooSmall .. => "MessageTooSmall"
  | .lengthMismatch .. => "LengthMismatch"
  | .bufferTooSmall .. => "BufferTooSmall"
  | .lengthOverflow .. => "LengthOverflow") e.message⟩

instance : Refuse Frame.FrameError := ⟨fun e => refusal (match e with
  | .frameTooSmall .. => "FrameTooSmall"
  | .limitExceeded .. => "LimitsExceeded") e.message⟩

instance : Refuse LayoutError := ⟨fun e => refusal (match e with
  | .duplicateField .. => "DuplicateField"
  | .invalidName .. => "InvalidName"
  | .unknownTarget .. => "UnknownHeaderTarget") e.message⟩

instance : Refuse DecodeError := ⟨fun e => refusal (match e with
  | .tooSmall .. => "MessageTooSmall"
  | .stream .. => "Stream"
  | .offsetInsideHeader .. => "OffsetInsideHeader"
  | .elementMismatch .. => "ElementMismatch"
  | .arrayOverflow .. => "ArrayOverflow"
  | .lengthMismatch .. => "ArrayLengthMismatch") e.message e.causes⟩

instance : Refuse EncodeError := ⟨fun e => refusal (match e with
  | .typeMismatch .. => "TypeMismatch"
  | .outOfRange .. => "OutOfRange"
  | .countOverflow .. => "CountOverflow"
  | .tooLarge .. => "MessageTooLarge") e.message⟩

instance : Refuse StoreError := ⟨fun e => refusal (match e with
  | .unmappedProtocol .. => "UnmappedProtocol"
  | .unmappedCode .. => "UnmappedOpcode"
  | .unknownMessage .. => "UnknownMessage"
  | .noDefinition .. => "NoDefinitionFound"
  | .outdated .. => "DefinitionOutdated"
  | .deprecated .. => "DeprecatedVersion"
  | .invalidPlatform .. => "InvalidPlatform"
  | .unreadable .. => "Io"
  | .invalidManifest .. => "Manifest"
  | .decode .. => "Decode"
  | .encode .. => "Encode") e.message e.causes⟩

instance : Refuse PipelineError := ⟨fun
  | .store e => refuse e
  | e@(.unmappedMessage ..) => refusal "UnmappedMessage" e.message
  | e@(.wildcardVersion ..) => refusal "WildcardVersion" e.message
  | e@(.obsoleteDefinition ..) => refusal "ObsoleteDefinition" e.message
  | e@(.definitionNotFound ..) => refusal "DefinitionNotFound" e.message⟩

instance : Refuse InfoError := ⟨fun e => refusal (match e with
  | .unreadable .. => "Io"
  | .invalid .. => "InvalidInfo") e.message⟩

/-- The word for the kind of a refusal of the host. Refusals that it only passes on have none. -/
def hostErrorKind? : HostError → Option String
  | .info .. => none
  | .pipeline .. => none
  | .duplicate .. => some "Duplicate"
  | .missingDefinitions .. => some "MissingDefinitions"
  | .dependencyMissing .. => some "DependencyMissing"
  | .conflict .. => some "ConflictDetected"
  | .notInstalled .. => some "NotInstalled"
  | .notLoaded .. => some "NotLoaded"
  | .notReloadable .. => some "NotReloadable"
  | .noImplementation .. => some "NoImplementation"
  | .loadFailed .. => some "LoadFailed"
  | .unloadFailed .. => some "UnloadFailed"
  | .stateMismatch .. => some "StateMismatch"
  | .unknownDirection .. => some "UnknownDirection"

instance : Refuse HostError := ⟨fun
  | .info e => refuse e
  | .pipeline e => refuse e
  | e => refusal ((hostErrorKind? e).getD "") e.message e.causes⟩

end Relay.Exchange
