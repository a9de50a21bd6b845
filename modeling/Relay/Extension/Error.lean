import Relay.Extension.Info
import Relay.Failure
import Relay.Pipeline

/-! # Why the host of extensions cannot do what it is asked -/

namespace Relay

/-- Why an extension is left out, or an operation on it fails. -/
inductive HostError where
  | info (cause : InfoError)
  | duplicate (name : String)
  | missingDefinitions (name : String) (missing : List MissingDefinition)
  | dependencyMissing (name dependency : String)
  | conflict (name conflict : String)
  | notInstalled (name : String)
  | notLoaded (name : String)
  | notReloadable (name : String)
  | noImplementation (name : String)
  | loadFailed (name : String) (cause : Failure)
  | unloadFailed (name : String) (cause : Failure)
  | stateMismatch (name : String) (expected found : UInt32)
  | unknownDirection (name : String)
  | pipeline (cause : PipelineError)
  deriving DecidableEq, Repr

namespace HostError

/-- The wording of a refusal. -/
def message : HostError → String
  | .info cause => cause.message
  | .duplicate name => s!"duplicate module \"{name}\""
  | .missingDefinitions name missing =>
    s!"module \"{name}\" uses outdated or unsupported messages: " ++
      ", ".intercalate (missing.map (·.text))
  | .dependencyMissing name dependency =>
    s!"module \"{name}\" requires \"{dependency}\" to be installed"
  | .conflict name other =>
    s!"module \"{name}\" cannot be loaded while \"{other}\" is installed"
  | .notInstalled name => s!"module \"{name}\" is not installed"
  | .notLoaded name => s!"module \"{name}\" is not loaded"
  | .notReloadable name => s!"module \"{name}\" does not support hot-reload"
  | .noImplementation name => s!"no implementation registered for module \"{name}\""
  | .loadFailed name _ => s!"module \"{name}\" could not be loaded"
  | .unloadFailed name _ => s!"module \"{name}\" could not be unloaded"
  | .stateMismatch name expected found =>
    s!"state for module \"{name}\" has format {found}, expected {expected}"
  | .unknownDirection name => s!"unknown message direction: {name}"
  | .pipeline cause => cause.message

/-- The wordings of what led to a refusal, nearest first. -/
def causes : HostError → List String
  | .loadFailed _ cause => cause.messages "module"
  | .unloadFailed _ cause => cause.messages "module"
  | .pipeline cause => cause.causes
  | _ => []

/-- What was said of the file or the text that led to a refusal. -/
def detail? : HostError → Option String
  | .info cause => some cause.detail
  | .pipeline cause => cause.detail?
  | _ => none

/-- The wording of a refusal and of what led to it. -/
def messages (error : HostError) : List String :=
  error.message :: error.causes ++ error.detail?.toList

/-- A refusal as the failure of a callback that passes it on. -/
def toFailure (error : HostError) : Failure :=
  .failed error.messages

end HostError

end Relay
