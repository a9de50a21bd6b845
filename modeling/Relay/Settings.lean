import Relay.Extension.Host
import Relay.Files.Tree
import Relay.Frame.Assembly
import Relay.Protocol.Load
import Relay.Toml.Read

/-! # Settings

A settings file says for which platform a connection is, where the files of the protocol and the
extensions lie, which extensions are core ones, and how much is allowed. What it does not say is as
usual, and what is not a setting is left alone. -/

namespace Relay

/-- How much a connection may use. -/
structure Allowance where
  frames : Frame.Limits
  pipeline : PipelineLimits
  deriving DecidableEq, Repr

namespace Allowance

/-- The usual limits. -/
def standard : Allowance := ⟨.standard, .standard⟩

/-- Small limits. -/
def small : Allowance := ⟨.small, .small⟩

/-- The largest limits. -/
def largest : Allowance := ⟨.largest, .largest⟩

end Allowance

/-- What a settings file can say. -/
structure Settings where
  platform : Platform
  protocolDirectory : String
  extensionDirectory : String
  supportUrl : Option String
  core : List String
  limits : Allowance
  deriving DecidableEq, Repr

/-- Why a settings file cannot be used. -/
inductive SettingsError where
  | unreadable (path : String) (cause : Files.ReadError)
  | invalid (path : Option String)
  deriving DecidableEq, Repr

namespace SettingsError

/-- The wording of a refusal. -/
def message : SettingsError → String
  | .unreadable path _ => s!"failed to read {path}"
  | .invalid none => "invalid configuration"
  | .invalid (some path) => s!"invalid configuration in {path}"

/-- What was said of the file that led to a refusal. -/
def detail? : SettingsError → Option String
  | .unreadable _ cause => some cause.message
  | .invalid _ => none

end SettingsError

namespace Settings

/-- The usual settings with some limits. -/
def withLimits (limits : Allowance) : Settings :=
  ⟨.pc, "data", "mods", none, Host.standardCore, limits⟩

/-- The usual settings. -/
def standard : Settings := withLimits .standard

/-- The values of some keys, in a table or in the order of an array. -/
def membersOf (keys : List String) : Toml.Value → Option (List (Option Toml.Value))
  | .table entries => some (keys.map fun key => entries.lookup key)
  | .array items => some ((List.range keys.length).map (items[·]?))
  | .moment => some (keys.map fun _ => none)
  | _ => none

/-- Read a value that may be missing. -/
def orUsual (usual : α) (reader : Toml.Value → Option α) (value : Option Toml.Value) : Option α :=
  value.elim (some usual) reader

/-- Read a text. -/
def textOf : Toml.Value → Option String
  | .text value => some value
  | _ => none

/-- Read a list of texts. -/
def textsOf : Toml.Value → Option (List String)
  | .array items => items.mapM textOf
  | _ => none

/-- Read a number that is not negative. -/
def naturalOf : Toml.Value → Option Nat
  | .integer value => if 0 ≤ value then some value.toNat else none
  | _ => none

/-- Read a platform: its word, or its word as the only key of a table with nothing under it. -/
def platformOf : Toml.Value → Option Platform
  | .text name => Platform.ofName? name
  | .table [(name, .table [])] => Platform.ofName? name
  | .table [(name, .array [])] => Platform.ofName? name
  | _ => none

/-- Read the limits on frames. -/
def frameLimitsOf (value : Toml.Value) : Option Frame.Limits := do
  match ← membersOf ["max_frame_bytes", "max_pending_frames"] value with
  | [bytes, frames] =>
    pure ⟨← orUsual Frame.Limits.standard.frameBytes naturalOf bytes,
      ← orUsual Frame.Limits.standard.waitingFrames naturalOf frames⟩
  | _ => none

/-- Read the limits on the pipeline. -/
def pipelineLimitsOf (value : Toml.Value) : Option PipelineLimits := do
  match ← membersOf ["max_deferred_writes", "max_write_depth"] value with
  | [writes, depth] =>
    pure ⟨← orUsual PipelineLimits.standard.deferredWrites naturalOf writes,
      ← orUsual PipelineLimits.standard.writeDepth naturalOf depth⟩
  | _ => none

/-- Read all limits. -/
def limitsOf (value : Toml.Value) : Option Allowance := do
  match ← membersOf ["wire", "dispatch"] value with
  | [frames, pipeline] =>
    pure ⟨← orUsual .standard frameLimitsOf frames, ← orUsual .standard pipelineLimitsOf pipeline⟩
  | _ => none

/-- Read settings. -/
def ofValue (value : Toml.Value) : Option Settings := do
  match ← membersOf ["platform", "data_dir", "module_dir", "support_url", "core_modules", "limits"]
      value with
  | [platform, protocols, extensions, support, core, limits] =>
    pure ⟨← orUsual standard.platform platformOf platform,
      ← orUsual standard.protocolDirectory textOf protocols,
      ← orUsual standard.extensionDirectory textOf extensions,
      ← orUsual none (fun value => (textOf value).map some) support,
      ← orUsual standard.core textsOf core,
      ← orUsual standard.limits limitsOf limits⟩
  | _ => none

/-- Read the text of a settings file. -/
def parse (source : String) : Except SettingsError Settings :=
  match (Toml.read source).bind ofValue with
  | some settings => .ok settings
  | none => .error (.invalid none)

/-- Read a settings file. Directories in it start from where the file lies. -/
def load (tree : Files.Tree) (path : String) : Except SettingsError Settings :=
  match tree.readText path with
  | .error cause => .error (.unreadable path cause)
  | .ok source =>
    match (Toml.read source).bind ofValue with
    | none => .error (.invalid (some path))
    | some settings =>
      match Files.parent? path with
      | none => .ok settings
      | some base =>
        .ok { settings with
          protocolDirectory := Files.join base settings.protocolDirectory
          extensionDirectory := Files.join base settings.extensionDirectory }

/-- Whether an extension is a core one. -/
def isCore (settings : Settings) (name : String) : Bool :=
  settings.core.any fun core => Text.toSmall core == Text.toSmall name

/-- The store of the protocol files. -/
def loadStore (settings : Settings) (tree : Files.Tree) : Except StoreError Store × Journal :=
  Store.load tree settings.protocolDirectory settings.platform

/-- A host for the extensions of these settings. -/
def host (settings : Settings) (pipeline : Pipeline σ) (catalog : Catalog σ) : Host σ :=
  ((Host.new pipeline catalog settings.extensionDirectory).withCore settings.core).withSupportUrl
    settings.supportUrl

end Settings

end Relay
