import Relay.Files.Tree
import Relay.Json.Record
import Relay.Protocol.Version
import Relay.Text.Case

/-! # What is known of an extension

An extension lies in a directory of its own. Two files in it, both of which may be missing, say what
it is called, what it needs and which definitions it uses. -/

namespace Relay

open Json

/-- Where an extension runs. -/
inductive Category where
  | network
  | client
  deriving DecidableEq, Repr, Inhabited

/-- When an extension is loaded. -/
inductive LoadPhase where
  | connect
  | versionCheck
  deriving DecidableEq, Repr, Inhabited

/-- What an extension says of itself. Its name is written in small letters. -/
structure ExtensionInfo where
  name : String
  rawName : String
  path : String
  category : Category
  niceName : Option String
  reloadable : Bool
  phase : LoadPhase
  dependencies : List String
  conflicts : List String
  autoUpdateDisabled : Bool
  disabled : Bool
  supportUrl : Option String
  author : Option String
  version : Option String
  description : Option String
  usage : Usage
  deriving DecidableEq, Repr

/-- The word for a category. -/
def Category.name : Category → String
  | .network => "Network"
  | .client => "Client"

/-- The word for a phase. -/
def LoadPhase.name : LoadPhase → String
  | .connect => "Connect"
  | .versionCheck => "VersionCheck"

/-- Why an extension, or the directory of extensions, cannot be read. -/
inductive InfoError where
  | unreadable (path : String) (cause : Files.ReadError)
  | invalid (path : String) (cause : Fault)
  deriving DecidableEq, Repr

namespace InfoError

/-- The wording of a refusal. -/
def message : InfoError → String
  | .unreadable path _ => s!"failed to read {path}"
  | .invalid path _ => s!"invalid module information in {path}"

/-- What was said of the file or the text that led to a refusal. -/
def detail : InfoError → String
  | .unreadable _ cause => cause.message
  | .invalid _ cause => cause.message

end InfoError

/-- How an extension can be shown and loaded. -/
structure ExtensionOptions where
  niceName : Option String
  reloadable : Bool
  phase : LoadPhase

namespace ExtensionInfo

/-- An extension that says nothing but its name. -/
def ofName (rawName : String) : ExtensionInfo :=
  ⟨Text.toSmall rawName, rawName, "", .network, none, false, .versionCheck, [], [], false, false,
    none, none, none, none, []⟩

/-- The name as it is shown. -/
def printable (info : ExtensionInfo) : String :=
  match info.niceName with
  | none => s!"\"{info.rawName}\""
  | some nice =>
    if nice = info.name then s!"\"{info.rawName}\"" else s!"\"{nice}\" ({info.rawName})"

/-- Whom to ask about an extension. -/
def support (info : ExtensionInfo) (fallback : Option String) : String :=
  (info.supportUrl.or fallback).getD "the module's author"

/-- The categories by their words. -/
def categories : List (String × Category) :=
  [("network", .network), ("client", .client)]

/-- The phases by their words. -/
def phases : List (String × LoadPhase) :=
  [("connect", .connect), ("versionCheck", .versionCheck), ("versioncheck", .versionCheck)]

/-- Read the options of an extension. -/
def optionsReader : Reader ExtensionOptions :=
  Reader.record "struct ModuleOptions"
    [.maybe "niceName" (.optional .text) fun options name => { options with niceName := name },
      .maybe "reloadable" .flag fun options flag => { options with reloadable := flag },
      .maybe "loadOn" (.choice phases) fun options phase => { options with phase := phase }]
    ⟨none, false, .versionCheck⟩

/-- Take options into what is known. -/
def withOptions (info : ExtensionInfo) (options : ExtensionOptions) : ExtensionInfo :=
  { info with
    niceName := options.niceName
    reloadable := options.reloadable
    phase := options.phase }

/-- Read what an extension says of itself. Without a name it is called like its directory. -/
def reader (directory : String) : Reader ExtensionInfo :=
  Reader.record "struct ModuleFile"
    [.maybe "name" (.optional .text) fun info name =>
        let name := name.getD directory
        { info with name := Text.toSmall name, rawName := name },
      .maybe "category" (.choice categories) fun info category =>
        { info with category := category },
      .maybe "options" optionsReader withOptions,
      .maybe "dependencies" (.sorted .quoted .text) fun info dependencies =>
        { info with dependencies := dependencies.map Prod.fst },
      .maybe "conflicts" (.list .text) fun info conflicts => { info with conflicts := conflicts },
      .maybe "disableAutoUpdate" .flag fun info flag => { info with autoUpdateDisabled := flag },
      .maybe "disabled" .flag fun info flag => { info with disabled := flag },
      .maybe "supportUrl" (.optional .text) fun info url => { info with supportUrl := url },
      .maybe "author" (.optional .text) fun info author => { info with author := author },
      .maybe "version" (.optional .text) fun info version => { info with version := version },
      .maybe "description" (.optional .text) fun info text => { info with description := text }]
    (ofName directory)

/-- Read the text of the file in which an extension describes itself. -/
def parse (directory source : String) : Except Fault ExtensionInfo :=
  (reader directory).run source

/-- Read the text of the file in which an extension lists the definitions that it uses. -/
def parseUsage (source : String) : Except Fault Usage :=
  (Reader.record "struct ManifestFile" [.maybe "defs" Usage.reader fun _ usage => usage] []).run
    source

/-- The text of a file that may be missing. -/
def optionalText (tree : Files.Tree) (path : String) : Except InfoError (Option String) :=
  match tree.readText path with
  | .ok source => .ok (some source)
  | .error .notFound => .ok none
  | .error cause => .error (.unreadable path cause)

/-- Read what is known of the extension in a directory. -/
def load (tree : Files.Tree) (root directory : String) : Except InfoError ExtensionInfo := do
  let path := Files.join root directory
  let described := Files.join path "module.json"
  let info ←
    match ← optionalText tree described with
    | none => pure (ofName directory)
    | some source =>
      match parse directory source with
      | .ok info => pure info
      | .error cause => throw (.invalid described cause)
  let used := Files.join path "manifest.json"
  match ← optionalText tree used with
  | none => pure { info with path := path }
  | some source =>
    match parseUsage source with
    | .ok usage => pure { info with path := path, usage := usage }
    | .error cause => throw (.invalid used cause)

/-- The directories of extensions, ascending. Names that begin with a point or an underscore are
left alone. -/
def directories (tree : Files.Tree) (root : String) : Except InfoError (List String) :=
  match tree.list root with
  | .error cause => .error (.unreadable root cause)
  | .ok entries =>
    .ok ((entries.filter fun (name, node) =>
      !name.startsWith "." && !name.startsWith "_" && node.isDirectory).map Prod.fst)

end ExtensionInfo

end Relay
