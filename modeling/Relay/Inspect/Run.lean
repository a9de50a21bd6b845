import Relay.Inspect.Command
import Relay.Inspect.Definition
import Relay.Inspect.Extensions
import Relay.Inspect.Message
import Relay.Settings

/-! # Running commands

What a command prints and how it ends, for the files that there are. What is printed before a
complaint stays printed. -/

namespace Relay.Inspect

/-- How a command ended: a number for success or failure, what it printed, and what it complained
about. -/
structure Result where
  status : Nat
  output : String
  complaint : String
  deriving DecidableEq, Repr

namespace Result

/-- Everything went well. -/
def success (output : String) : Result := ⟨0, output, ""⟩

/-- Something could not be done after some output. -/
def failure (output : String) (complaint : Complaint) : Result := ⟨1, output, complaint.text⟩

/-- The result of something that prints a text if it can be done. -/
def ofExcept : Except Complaint String → Result
  | .ok output => success output
  | .error complaint => failure "" complaint

/-- The result of words that name no command. -/
def ofAnswer : Answer → Result
  | .misuse => ⟨2, "", Answer.misuseText⟩
  | .help topic => success (Answer.helpText topic)
  | .version => success Answer.versionText

end Result

namespace Command

/-- Report on definition files one after the other, up to the first that cannot be read. -/
def compileFiles (tree : Files.Tree) (output : String) (clean : Bool) : List String → Result
  | [] =>
    if clean then .success output
    else .failure output (.of "some definitions did not compile cleanly" [])
  | path :: rest =>
    match DefinitionReport.load tree path with
    | .error complaint => .failure output complaint
    | .ok (report, _) => compileFiles tree (output ++ report.text) (clean && report.isClean) rest

/-- The store that an operator names. -/
def storeOf (settings : Settings) (tree : Files.Tree) (choice : StoreChoice) :
    Except Complaint Store :=
  let directory := choice.directory.getD settings.protocolDirectory
  (Store.load tree directory (choice.platform.getD settings.platform)).1.mapError fun error =>
    .of s!"load registry from {directory}" (error.message :: error.causes) error.detail?

/-- How frames are read. -/
def readerOf (settings : Settings) (tree : Files.Tree) :
    Reader → Except Complaint (Bytes → Except Complaint Message)
  | .layout path => do
    let (report, _) ← DefinitionReport.load tree path
    pure fun frame => (Message.readBy report.layout frame).1
  | .store protocol version choice => do
    let store ← storeOf settings tree choice
    pure fun frame => (Message.readFrom store protocol version frame).1

/-- The frames of a capture file. -/
def captureOf (settings : Settings) (tree : Files.Tree) (path : String) :
    Except Complaint (List Bytes) :=
  match tree.readBytes path with
  | .error cause => .error (.of s!"read capture {path}" [] cause.message)
  | .ok capture => framesOf capture settings.limits.frames

/-- Show messages. -/
def shown (messages : List Message) : Format → String
  | .json => Message.jsonText messages ++ "\n"
  | .pretty => String.join (messages.map Message.text)

/-- Show the messages of a capture. -/
def decodeCapture (settings : Settings) (tree : Files.Tree) (capture : String) (reader : Reader)
    (format : Format) : Except Complaint String := do
  let frames ← captureOf settings tree capture
  let read ← readerOf settings tree reader
  pure (shown (← frames.mapM read) format)

/-- Report on the extensions below a directory. A store is only asked if one is named. -/
def reportExtensions (settings : Settings) (tree : Files.Tree) (configured : Bool)
    (directory : Option String) (choice : StoreChoice) : Except Complaint String := do
  let place := directory.getD settings.extensionDirectory
  let store ←
    if choice.directory.isSome || configured then
      (storeOf settings tree choice).map some
    else pure none
  match Discovery.run tree place store settings.supportUrl with
  | .ok (discovery, _) => pure discovery.text
  | .error error => throw (.of s!"scan modules in {place}" error.messages)

end Command

namespace Invocation

/-- The settings to use. -/
def settingsOf (invocation : Invocation) (tree : Files.Tree) : Except Complaint Settings :=
  match invocation.settings with
  | none => .ok .standard
  | some path =>
    (Settings.load tree path).mapError fun error =>
      .of s!"load config {path}" [error.message] error.detail?

/-- Run a command. -/
def run (invocation : Invocation) (tree : Files.Tree) : Result :=
  match invocation.settingsOf tree with
  | .error complaint => .failure "" complaint
  | .ok settings =>
    match invocation.command with
    | .compile paths => Command.compileFiles tree "" true paths
    | .decode capture reader format =>
      .ofExcept (Command.decodeCapture settings tree capture reader format)
    | .extensions directory choice =>
      .ofExcept
        (Command.reportExtensions settings tree invocation.settings.isSome directory choice)

/-- What of a store is looked at: two directories of tables, one of definitions and the manifest. -/
def storePlaces (settings : Settings) (choice : StoreChoice) : List (String × Nat) :=
  let directory := choice.directory.getD settings.protocolDirectory
  [("map", 2), ("map_base", 2), ("protocol", 2), ("manifest.json", 1)].map fun (name, levels) =>
    (Files.join directory name, levels)

/-- What a command looks at: paths, and how many levels of files and directories from there on. The
settings file comes last. -/
def places (invocation : Invocation) (settings : Settings) : List (String × Nat) :=
  let own :=
    match invocation.command with
    | .compile paths => paths.map (·, 1)
    | .decode capture (.layout path) _ => [(capture, 1), (path, 1)]
    | .decode capture (.store _ _ choice) _ => (capture, 1) :: storePlaces settings choice
    | .extensions directory choice =>
      (directory.getD settings.extensionDirectory, 3) :: storePlaces settings choice
  own ++ (invocation.settings.map (·, 1)).toList

end Invocation

/-- Run a command line. -/
def run (words : List String) (tree : Files.Tree) : Result :=
  match Invocation.parse words with
  | .error answer => .ofAnswer answer
  | .ok invocation => invocation.run tree

end Relay.Inspect
