import Relay.Inspect.Arguments
import Relay.Protocol.Platform
import Relay.Protocol.Version

/-! # Commands

What an operator can ask for on the command line, and what is said about it on request. -/

namespace Relay.Inspect

/-- The store that an operator names, as far as it differs from the settings. -/
structure StoreChoice where
  directory : Option String
  platform : Option Platform
  deriving DecidableEq, Repr

/-- By what the messages of a capture are read. -/
inductive Reader where
  | layout (path : String)
  | store (protocol : UInt32) (version : VersionRequest) (choice : StoreChoice)
  deriving DecidableEq, Repr

/-- How messages are shown. -/
inductive Format where
  | json
  | pretty
  deriving DecidableEq, Repr

/-- What an operator asks for. -/
inductive Command where
  | compile (paths : List String)
  | decode (capture : String) (reader : Reader) (format : Format)
  | extensions (directory : Option String) (choice : StoreChoice)
  deriving DecidableEq, Repr

/-- A command and the settings file to use. -/
structure Invocation where
  settings : Option String
  command : Command
  deriving DecidableEq, Repr

/-- The commands by name. -/
inductive Topic where
  | all
  | compile
  | decode
  | extensions
  | help
  deriving DecidableEq, Repr

/-- Why no command is run: the words are at fault, or they only ask for something to be told. -/
inductive Answer where
  | misuse
  | help (topic : Topic)
  | version
  deriving DecidableEq, Repr

namespace Format

/-- The format with a name. -/
def ofName? (name : String) : Option Format :=
  if name = "json" then some .json
  else if name = "pretty" then some .pretty
  else none

end Format

namespace Topic

/-- The topic of a command. -/
def ofName? (name : String) : Option Topic :=
  match name with
  | "compile" => some .compile
  | "decode" => some .decode
  | "modules" => some .extensions
  | "help" => some .help
  | _ => none

end Topic

namespace Command

/-- Any path but an empty one. -/
def isPath (text : String) : Bool := !text.isEmpty

/-- The number of a protocol. Before a zero there may be a minus sign. -/
def protocolOf? (text : String) : Option UInt32 :=
  match text.toList with
  | '-' :: digits => if Text.isDigits digits && digits.all (· == '0') then some 0 else none
  | characters => (Text.numeral (UInt32.size - 1) characters).toOption.map .ofNat

/-- The version that a text asks for. -/
def versionOf? (text : String) : Option VersionRequest :=
  (VersionRequest.parse text).toOption

/-- The option that every command takes. -/
def common : List (String × (String → Bool)) := [("config", isPath)]

/-- The options that name a store. -/
def storeOptions : List (String × (String → Bool)) :=
  [("data-dir", isPath), ("platform", fun text => (Platform.ofName? text).isSome)]

/-- What stands before the name of a command. -/
def front : Grammar := ⟨common, none, true⟩

/-- What the command to compile takes. -/
def compileGrammar : Grammar := ⟨common, none, false⟩

/-- What the command to decode takes. -/
def decodeGrammar : Grammar :=
  ⟨common ++ storeOptions ++ [("def", isPath), ("protocol", fun text => (protocolOf? text).isSome),
    ("version", fun text => (versionOf? text).isSome),
    ("format", fun text => (Format.ofName? text).isSome)], some 1, false⟩

/-- What the command to look at extensions takes. -/
def extensionsGrammar : Grammar := ⟨common ++ storeOptions, some 1, false⟩

/-- The store that options name. -/
def storeChoice (arguments : Arguments) : StoreChoice :=
  ⟨arguments.option? "data-dir", (arguments.option? "platform").bind Platform.ofName?⟩

/-- The command to compile. It takes at least one file. -/
def compileOf? (arguments : Arguments) : Option Command :=
  if arguments.words.isEmpty then none else some (.compile arguments.words)

/-- The command to decode. It reads either by a layout or from a store. -/
def decodeOf? (arguments : Arguments) : Option Command := do
  let [capture] := arguments.words | none
  let version := ((arguments.option? "version").bind versionOf?).getD .latest
  let format := ((arguments.option? "format").bind Format.ofName?).getD .json
  match arguments.option? "def", (arguments.option? "protocol").bind protocolOf? with
  | some path, none => some (.decode capture (.layout path) format)
  | none, some protocol =>
    some (.decode capture (.store protocol version (storeChoice arguments)) format)
  | _, _ => none

/-- The command to look at extensions. -/
def extensionsOf? (arguments : Arguments) : Option Command :=
  some (.extensions arguments.words.head? (storeChoice arguments))

end Command

namespace Invocation

/-- The answer to words that were not read to their end. -/
def answerTo (topic : Topic) : Halt → Answer
  | .misuse => .misuse
  | .help => .help topic
  | .version => .version

/-- Read the words behind the name of a command. A settings file named there comes first. -/
def readCommand (topic : Topic) (grammar : Grammar) (make : Arguments → Option Command)
    (settings : Option String) (words : List String) : Except Answer Invocation :=
  match Arguments.read grammar .empty words with
  | .error halt => .error (answerTo topic halt)
  | .ok arguments =>
    match make arguments with
    | some command => .ok ⟨(arguments.option? "config").or settings, command⟩
    | none => .error .misuse

/-- What is told about the topics with some names, each of which may only be a command of its
own. -/
def helpOn : List String → Answer
  | [] => .help .all
  | [name] => ((Topic.ofName? name).map Answer.help).getD .misuse
  | _ => .misuse

/-- Read the name of a command and the words behind it. -/
def readNamed (settings : Option String) (name : String) (words : List String) :
    Except Answer Invocation :=
  match Topic.ofName? name with
  | some .compile =>
    readCommand .compile Command.compileGrammar Command.compileOf? settings words
  | some .decode => readCommand .decode Command.decodeGrammar Command.decodeOf? settings words
  | some .extensions =>
    readCommand .extensions Command.extensionsGrammar Command.extensionsOf? settings words
  | some .help => .error (helpOn words)
  | some .all => .error .misuse
  | none => .error .misuse

/-- Read a command line. -/
def parse (words : List String) : Except Answer Invocation :=
  match Arguments.readFront Command.front .empty true words with
  | .error halt => .error (answerTo .all halt)
  | .ok ⟨_, _, []⟩ => .error .misuse
  | .ok ⟨arguments, sound, name :: rest⟩ => do
    let invocation ← readNamed (arguments.option? "config") name rest
    if sound then pure invocation else throw .misuse

end Invocation

namespace Answer

/-- The line about how a command is used. -/
def usage : Topic → String
  | .all => "Usage: tollgate-tools [OPTIONS] <COMMAND>"
  | .compile => "Usage: tollgate-tools compile [OPTIONS] <DEF_FILES>..."
  | .decode => "Usage: tollgate-tools decode [OPTIONS] <CAPTURE>"
  | .extensions => "Usage: tollgate-tools modules [OPTIONS] [DIR]"
  | .help => "Usage: tollgate-tools help [COMMAND]..."

/-- What a command is for. -/
def purpose : Topic → String
  | .all => "tollgate definition, capture and module inspection tools"
  | .compile => "Compile a definition file and print its layout"
  | .decode => "Decode captured messages into structured output"
  | .extensions => "Check which modules in a directory would load"
  | .help => "Print this message or the help of the given subcommand(s)"

/-- The commands or the words that a command takes. -/
def subjects : Topic → List (String × String)
  | .all => [("compile", purpose .compile), ("decode", purpose .decode),
      ("modules", purpose .extensions), ("help", purpose .help)]
  | .compile => [("<DEF_FILES>...", "Paths to `.def` files")]
  | .decode => [("<CAPTURE>", "File holding one or more complete messages")]
  | .extensions => [("[DIR]", "Module directory")]
  | .help => [("[COMMAND]...", "Print help for the subcommand(s)")]

/-- The options of a command, with what they are for. -/
def options : Topic → List (String × String)
  | .all => settings ++ help ++ [("-V, --version", "Print version")]
  | .compile => settings ++ help
  | .decode => settings ++ [
      ("    --def <DEF>", "Decode every message with this definition file"),
      ("    --protocol <PROTOCOL>",
        "Protocol version used to look opcodes up in the registry"),
      ("    --version <VERSION>",
        "Definition version, `latest` or a number [default: latest]")] ++
      store "Registry data directory" ++ [
      ("    --format <FORMAT>",
        "Output format [default: json] [possible values: json, pretty]")] ++ help
  | .extensions =>
    settings ++ store "Registry data directory for checking required definitions" ++ help
  | .help => []
where
  settings := [("    --config <CONFIG>",
    "Engine configuration file. Supplies defaults for data and module directories")]
  store (purpose : String) := [("    --data-dir <DATA_DIR>", purpose),
    ("    --platform <PLATFORM>", "")]
  help := [("-h, --help", "Print help")]

/-- Lines of two columns under a heading. -/
def columns (heading : String) (rows : List (String × String)) : String :=
  let width := (rows.map (·.1.length)).foldl max 0
  let line (row : String × String) : String :=
    "  " ++ row.1 ++ String.ofList (List.replicate (width + 2 - row.1.length) ' ') ++ row.2 ++ "\n"
  if rows.isEmpty then "" else "\n" ++ heading ++ ":\n" ++ String.join (rows.map line)

/-- What is said about a topic on request. -/
def helpText (topic : Topic) : String :=
  purpose topic ++ "\n\n" ++ usage topic ++ "\n" ++
    columns (if topic = .all then "Commands" else "Arguments") (subjects topic) ++
    columns "Options" (options topic)

/-- The version. -/
def versionText : String := "tollgate-tools 0.3.0\n"

/-- What is said to an operator whose words are at fault. -/
def misuseText : String :=
  "error: the arguments are not valid\n\n" ++ usage .all ++
    "\n\nFor more information, try '--help'.\n"

end Answer

end Relay.Inspect
