/-! # Words of a command line

A command line is a list of words. Two dashes in front make an option, which takes a value: in the
same word behind an equals sign, or in the next word unless that looks like an option itself. The
word of two dashes ends the options. Words are looked at in order, and the first that is at fault,
or that asks for something at once, decides. -/

namespace Relay.Inspect

/-- Why words are not read to their end: they are at fault, or ask for help or for the version. -/
inductive Halt where
  | misuse
  | help
  | version
  deriving DecidableEq, Repr

/-- What a command takes: its options with what their values must be, how many other words if that
is limited, and whether it can tell its version. -/
structure Grammar where
  options : List (String × (String → Bool))
  words : Option Nat
  tellsVersion : Bool

/-- The words that were read. -/
structure Arguments where
  options : List (String × String)
  words : List String
  deriving DecidableEq, Repr

namespace Arguments

/-- No words. -/
def empty : Arguments := ⟨[], []⟩

/-- The value of an option. -/
def option? (arguments : Arguments) (name : String) : Option String :=
  arguments.options.lookup name

/-- Take in an option with its value. No option is given twice. -/
def takeOption (grammar : Grammar) (arguments : Arguments) (name value : String) :
    Except Halt Arguments :=
  match grammar.options.lookup name with
  | none => .error .misuse
  | some admits =>
    if (arguments.option? name).isSome || !admits value then .error .misuse
    else .ok { arguments with options := arguments.options ++ [(name, value)] }

/-- Take in a word that belongs to no option. -/
def takeWord (grammar : Grammar) (arguments : Arguments) (word : String) :
    Except Halt Arguments :=
  if grammar.words.all (arguments.words.length < ·) && !word.isEmpty then
    .ok { arguments with words := arguments.words ++ [word] }
  else .error .misuse

/-- Whether a word looks like an option. A single dash does not. -/
def isOption (word : String) : Bool :=
  word.startsWith "-" && word != "-"

/-- The name of an option and the value in the same word. -/
def splitOption (word : String) : String × Option String :=
  let text := (word.drop 2).toString
  let name := text.toList.takeWhile (· != '=')
  match text.toList.dropWhile (· != '=') with
  | [] => (text, none)
  | _ :: value => (String.ofList name, some (String.ofList value))

/-- What a word of short options asks for. -/
def shortHalt (grammar : Grammar) (word : String) : Halt :=
  match word.toList[1]? with
  | some 'h' => .help
  | some 'V' => if grammar.tellsVersion then .version else .misuse
  | _ => .misuse

/-- What an option without a value asks for. -/
def longHalt? (grammar : Grammar) (name : String) : Option Halt :=
  if name = "help" then some .help
  else if name = "version" ∧ grammar.tellsVersion then some .version
  else none

/-- How a word is to be read. -/
inductive Reading where
  | ends
  | halts (halt : Halt)
  | option (name value : String)
  | needsValue (name : String)
  | word

/-- How the next word is to be read. -/
def readingOf (grammar : Grammar) (word : String) : Reading :=
  if word = "--" then .ends
  else if word.startsWith "--" then
    let (name, value) := splitOption word
    match longHalt? grammar name, value with
    | some halt, none => .halts halt
    | some _, some _ => .halts .misuse
    | none, some value => .option name value
    | none, none =>
      if (grammar.options.lookup name).isSome then .needsValue name else .halts .misuse
  else if isOption word then .halts (shortHalt grammar word)
  else .word

/-- Take in words that belong to no options. -/
def takeWords (grammar : Grammar) (arguments : Arguments) (words : List String) :
    Except Halt Arguments :=
  words.foldlM (takeWord grammar) arguments

/-- Read the words of a command behind those that were read before. -/
def read (grammar : Grammar) (arguments : Arguments) : List String → Except Halt Arguments
  | [] => .ok arguments
  | word :: rest =>
    match readingOf grammar word with
    | .ends => takeWords grammar arguments rest
    | .halts halt => .error halt
    | .option name value => do read grammar (← takeOption grammar arguments name value) rest
    | .word => do read grammar (← takeWord grammar arguments word) rest
    | .needsValue name =>
      match rest with
      | value :: rest =>
        if isOption value then .error .misuse
        else do read grammar (← takeOption grammar arguments name value) rest
      | [] => .error .misuse

/-- The words up to the name of a command: the options, whether the last of them is in order, and
the words from the name on. -/
structure Front where
  arguments : Arguments
  sound : Bool
  rest : List String
  deriving DecidableEq, Repr

/-- Read words up to the first that belongs to no option. It and what follows it are left. An option
whose value stands in the next word is not looked at before the next option is, so that it does not
keep a command from telling about itself. -/
def readFront (grammar : Grammar) (arguments : Arguments) (sound : Bool) :
    List String → Except Halt Front
  | [] => .ok ⟨arguments, sound, []⟩
  | word :: rest =>
    match readingOf grammar word, sound with
    | .word, _ => .ok ⟨arguments, sound, word :: rest⟩
    | _, false => .error .misuse
    | .ends, true => .error .misuse
    | .halts halt, true => .error halt
    | .option name value, true => do
      readFront grammar (← takeOption grammar arguments name value) true rest
    | .needsValue name, true =>
      match rest with
      | value :: rest =>
        if isOption value then .error .misuse
        else
          match takeOption grammar arguments name value with
          | .ok arguments => readFront grammar arguments true rest
          | .error _ => readFront grammar arguments false rest
      | [] => .error .misuse

end Arguments

end Relay.Inspect
