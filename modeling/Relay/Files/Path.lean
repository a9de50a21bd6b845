import Relay.Text.Lines

/-! # Paths

A path is a text of names with slashes between them. Joining keeps the texts as they are, so that a
path is shown as it was given. -/

namespace Relay.Files

/-- Whether a path starts at the top of everything. -/
def isAbsolute (path : String) : Bool :=
  path.toList.head? == some '/'

/-- The path of something inside a directory. An absolute path stands for itself. -/
def join (base path : String) : String :=
  if isAbsolute path then path
  else if base.isEmpty || base.toList.getLast? == some '/' then base ++ path
  else base ++ "/" ++ path

/-- The steps of a path from where it starts. An empty step stays where it is, like a point. -/
def steps (path : String) : List String :=
  (Text.splitAll '/' path.toList).map String.ofList

/-- Whether a step in the middle of a path or at its end names nothing. -/
def isIdle (step : String) : Bool :=
  step.isEmpty || step == "."

/-- Drop slashes and points at the end, written in reverse. A point that is all there is stays. -/
def dropIdleEnd : List Char → List Char
  | '/' :: rest => dropIdleEnd rest
  | '.' :: '/' :: rest => dropIdleEnd ('/' :: rest)
  | text => text

/-- The path without its last step, `none` for a path without steps. -/
def parent? (path : String) : Option String :=
  match dropIdleEnd path.toList.reverse with
  | [] => none
  | reversed =>
    match reversed.dropWhile (· != '/') with
    | [] => some ""
    | slash =>
      match dropIdleEnd slash with
      | [] => some "/"
      | kept => some (String.ofList kept.reverse)

/-- The largest number of bytes in a name. -/
def longestName : Nat := 255

/-- The largest number of bytes in a path. -/
def longestPath : Nat := 4095

/-- The paths on the way to a path, itself left out. -/
def ancestors (path : String) : List String :=
  let parts := steps path
  (List.range parts.length).tail.map fun n =>
    let front := "/".intercalate (parts.take n)
    if front.isEmpty then "/" else front

end Relay.Files
