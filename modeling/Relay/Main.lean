import Relay.Inspect.Run

/-! # The command line

Takes a picture of the files that a command looks at, runs the command on it and prints what it
says. -/

namespace Relay.Main

open Files Inspect

/-- The names in a directory, none for what is no directory. -/
def namesIn (path : String) : IO (Option (List String)) := do
  try
    let entries ← (← IO.FS.realPath path).readDir
    pure (some (entries.toList.map (·.fileName)))
  catch _ => pure none

/-- A file, none for what cannot be read. -/
def fileAt (path : String) : IO (Option Node) := do
  try
    pure (some (.file (← IO.FS.readBinFile path).data))
  catch _ => pure none

/-- What lies at a path, so many levels deep. -/
def nodeAt : Nat → String → IO (Option Node)
  | 0, _ => pure none
  | levels + 1, path => do
    match ← namesIn path with
    | none => fileAt path
    | some names =>
      let entries ← names.filterMapM fun name => do
        pure ((← nodeAt levels (join path name)).map (name, ·))
      pure (some (.directory entries))

/-- Put what lies at a path into a picture, with the directories on the way. -/
def look (tree : Tree) (place : String × Nat) : IO Tree := do
  let (path, levels) := place
  let mut tree := tree
  for above in ancestors path do
    if (← namesIn above).isSome then tree := tree.addDirectory above
  match ← nodeAt levels path with
  | none => pure tree
  | some node => pure (tree.add path node)

/-- A picture of the files that a command looks at. The settings say where they lie. -/
def pictureFor (invocation : Invocation) (start : Tree) : IO Tree := do
  let configured ← (invocation.settings.map (·, 1)).toList.foldlM look start
  match invocation.settingsOf configured with
  | .error _ => pure configured
  | .ok settings => (invocation.places settings).foldlM look start

end Relay.Main

/-- Run the command that the words name. -/
def main (words : List String) : IO UInt32 := do
  let here := toString (← IO.currentDir)
  let start : Relay.Files.Tree := ⟨.empty, (Relay.Files.steps here).filter (!·.isEmpty)⟩
  let start := start.addDirectory here
  let tree ←
    match Relay.Inspect.Invocation.parse words with
    | .error _ => pure start
    | .ok invocation => Relay.Main.pictureFor invocation start
  let result := Relay.Inspect.run words tree
  IO.print result.output
  IO.eprint result.complaint
  pure (.ofNat result.status)
