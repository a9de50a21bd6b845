import Relay.Files.Path
import Relay.Stream.Endian

/-! # Trees of files

A picture of the files that a run may look at, from the top of everything, and where in it the run
takes place. Reading never changes it. -/

namespace Relay.Files

/-- A file with its bytes, or a directory with its entries. -/
inductive Node where
  | file (bytes : Bytes)
  | directory (entries : List (String × Node))
  deriving Inhabited

namespace Node

/-- The directory without entries. -/
def empty : Node := .directory []

/-- The entry of a directory. -/
def child? (node : Node) (name : String) : Option Node :=
  match node with
  | .file _ => none
  | .directory entries => entries.lookup name

/-- Whether something is a directory. -/
def isDirectory : Node → Bool
  | .directory _ => true
  | .file _ => false

/-- Put an entry into a directory. A file becomes a directory. -/
def put (node : Node) (name : String) (entry : Node) : Node :=
  match node with
  | .file _ => .directory [(name, entry)]
  | .directory entries =>
    .directory (entries.filter (fun (other, _) => other != name) ++ [(name, entry)])

/-- Replace what lies at the end of some steps; what is missing on the way is made. Without a
replacement the last entry goes away. -/
def replaceAt (node : Node) : List String → Option Node → Node
  | [], replacement => replacement.getD node
  | [name], none =>
    match node with
    | .file bytes => .file bytes
    | .directory entries => .directory (entries.filter fun (other, _) => other != name)
  | name :: rest, replacement =>
    node.put name (((node.child? name).getD .empty).replaceAt rest replacement)

/-- The steps that a path goes down. -/
def stepsDown (path : String) : List String :=
  (steps path).filter fun step => !isIdle step

/-- Write a file. -/
def write (node : Node) (path : String) (bytes : Bytes) : Node :=
  node.replaceAt (stepsDown path) (some (.file bytes))

/-- Take a file or a whole directory away. -/
def remove (node : Node) (path : String) : Node :=
  node.replaceAt (stepsDown path) none

/-- Make a directory, unless it is there. -/
def makeDirectory (node : Node) (path : String) : Node :=
  let old := (stepsDown path).foldl (fun node step => node.bind (·.child? step)) (some node)
  if old.any isDirectory then node else node.replaceAt (stepsDown path) (some empty)

end Node

/-- Why something cannot be read. -/
inductive ReadError where
  | notFound
  | notDirectory
  | isDirectory
  | nameTooLong
  | invalidName
  | invalidText
  deriving DecidableEq, Repr

/-- The wording of a refusal. -/
def ReadError.message : ReadError → String
  | .notFound => "No such file or directory (os error 2)"
  | .notDirectory => "Not a directory (os error 20)"
  | .isDirectory => "Is a directory (os error 21)"
  | .nameTooLong => "File name too long (os error 36)"
  | .invalidName => "file name contained an unexpected NUL byte"
  | .invalidText => "stream did not contain valid UTF-8"

/-- The files that a run may look at, and the steps from the top to where paths start. -/
structure Tree where
  top : Node
  here : List String
  deriving Inhabited

namespace Tree

/-- Follow steps from a node, whose ancestors are kept with the nearest first. Nothing lies above
the top. -/
def follow (node : Node) (above : List Node) : List String → Except ReadError Node
  | [] => .ok node
  | step :: rest =>
    match node with
    | .file _ => .error .notDirectory
    | .directory entries =>
      if isIdle step then follow node above rest
      else if step = ".." then
        match above with
        | [] => follow node [] rest
        | parent :: others => follow parent others rest
      else if longestName < step.utf8ByteSize then .error .nameTooLong
      else
        match entries.lookup step with
        | none => .error .notFound
        | some next => follow next (node :: above) rest

/-- The steps behind those in `done`, in reverse, without steps that stay in place and steps that
are taken back. -/
def settle (done : List String) : List String → List String
  | [] => done.reverse
  | step :: rest =>
    if isIdle step then settle done rest
    else if step = ".." then settle done.tail rest
    else settle (step :: done) rest

/-- The steps from the top to a path. -/
def stepsTo (tree : Tree) (path : String) : List String :=
  settle [] (if isAbsolute path then steps path else tree.here ++ steps path)

/-- Put something at a path. -/
def add (tree : Tree) (path : String) (node : Node) : Tree :=
  { tree with top := tree.top.replaceAt (tree.stepsTo path) (some node) }

/-- Put a directory at a path, unless there is something. -/
def addDirectory (tree : Tree) (path : String) : Tree :=
  let old := (tree.stepsTo path).foldl (fun node step => node.bind (·.child? step)) (some tree.top)
  if old.isSome then tree else tree.add path .empty

/-- What lies at a path. -/
def find (tree : Tree) (path : String) : Except ReadError Node :=
  if path.isEmpty then .error .notFound
  else if path.toList.any (·.toNat == 0) then .error .invalidName
  else if longestPath < path.utf8ByteSize then .error .nameTooLong
  else follow tree.top [] (if isAbsolute path then steps path else tree.here ++ steps path)

/-- The bytes of a file. -/
def readBytes (tree : Tree) (path : String) : Except ReadError Bytes := do
  match ← tree.find path with
  | .file bytes => pure bytes
  | .directory _ => throw .isDirectory

/-- The text of a file. -/
def readText (tree : Tree) (path : String) : Except ReadError String := do
  match String.fromUTF8? ⟨← tree.readBytes path⟩ with
  | some text => pure text
  | none => throw .invalidText

/-- The entries of a directory, by name. -/
def list (tree : Tree) (path : String) : Except ReadError (List (String × Node)) := do
  match ← tree.find path with
  | .file _ => throw .notDirectory
  | .directory entries =>
    pure (entries.mergeSort fun (name, _) (other, _) => decide (name ≤ other))

/-- Whether there is a directory at a path. -/
def isDirectory (tree : Tree) (path : String) : Bool :=
  match tree.find path with
  | .ok node => node.isDirectory
  | .error _ => false

/-- Whether there is a file at a path. -/
def isFile (tree : Tree) (path : String) : Bool :=
  match tree.find path with
  | .ok node => !node.isDirectory
  | .error _ => false

end Tree

end Relay.Files
