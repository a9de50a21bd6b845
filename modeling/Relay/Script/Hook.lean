import Relay.Exchange.Hook
import Relay.Failure

/-! # Scripted hooks

A script is a list of actions, each a JSON array of a word and its arguments. Hooks that follow
scripts need no code of their own. Everything that they see and learn is noted in a trace; an action
that makes no sense is left out. -/

namespace Relay.Script

open Exchange

/-- What scripts share: the trace, the counters of extensions, how often hooks were called, and how
often what extensions show was visited. -/
structure World where
  trace : Array Json
  counters : List (String × Int64)
  calls : List (Nat × Nat)
  visits : Array (String × Nat)

namespace World

/-- Nothing has happened. -/
def empty : World := ⟨#[], [], [], #[]⟩

/-- Note what happens. -/
def note (members : Members) (world : World) : World :=
  { world with trace := world.trace.push (.object members) }

/-- The counter of an extension. -/
def count (name : String) (world : World) : Int64 :=
  (world.counters.lookup name).getD 0

/-- Set the counter of an extension. -/
def setCount (name : String) (n : Int64) (world : World) : World :=
  { world with counters := (name, n) :: world.counters.filter (·.1 != name) }

/-- How often a hook was called so far. -/
def callsOf (handle : Nat) (world : World) : Nat :=
  (world.calls.lookup handle).getD 0

/-- A hook is called. -/
def call (handle : Nat) (world : World) : World :=
  { world with calls :=
      (handle, world.callsOf handle + 1) :: world.calls.filter (·.1 != handle) }

/-- What an extension shows is visited. -/
def visit (number : Nat) (world : World) : World :=
  { world with visits := world.visits.modify number fun (name, n) => (name, n + 1) }

end World

/-- The failure that a text and perhaps what it was about describe. -/
def failureOf : List String → Failure
  | [text, context] => .failed [context, text]
  | texts => .failed texts

/-- What a hook works on: bytes, or an object and whether it was edited. -/
inductive Sight where
  | raw (bytes : Bytes)
  | parsed (object : Object) (edited : Bool)

/-- What an action comes to: the message that it asks for, the data that it leaves, or both what it
learns and the data that it leaves. -/
inductive Step where
  | ending (result : Ending Sight)
  | request (message : WriteRequest)
  | send (name : String) (version : VersionRequest) (object : Object)
  | unhook (handle : Nat)
  | bump
  | become (sight : Sight)
  | learn (result : Json) (sight : Sight)

/-- The texts among some arguments. -/
def textsOf (arguments : List Json) : List String :=
  arguments.filterMap text?

/-- The meaning of an action that every hook can take. -/
def commonStep? (handle : Nat) (sight : Sight) (name : String) (arguments : List Json) :
    Option Step :=
  let verdict (verdict : Verdict) : Step := .ending (.ok (verdict, sight))
  match name with
  | "pass" => some (verdict .pass)
  | "accept" => some (verdict .accept)
  | "silence" => some (verdict .silence)
  | "keep" => on1 arguments fun keep => some (verdict (.ofKeep keep))
  | "fail" => some (.ending (.error (failureOf (textsOf arguments))))
  | "panic" => on1 arguments fun text => some (.ending (.error (.panicked text)))
  | "write" => on4 arguments fun direction name version object =>
      some (.request (.message direction name version object))
  | "write_raw" => on2 arguments fun direction bytes => some (.request (.raw direction bytes))
  | "send" => on3 arguments fun name version object => some (.send name version object)
  | "unhook" => on1 arguments fun handle => some (.unhook handle)
  | "unhook_self" => some (.unhook handle)
  | "bump" => some .bump
  | _ => none

/-- The meaning of an action on bytes. -/
def rawStep? (bytes : Bytes) (name : String) (arguments : List Json) : Option Step :=
  match name with
  | "set" => on2 arguments fun n x => some (.become (.raw (bytes.setIfInBounds n x)))
  | "push" => on1 arguments fun more => some (.become (.raw (bytes ++ more)))
  | "truncate" => on1 arguments fun n => some (.become (.raw (bytes.take n)))
  | "replace" => on1 arguments fun bytes => some (.become (.raw bytes))
  | _ => none

/-- The meaning of an action on an object. -/
def parsedStep? (object : Object) (edited : Bool) (name : String) (arguments : List Json) :
    Option Step :=
  match name with
  | "insert" => on2 arguments fun key value =>
      some (.learn (toJson (object.get? key)) (.parsed (object.insert key value) true))
  | "remove" => on1 arguments fun key =>
      some (.learn (toJson (object.get? key)) (.parsed (object.erase key) true))
  | "get" => on1 arguments fun key =>
      some (.learn (toJson (object.get? key)) (.parsed object edited))
  | "touch" => some (.become (.parsed object true))
  | "edited" => some (.learn (toJson edited) (.parsed object edited))
  | "reply" => on3 arguments fun direction name version =>
      some (.request (.message direction name version object))
  | _ => none

/-- The meaning of an action. -/
def step? (handle : Nat) (sight : Sight) (name : String) (arguments : List Json) : Option Step :=
  match commonStep? handle sight name arguments, sight with
  | some step, _ => some step
  | none, .raw bytes => rawStep? bytes name arguments
  | none, .parsed object edited => parsedStep? object edited name arguments

/-- Note what an action has come to. -/
def noteAct (name : String) (result : Json) : Program World Unit :=
  .modify (World.note [("act", .string name), ("ok", result)])

/-- Perform the actions of a hook. At their end the message may pass. -/
def perform (view : HookView) (sight : Sight) : List Json → Program World (Ending Sight)
  | [] => pure (.ok (.pass, sight))
  | .array (.string name :: arguments) :: rest =>
    match step? view.handle sight name arguments with
    | none => perform view sight rest
    | some (.ending result) => pure result
    | some (.request message) => do
      noteAct name (.bool (← .request message))
      perform view sight rest
    | some (.send message version object) => do
      noteAct name (.bool (← .send view message version object))
      perform view sight rest
    | some (.unhook handle) => .unhook handle (perform view sight rest)
    | some .bump => do
      let owner := view.owner.getD ""
      Program.modify fun world => world.setCount owner (world.count owner + 1)
      perform view sight rest
    | some (.become sight) => perform view sight rest
    | some (.learn result sight) => do
      noteAct name result
      perform view sight rest
  | _ :: rest => perform view sight rest

/-- Follow the script for this call: the first for the first call and so on, and the last for all
further ones. -/
def follow (label : String) (scripts : List Json) (view : HookView) (seen : Members)
    (sight : Sight) : Program World (Ending Sight) := do
  let n := (← Program.get).callsOf view.handle
  Program.modify fun world => (world.call view.handle).note
    ([("hook", toJson label), ("id", .string s!"#{view.handle}"), ("module", toJson view.owner),
      ("protocol", toJson view.protocol), ("flags", toJson view.flags)] ++ seen)
  perform view sight ((items? (scripts.getD n (scripts.getLastD .null))).getD [])

/-- The callback on bytes that follows scripts. -/
def rawCallback (label : String) (scripts : List Json) : Callback World :=
  .raw fun view code bytes => do
    let seen := [("opcode", toJson code), ("data", toJson bytes)]
    match ← follow label scripts view seen (.raw bytes) with
    | .ok (verdict, .raw bytes) => pure (.ok (verdict, bytes))
    | .ok (verdict, .parsed ..) => pure (.ok (verdict, bytes))
    | .error failure => pure (.error failure)

/-- The callback on objects that follows scripts. -/
def parsedCallback (label : String) (scripts : List Json) (version : VersionRequest) :
    Callback World :=
  .parsed version fun view event => do
    let seen := [("name", toJson event.name), ("version", toJson event.version),
      ("data", toJson event.data)]
    match ← follow label scripts view seen (.parsed event.data false) with
    | .ok (verdict, .parsed object _) => pure (.ok (verdict, object))
    | .ok (verdict, .raw _) => pure (.ok (verdict, event.data))
    | .error failure => pure (.error failure)

/-- A hook that follows scripts, before it is registered. -/
structure HookPlan where
  owner : Option String
  target : String
  callback : Callback World
  options : HookOptions

/-- A plan, or why the text for the version of its messages means none. -/
instance : OfJson (Except Text.NumeralError HookPlan) := ⟨fun data => do
  let label ← get? data "label"
  let target ← get? data "target"
  let options ← ofJson? data
  let scripts := (get? data "scripts").getD [(data.get? "script").getD .null]
  let callback : Except Text.NumeralError (Callback World) ←
    match ← member? data "kind" with
    | .string "raw" => some (.ok (rawCallback label scripts))
    | kind => do
      let version : AskedVersion ← ofJson? kind
      pure (version.map (parsedCallback label scripts))
  pure (callback.map fun callback => ⟨get? data "module", target, callback, options⟩)⟩

instance : OfJson HookPlan := ⟨fun data => do
  (← (ofJson? data : Option (Except Text.NumeralError HookPlan))).toOption⟩

end Relay.Script
