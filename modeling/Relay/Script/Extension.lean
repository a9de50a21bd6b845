import Relay.Exchange.Extension
import Relay.Exchange.Refusal
import Relay.Extension.Host
import Relay.Script.Hook

/-! # Scripted extensions

The callbacks of an extension can follow scripts, as hooks can. What an action comes to is noted in
the trace; where a question mark follows its word, a refusal ends the callback. -/

namespace Relay.Script

open Exchange

/-- Note what happens, and go on. -/
def noted (members : Members) (next : Routine World) : Routine World :=
  .world (World.note members) fun _ => next

/-- An action as it stands in a script, and what follows it. -/
structure Act where
  word : String
  next : Routine World

namespace Act

/-- The word without the question mark. -/
def name (act : Act) : String :=
  if act.word.endsWith "?" then (act.word.dropEnd 1).toString else act.word

/-- Note what the action has come to, and go on. -/
def told [ToJson α] (act : Act) (result : α) : Routine World :=
  noted [("act", .string act.name), ("ok", toJson result)] act.next

/-- Note what the action has come to. A refusal may end the callback. -/
def answered [ToJson α] (act : Act) (result : Except HostError α) : Routine World :=
  noted (("act", .string act.name) :: outcome result) <|
    match result with
    | .ok _ => act.next
    | .error error => if act.word.endsWith "?" then .done (.error error.toFailure) else act.next

/-- Register a hook. -/
def hook (act : Act) (plan : HookPlan) (once : Bool) : Routine World :=
  .hook plan.target plan.callback { plan.options with once := plan.options.once || once }
    fun result => act.answered (result.mapError .pipeline)

/-- Write a message. -/
def write (act : Act) (direction : Direction) (name : String) (version : VersionRequest)
    (object : Object) : Routine World :=
  .write direction name version object fun result => act.answered (result.mapError .pipeline)

/-- Set a timer. -/
def timer (act : Act) (delay : Nat) (repeats : Bool) (callback : Routine World) : Routine World :=
  .setTimer delay repeats
    (.scene fun scene => noted [("timer", .string act.name), ("module", toJson scene.name),
      ("now", toJson scene.now)] callback)
    fun id => act.told s!"timer#{id}"

/-- Visit what another extension shows. -/
def visit (act : Act) (name : String) : Routine World :=
  .require name fun
    | none => act.told ()
    | some number => .world (World.visit number) fun world => act.told world.visits[number]?

/-- Tell where the extension runs. -/
def describe (act : Act) : Routine World :=
  .scene fun scene => act.told (Json.object [("name", toJson scene.name),
    ("protocol", toJson scene.protocol), ("platform", toJson scene.store.platform.name),
    ("now", toJson scene.now), ("messages", toJson scene.store.names)])

/-- The meaning of an action, where `follow` is the meaning of the script of a timer. -/
def routine? (follow : List Json → Routine World) (act : Act) (arguments : List Json) :
    Option (Routine World) :=
  let texts := textsOf arguments
  match act.name with
  | "hook" => on1 arguments fun plan => some (act.hook plan false)
  | "hook_once" => on1 arguments fun plan => some (act.hook plan true)
  | "try_hook" => on1 arguments fun (plan : HookPlan) =>
      some (.tryHook plan.target plan.callback plan.options act.told)
  | "unhook" => on1 arguments fun handle => some (.unhook handle act.told)
  | "timeout" => on2 arguments fun delay script => some (act.timer delay false (follow script))
  | "interval" => on2 arguments fun period script => some (act.timer period true (follow script))
  | "clear_timer" => on1 arguments fun id => some (.clearTimer id act.told)
  | "clear_all" => some (.clearTimers act.told)
  | "timers" => some (.timers act.told)
  | "send" => on3 arguments fun name version object =>
      some (.send name version object act.answered)
  | "try_send" => on3 arguments fun name version object =>
      some (.send name version object fun result => act.told (result.toOption.getD false))
  | "to_client" => on3 arguments fun name version object =>
      some (act.write .toClient name version object)
  | "to_server" => on3 arguments fun name version object =>
      some (act.write .toServer name version object)
  | "is_loaded" => on1 arguments fun name => some (.isLoaded name act.told)
  | "require" => on1 arguments fun name => some (act.visit name)
  | "require_other" => some (act.told false)
  | "info" => some act.describe
  | "log" => on1 arguments fun text => some (.tell (.info text) act.next)
  | "warn" => on1 arguments fun text => some (.tell (.warning text) act.next)
  | "error" => on1 arguments fun text => some (.tell (.failure text) act.next)
  | "fail" => some (.done (.error (failureOf texts)))
  | "panic" => some (.done (.error (.panicked (texts.headD ""))))
  | _ => none

end Act

/-- The actions of an extension, where `follow` is the meaning of the scripts of timers. -/
def routineWith (follow : List Json → Routine World) : List Json → Routine World
  | [] => .pass
  | .array (.string word :: arguments) :: rest =>
    let next := routineWith follow rest
    (Act.routine? follow ⟨word, next⟩ arguments).getD next
  | _ :: rest => routineWith follow rest

/-- The actions of an extension, where scripts of timers lie at most so many levels deep. -/
def routineWithin : Nat → List Json → Routine World
  | 0 => fun _ => .pass
  | depth + 1 => routineWith (routineWithin depth)

/-- The state that an extension saves. -/
def savedState (name : String) (script : List Json) (world : World) :
    Except Failure (Option Json) :=
  match script with
  | [.string "count"] => .ok (some (.object [("count", .integer (world.count name).toInt)]))
  | [.string "value", payload] => .ok (some payload)
  | .string "fail" :: texts => .error (failureOf (textsOf texts))
  | [.string "panic"] => .error (.panicked "save panicked")
  | _ => .ok none

/-- The counter that a saved state holds, if it is a whole number of 64 bits. -/
def savedCount? (payload : Json) : Option Int64 :=
  match payload.get? "count" with
  | some (.integer n) =>
    if Int64.minValue.toInt ≤ n ∧ n ≤ Int64.maxValue.toInt then some (.ofInt n) else none
  | _ => none

/-- An extension of which only the loading is noted. -/
def bareExtension (name : String) : Extension World :=
  ⟨noted [("load", .string name)] .pass, .pass, 1, fun world => (world, .ok none), fun _ => .pass,
    none⟩

/-- An extension that follows scripts. -/
def extensionWith (name : String) (data : Json) (exposure : Option Nat) : Extension World :=
  let routine (key : String) : Routine World := routineWithin Json.deepest (itemsOf data key)
  { load := .world (World.setCount name 0) fun _ =>
      noted [("load", .string name)] (routine "load")
    unload := noted [("unload", .string name)] (routine "unload")
    stateFormat := (get? data "format").getD 1
    saveState := fun world =>
      (world.note [("save", .string name)], savedState name (itemsOf data "save") world)
    restore := fun payload =>
      noted [("restore", .string name), ("payload", payload)] <|
        .world (fun world => ((savedCount? payload).map (world.setCount name ·)).getD world)
          fun _ => routine "restore"
    exposure := exposure }

/-- Make an extension as some data describe it. -/
def makeExtension (name : String) (data : Json) (world : World) : Extension World × World :=
  if (get? data "bare").getD false then (bareExtension name, world)
  else if (get? data "expose").getD false then
    (extensionWith name data (some world.visits.size),
      { world with visits := world.visits.push (name, 0) })
  else (extensionWith name data none, world)

/-- The extensions that some data describe by their names. -/
def catalogOf (entries : Members) : Catalog World :=
  entries.foldl (fun catalog (name, data) =>
    catalog.register name (makeExtension (Text.toSmall name) data)) .empty

end Relay.Script
