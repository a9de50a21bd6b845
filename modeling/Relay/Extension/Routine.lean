import Relay.Extension.Error
import Relay.Extension.State

/-! # What extensions do

The callbacks of extensions act through a fixed set of requests: they register hooks, write
messages, set timers and look at other extensions. A routine is a tree of such requests, so that an
extension can do nothing else. -/

namespace Relay

/-- What an extension can learn of where it runs. -/
structure Scene where
  name : String
  store : Store
  protocol : UInt32
  now : Nat

/-- A callback of an extension over a world `σ` that it shares with others. -/
inductive Routine (σ : Type) where
  | done (ending : Except Failure Unit)
  | world (change : σ → σ) (next : σ → Routine σ)
  | hook (target : String) (callback : Callback σ) (options : HookOptions)
      (next : Except PipelineError Nat → Routine σ)
  | unhook (handle : Nat) (next : Bool → Routine σ)
  | write (direction : Direction) (name : String) (version : VersionRequest) (object : Object)
      (next : Except PipelineError Bool → Routine σ)
  | isLoaded (name : String) (next : Bool → Routine σ)
  | require (name : String) (next : Option Nat → Routine σ)
  | setTimer (delay : Nat) (repeats : Bool) (callback : Routine σ) (next : Nat → Routine σ)
  | clearTimer (timer : Nat) (next : Bool → Routine σ)
  | clearTimers (next : Nat → Routine σ)
  | timers (next : List Nat → Routine σ)
  | scene (next : Scene → Routine σ)
  | remark (entry : Entry) (next : Routine σ)

namespace Routine

/-- End well. -/
def pass : Routine σ := .done (.ok ())

/-- Write a message in the direction that its name tells. -/
def send (name : String) (version : VersionRequest) (object : Object)
    (next : Except HostError Bool → Routine σ) : Routine σ :=
  match Direction.ofName? name with
  | none => next (.error (.unknownDirection name))
  | some direction =>
    .write direction name version object fun result => next (result.mapError .pipeline)

/-- Register a hook, and tell an operator if that is not possible. -/
def tryHook (target : String) (callback : Callback σ) (options : HookOptions)
    (next : Option Nat → Routine σ) : Routine σ :=
  .hook target callback options fun
    | .ok handle => next (some handle)
    | .error error =>
      .scene fun scene =>
        .remark (.warning "hook not registered"
          [("module", scene.name), ("target", target), ("error", error.message)]) (next none)

/-- Tell an operator something. -/
def tell (entry : List (String × String) → Entry) (next : Routine σ) : Routine σ :=
  .scene fun scene => .remark (entry [("module", scene.name)]) next

end Routine

/-- An extension that was made. What it shows to others is known to its world by a number. -/
structure Extension (σ : Type) where
  load : Routine σ
  unload : Routine σ
  stateFormat : UInt32
  saveState : σ → σ × Except Failure (Option Json)
  restore : Json → Routine σ
  exposure : Option Nat

end Relay
