import Relay.Extension.Host

/-! # Routines request by request

A routine makes one request after the other, each on the stage that the one before has left
(`Relay.Routine.trace`). What a single request does to the stage is told by `Relay.Moment.after`,
and a whole run leads through the moments of its trace (`Relay.Routine.leads_trace`), so that what
is to be known of a run is shown of one request. -/

namespace Relay

variable {σ : Type}

/-- A routine that is about to make a request, and the stage on which it does. -/
structure Moment (σ : Type) where
  routine : Routine σ
  stage : Stage σ

namespace Moment

/-- The stage when the request of the extension `name` has been answered. -/
def after (name : String) (now : Nat) (moment : Moment σ) : Stage σ :=
  let stage := moment.stage
  match moment.routine with
  | .world change _ =>
    { stage with pipeline := { stage.pipeline with world := change stage.pipeline.world } }
  | .hook target callback options _ =>
    { stage with pipeline := (stage.pipeline.hook (some name) target callback options).2 }
  | .unhook handle _ =>
    { stage with pipeline := (stage.pipeline.unhookOwned name handle).2 }
  | .write direction message version object _ =>
    { stage with pipeline := (stage.pipeline.write direction message version object).2 }
  | .setTimer delay repeats callback _ =>
    let period := if repeats then some delay else none
    { stage with timers := (stage.timers.insert (now + delay) period callback).2 }
  | .clearTimer id _ => { stage with timers := (stage.timers.clear id).2 }
  | .clearTimers _ => { stage with timers := stage.timers.clearAll.2 }
  | .remark entry _ => { stage with pipeline := stage.pipeline.remark entry }
  | .done _ | .isLoaded .. | .require .. | .timers _ | .scene _ => stage

/-- Moments one after the other: each finds the stage that the one before has left. -/
def Leads (name : String) (now : Nat) (start : Stage σ) : List (Moment σ) → Stage σ → Prop
  | [], finish => start = finish
  | moment :: rest, finish =>
    moment.stage = start ∧ Leads name now (moment.after name now) rest finish

end Moment

namespace Routine

variable {name : String} {now : Nat} {peers : List (Loaded σ)}

/-- The moments of a routine of the extension `name`, in order. -/
def trace (name : String) (now : Nat) (peers : List (Loaded σ)) :
    Routine σ → Stage σ → List (Moment σ)
  | .done _, _ => []
  | .world change next, stage =>
    let moment : Moment σ := ⟨.world change next, stage⟩
    moment :: (next (change stage.pipeline.world)).trace name now peers (moment.after name now)
  | .hook target callback options next, stage =>
    let moment : Moment σ := ⟨.hook target callback options next, stage⟩
    let result := (stage.pipeline.hook (some name) target callback options).1
    moment :: (next result).trace name now peers (moment.after name now)
  | .unhook handle next, stage =>
    let moment : Moment σ := ⟨.unhook handle next, stage⟩
    let removed := (stage.pipeline.unhookOwned name handle).1
    moment :: (next removed).trace name now peers (moment.after name now)
  | .write direction message version object next, stage =>
    let moment : Moment σ := ⟨.write direction message version object next, stage⟩
    let result := (stage.pipeline.write direction message version object).1
    moment :: (next result).trace name now peers (moment.after name now)
  | .isLoaded other next, stage =>
    let moment : Moment σ := ⟨.isLoaded other next, stage⟩
    moment :: (next (peers.any (·.name == Text.toSmall other))).trace name now peers stage
  | .require other next, stage =>
    let moment : Moment σ := ⟨.require other next, stage⟩
    let found := peers.find? (·.name == Text.toSmall other)
    moment :: (next (found.bind (·.extension.exposure))).trace name now peers stage
  | .setTimer delay repeats callback next, stage =>
    let moment : Moment σ := ⟨.setTimer delay repeats callback next, stage⟩
    let period := if repeats then some delay else none
    let id := (stage.timers.insert (now + delay) period callback).1
    moment :: (next id).trace name now peers (moment.after name now)
  | .clearTimer id next, stage =>
    let moment : Moment σ := ⟨.clearTimer id next, stage⟩
    moment :: (next (stage.timers.clear id).1).trace name now peers (moment.after name now)
  | .clearTimers next, stage =>
    let moment : Moment σ := ⟨.clearTimers next, stage⟩
    moment :: (next stage.timers.clearAll.1).trace name now peers (moment.after name now)
  | .timers next, stage =>
    ⟨.timers next, stage⟩ :: (next stage.timers.ids).trace name now peers stage
  | .scene next, stage =>
    let scene : Scene := ⟨name, stage.pipeline.store, stage.pipeline.protocol, now⟩
    ⟨.scene next, stage⟩ :: (next scene).trace name now peers stage
  | .remark entry next, stage =>
    let moment : Moment σ := ⟨.remark entry next, stage⟩
    moment :: next.trace name now peers (moment.after name now)

/-- **A run leads through its moments**, from the stage that it finds to the one that it leaves. -/
theorem leads_trace (routine : Routine σ) (stage : Stage σ) :
    Moment.Leads name now stage (routine.trace name now peers stage)
      (routine.run name now peers stage).2 := by
  induction routine generalizing stage with
  | done ending => exact rfl
  | world change next ih => exact ⟨rfl, ih _ _⟩
  | hook target callback options next ih => exact ⟨rfl, ih _ _⟩
  | unhook handle next ih => exact ⟨rfl, ih _ _⟩
  | write direction message version object next ih => exact ⟨rfl, ih _ _⟩
  | isLoaded other next ih => exact ⟨rfl, ih _ _⟩
  | require other next ih => exact ⟨rfl, ih _ _⟩
  | setTimer delay repeats callback next _ ih => exact ⟨rfl, ih _ _⟩
  | clearTimer id next ih => exact ⟨rfl, ih _ _⟩
  | clearTimers next ih => exact ⟨rfl, ih _ _⟩
  | timers next ih => exact ⟨rfl, ih _ _⟩
  | scene next ih => exact ⟨rfl, ih _ _⟩
  | remark entry next ih => exact ⟨rfl, ih _⟩

end Routine

end Relay
