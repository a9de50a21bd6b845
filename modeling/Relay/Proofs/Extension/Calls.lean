import Relay.Proofs.Extension.Deeds
import Relay.Proofs.Text.Case

/-! # When the code of extensions is called

Whatever is done with a host (`Relay.Host.Operation`), the hooks of its pipeline and what is loaded
change by two kinds of occurrences only: code of an extension is called, on one of a few occasions,
or the program around the host uses the pipeline itself (`Relay.Occurrence`). An extension is loaded
by a call that ends well while it is not loaded, and its other code is called only while it is;
from the call to unload it on it is not loaded any more (`Relay.Host.leads_history`). -/

namespace Relay

variable {σ : Type}

/-- On which occasion the code of an extension is called. -/
inductive Occasion where
  | load
  | unload
  | restore
  | timer (id : Nat)
  deriving DecidableEq, Repr

/-- A call of code of an extension, with all that it finds. -/
structure Call (σ : Type) where
  name : String
  occasion : Occasion
  routine : Routine σ
  now : Nat
  peers : List (Loaded σ)
  stage : Stage σ

namespace Call

/-- How the call ends. -/
def ended (call : Call σ) : Except Failure Unit × Stage σ :=
  call.routine.run call.name call.now call.peers call.stage

/-- Whether the call loads the extension. -/
def loads (call : Call σ) : Bool :=
  call.occasion == .load && call.ended.1.isOk

/-- Whether all hooks of the extension are removed after the call: it is unloaded, or could not be
loaded. -/
def clears (call : Call σ) : Bool :=
  call.occasion == .unload || call.occasion == .load && !call.ended.1.isOk

/-- The pipeline that the call leaves. -/
def left (call : Call σ) : Pipeline σ :=
  if call.clears then (call.ended.2.pipeline.unhookOwner call.name).2 else call.ended.2.pipeline

/-- What the call does to the hooks. -/
def deeds (call : Call σ) : List (Deed σ) :=
  call.routine.deeds call.name call.now call.peers call.stage ++
    if call.clears then
      [⟨.teardown call.name, call.ended.2.pipeline, .unhookOwner call.name⟩]
    else []

/-- A call changes hooks by its deeds only. -/
theorem threads_deeds (call : Call σ) :
    Deed.Threads call.stage.pipeline.table call.deeds call.left.table := by
  refine (Routine.threads_deeds call.routine call.stage).append ?_
  rw [left]
  split
  next => exact ⟨rfl, rfl⟩
  next => exact rfl

/-- A call does what is proper for its extension. -/
theorem proper_of_mem_deeds (call : Call σ) : ∀ deed ∈ call.deeds, deed.Proper ∧
    ∀ owner, deed.operation.registrant? = some owner → owner = call.name := by
  refine List.forall_mem_append.mpr ⟨fun deed member => ?_, fun deed member => ?_⟩
  · obtain ⟨actor, proper⟩ := Routine.proper_of_mem_deeds call.routine call.stage deed member
    refine ⟨proper, fun owner registers => ?_⟩
    cases proper with
    | program => cases actor
    | hook =>
        cases actor
        cases registers
        rfl
    | unhook => cases registers
    | write => cases registers
    | teardown => cases registers
  · split at member
    next =>
      obtain rfl := List.mem_singleton.mp member
      exact ⟨.teardown _ _, fun owner registers => by cases registers⟩
    next => cases member

end Call

/-- The code of an extension is called, or the program around a host uses the pipeline. -/
inductive Occurrence (σ : Type) where
  | call (call : Call σ)
  | order (pipeline : Pipeline σ) (operation : Pipeline.Operation σ)

/-- The hooks that are registered, and the names of the extensions that are loaded. -/
structure Standing (σ : Type) where
  table : HookTable σ
  names : List String

namespace Occurrence

/-- When there can be such an occurrence. The program registers hooks only under the names that are
`foreign` to the host. -/
def Fits (foreign : List String) (before : Standing σ) : Occurrence σ → Prop
  | .call made => made.stage.pipeline.table = before.table ∧ Text.toSmall made.name = made.name ∧
    (made.occasion = .load ∧ made.name ∉ before.names ∨
      made.occasion ≠ .load ∧ made.name ∈ before.names)
  | .order pipeline operation => pipeline.table = before.table ∧
    ∀ owner, operation.registrant? = some owner → owner ∈ foreign

/-- What is registered and loaded after an occurrence. -/
def next (before : Standing σ) : Occurrence σ → Standing σ
  | .call made => ⟨made.left.table,
    if made.occasion = .unload then before.names.erase made.name
    else if made.loads then before.names ++ [made.name] else before.names⟩
  | .order pipeline operation => ⟨(operation.apply pipeline).table, before.names⟩

section Calls

variable {call : Call σ} {stage : Stage σ} {failure : Failure}

/-- An extension that ends well when it is loaded comes behind those that are loaded. -/
theorem next_of_loaded (occasion : call.occasion = .load) (ended : call.ended = (.ok (), stage))
    (before : Standing σ) :
    next before (.call call) = ⟨stage.pipeline.table, before.names ++ [call.name]⟩ := by
  have loads : call.loads = true := by
    simp [Call.loads, occasion, ended, Except.isOk, Except.toBool]
  have clears : call.clears = false := by
    simp [Call.clears, occasion, ended, Except.isOk, Except.toBool]
  simp [next, Call.left, occasion, loads, clears, ended]

/-- An extension that could not be loaded leaves no hooks of its own, and is not loaded. -/
theorem next_of_loadFailed (occasion : call.occasion = .load)
    (ended : call.ended = (.error failure, stage)) (before : Standing σ) :
    next before (.call call) =
      ⟨(stage.pipeline.unhookOwner call.name).2.table, before.names⟩ := by
  have loads : call.loads = false := by simp [Call.loads, ended, Except.isOk, Except.toBool]
  have clears : call.clears = true := by
    simp [Call.clears, occasion, ended, Except.isOk, Except.toBool]
  simp [next, Call.left, occasion, loads, clears, ended]

/-- An extension that is called to unload it leaves no hooks of its own, and is not loaded any
more. -/
theorem next_of_unload (occasion : call.occasion = .unload) (before : Standing σ) :
    next before (.call call) = ⟨(call.ended.2.pipeline.unhookOwner call.name).2.table,
      before.names.erase call.name⟩ := by
  have clears : call.clears = true := by simp [Call.clears, occasion]
  simp [next, Call.left, occasion, clears]

/-- Any other call leaves everything loaded that was. -/
theorem next_of_other (loaded : call.occasion ≠ .load) (kept : call.occasion ≠ .unload)
    (before : Standing σ) :
    next before (.call call) = ⟨call.ended.2.pipeline.table, before.names⟩ := by
  have loads : call.loads = false := by simp [Call.loads, loaded]
  have clears : call.clears = false := by simp [Call.clears, loaded, kept]
  simp [next, Call.left, kept, loads, clears]

end Calls

/-- What an occurrence does to the hooks. -/
def deeds : Occurrence σ → List (Deed σ)
  | .call made => made.deeds
  | .order pipeline operation => [⟨.program, pipeline, operation⟩]

/-- Occurrences one after the other, each as it can be after those before it. -/
def Leads (foreign : List String) : Standing σ → List (Occurrence σ) → Standing σ → Prop
  | before, [], after => before = after
  | before, occurrence :: rest, after =>
    occurrence.Fits foreign before ∧ Leads foreign (occurrence.next before) rest after

/-- The occurrences along some steps. -/
def along {State Step : Type} (occurs : State → Step → List (Occurrence σ))
    (go : State → Step → State) : State → List Step → List (Occurrence σ)
  | _, [] => []
  | state, step :: rest => occurs state step ++ along occurs go (go state step) rest

/-- Whether a timer of an extension fires. -/
def OfTimer : Occurrence σ → Prop
  | .call made => ∃ id, made.occasion = .timer id
  | .order _ _ => False

variable {foreign : List String} {before middle after : Standing σ}
  {occurrences more : List (Occurrence σ)}

/-- What occurs first leads to where what occurs then begins. -/
theorem Leads.append (first : Leads foreign before occurrences middle)
    (second : Leads foreign middle more after) :
    Leads foreign before (occurrences ++ more) after := by
  induction occurrences generalizing before with
  | nil =>
      obtain rfl := first
      exact second
  | cons occurrence rest ih => exact ⟨first.1, ih first.2⟩

/-- What holds of all that occurs in each step holds of all that occurs along the steps. -/
theorem mem_along {State Step : Type} {occurs : State → Step → List (Occurrence σ)}
    {go : State → Step → State} {holds : Occurrence σ → Prop}
    (each : ∀ state step, ∀ occurrence ∈ occurs state step, holds occurrence)
    (steps : List Step) (state : State) :
    ∀ occurrence ∈ along occurs go state steps, holds occurrence := by
  induction steps generalizing state with
  | nil => exact List.forall_mem_nil _
  | cons step rest ih => exact List.forall_mem_append.mpr ⟨each state step, ih (go state step)⟩

/-- While timers fire everything stays loaded, and timers of loaded extensions only fire. -/
theorem Leads.ofTimer (leads : Leads foreign before occurrences after)
    (timers : ∀ occurrence ∈ occurrences, occurrence.OfTimer) :
    after.names = before.names ∧ ∀ made, .call made ∈ occurrences → made.name ∈ before.names := by
  induction occurrences generalizing before with
  | nil =>
      obtain rfl := leads
      exact ⟨rfl, fun _ member => absurd member List.not_mem_nil⟩
  | cons occurrence rest ih =>
      rw [List.forall_mem_cons] at timers
      obtain ⟨fits, later⟩ := leads
      cases occurrence with
      | order pipeline operation => exact timers.1.elim
      | call fired =>
          obtain ⟨id, occasion⟩ := timers.1
          have loaded : fired.occasion ≠ .load := by simp [occasion]
          have kept : fired.occasion ≠ .unload := by simp [occasion]
          rw [next_of_other loaded kept] at later
          obtain ⟨same, named⟩ := ih later timers.2
          refine ⟨same, fun made member => ?_⟩
          rcases List.mem_cons.mp member with first | other
          · cases first
            exact (fits.2.2.resolve_left fun absent => loaded absent.1).2
          · exact named made other

end Occurrence

namespace Host

open Occurrence

variable {foreign : List String} {host : Host σ} {name : String}

/-- The hooks that are registered and the names of what is loaded. -/
def standing (host : Host σ) : Standing σ :=
  ⟨host.pipeline.table, host.loadedNames⟩

@[simp]
theorem standing_remark (host : Host σ) (entry : Entry) :
    (host.remark entry).standing = host.standing :=
  rfl

@[simp]
theorem standing_complain (host : Host σ) (text shown : String)
    (details : List (String × String)) :
    (host.complain text shown details).standing = host.standing :=
  rfl

@[simp]
theorem standing_referToAuthor (host : Host σ) (info : ExtensionInfo) :
    (host.referToAuthor info).standing = host.standing :=
  rfl

/-- To replace timers changes neither the hooks nor what is loaded. -/
@[simp]
theorem standing_setTimers (host : Host σ) (name : String) (timers : Timers σ) :
    (host.setTimers name timers).standing = host.standing := by
  have same : ((fun module : Loaded σ => module.name) ∘ fun module =>
      if module.name == name then { module with timers := timers } else module) =
        fun module => module.name := by
    funext module
    rw [Function.comp_apply]
    split <;> rfl
  rw [standing, standing, loadedNames, loadedNames, setTimers, List.map_map, same]

/-- An extension is loaded if its name in small letters is among those that are loaded. -/
theorem isLoaded_iff : host.isLoaded name = true ↔ Text.toSmall name ∈ host.loadedNames := by
  rw [isLoaded, loaded?, List.find?_isSome, loadedNames, List.mem_map]
  simp only [beq_iff_eq]

theorem isLoaded_toSmall (host : Host σ) (name : String) :
    host.isLoaded (Text.toSmall name) = host.isLoaded name := by
  rw [isLoaded, isLoaded, loaded?, loaded?, Text.toSmall_toSmall]

theorem info?_toSmall (host : Host σ) (name : String) :
    host.info? (Text.toSmall name) = host.info? name := by
  rw [info?, info?, Text.toSmall_toSmall]

/-- An extension is loaded under its name in small letters. -/
theorem loaded?_eq_some {module : Loaded σ} (found : host.loaded? name = some module) :
    module ∈ host.loaded ∧ module.name = Text.toSmall name ∧
      Text.toSmall module.name = module.name := by
  have named : module.name = Text.toSmall name := by simpa using List.find?_some found
  exact ⟨List.mem_of_find?_eq_some found, named, by rw [named, Text.toSmall_toSmall]⟩

theorem loaded?_eq_none :
    host.loaded? name = none ↔ Text.toSmall name ∉ host.loadedNames := by
  rw [← isLoaded_iff, isLoaded, Option.not_isSome_iff_eq_none]

/-- Without one extension the others are loaded, in the same order. -/
theorem map_eraseP_loaded (host : Host σ) (name : String) :
    (host.loaded.eraseP (·.name == name)).map (·.name) = host.loadedNames.erase name := by
  rw [loadedNames, List.erase_eq_eraseP', List.eraseP_map]
  rfl

/-! ## What occurs in each operation -/

/-- A call of a loaded extension next to all others. -/
def callOf (host : Host σ) (module : Loaded σ) (timers : Timers σ) (occasion : Occasion)
    (routine : Routine σ) : Call σ :=
  ⟨module.name, occasion, routine, host.now, host.loaded.eraseP (·.name == module.name),
    ⟨host.pipeline, timers⟩⟩

/-- The call of an extension that is made to be loaded. -/
def loadCall (host : Host σ) (name : String) (make : σ → Extension σ × σ) : Call σ :=
  let (extension, state) := make host.pipeline.world
  ⟨name, .load, extension.load, host.now, host.loaded,
    ⟨{ host.pipeline with world := state }, .empty⟩⟩

/-- The call when an extension is loaded. -/
def loading (host : Host σ) (name : String) : List (Occurrence σ) :=
  let name := Text.toSmall name
  if host.isLoaded name then []
  else
    match host.info? name, host.catalog.find? name with
    | some _, some make => [.call (host.loadCall name make)]
    | _, _ => []

/-- The call when an extension is unloaded. -/
def unloading (host : Host σ) (name : String) : List (Occurrence σ) :=
  let name := Text.toSmall name
  match host.info? name, host.loaded? name with
  | some _, some module =>
    [.call (host.callOf module module.timers .unload module.extension.unload)]
  | _, _ => []

/-- The call when a saved state is handed to an extension. -/
def restoring (host : Host σ) (name : String) (state : SavedState) : List (Occurrence σ) :=
  let name := Text.toSmall name
  match host.loaded? name with
  | none => []
  | some module =>
    if state.module ≠ name ∨ state.format ≠ module.extension.stateFormat then []
    else
      [.call (host.callOf module module.timers .restore (module.extension.restore state.payload))]

/-- The calls when an extension is unloaded and loaded again with its state. -/
def reloading (host : Host σ) (name : String) : List (Occurrence σ) :=
  let name := Text.toSmall name
  match host.info? name with
  | none => []
  | some info =>
    if !info.reloadable || !host.isLoaded name then []
    else
      match host.saveState name with
      | (.error _, _) => []
      | (.ok saved, host) =>
        host.unloading name ++
          match host.unload name with
          | (.error _, _) => []
          | (.ok (), host) =>
            host.loading name ++
              match host.load name, saved with
              | (.ok (), host), some state => host.restoring name state
              | _, _ => []

/-- The host after its extensions were found again. -/
def found (host : Host σ) (discovery : Discovery) (remarks : Journal) : Host σ :=
  { host with
    installed := discovery.installed
    pipeline := { host.pipeline with remarks := host.pipeline.remarks ++ remarks } }

/-- The names that are loaded when all extensions are, in order. -/
def ordered (host : Host σ) : List String :=
  [(LoadPhase.connect, true), (.connect, false), (.versionCheck, true),
    (.versionCheck, false)].flatMap fun (phase, core) => host.namesOf phase core

/-- The calls when all extensions are loaded. -/
def loadingAll (host : Host σ) (tree : Files.Tree) : List (Occurrence σ) :=
  match Discovery.run tree host.root (some host.pipeline.store) host.supportUrl with
  | .error _ => []
  | .ok (discovery, remarks) =>
    along (fun state name => state.2.loading name) loadNext
      (⟨[], discovery.excluded, []⟩, host.found discovery remarks)
      (host.found discovery remarks).ordered

/-- The loaded extensions in the order in which they are unloaded: core ones last. -/
def parting (host : Host σ) : List String :=
  host.loadedNames.filter (!host.isCore ·) ++ host.loadedNames.filter (host.isCore ·)

/-- Unload an extension as part of unloading all. -/
def unloadNext (state : Nat × Host σ) (name : String) : Nat × Host σ :=
  match state.2.unload name with
  | (.ok (), host) => (state.1 + 1, host)
  | (.error _, host) => (state.1, host)

/-- The calls when all extensions are unloaded. -/
def unloadingAll (host : Host σ) : List (Occurrence σ) :=
  along (fun state name => state.2.unloading name) unloadNext (0, host) host.parting

/-- The call when a timer of an extension fires. -/
def firing (name : String) (host : Host σ) (id : Nat) : List (Occurrence σ) :=
  match host.loaded? name with
  | none => []
  | some module =>
    match module.timers.take id with
    | none => []
    | some (timer, timers) => [.call (host.callOf module timers (.timer id) timer.callback)]

/-- The calls when the timers of an extension fire. -/
def firingDue (host : Host σ) (name : String) (count : Nat) : List (Occurrence σ) :=
  along (fun state id => state.2.firing name id) (fire name) (count, host)
    ((host.loaded? name).elim [] fun module => module.timers.due host.now)

/-- The calls when all timers fire that are due. -/
def polling (host : Host σ) (now : Nat) : List (Occurrence σ) :=
  along (fun state name => state.2.firingDue name state.1) fireDue (0, { host with now := now })
    host.loadedNames

/-- What can be done with a host. Meanwhile time can go on, and the world can change. -/
inductive Operation (σ : Type) where
  | loadAll (tree : Files.Tree)
  | load (name : String)
  | unload (name : String)
  | unloadAll
  | reload (name : String)
  | saveState (name : String)
  | restoreState (name : String) (state : SavedState)
  | pollTimers (now : Nat)
  | pipeline (operation : Pipeline.Operation σ)
  | elsewhere (now : Nat) (change : σ → σ)

namespace Operation

/-- The host after an operation. -/
def apply (host : Host σ) : Operation σ → Host σ
  | .loadAll tree => (host.loadAll tree).2
  | .load name => (host.load name).2
  | .unload name => (host.unload name).2
  | .unloadAll => host.unloadAll.2
  | .reload name => (host.reload name).2
  | .saveState name => (host.saveState name).2
  | .restoreState name state => (host.restoreState name state).2
  | .pollTimers now => (host.pollTimers now).2
  | .pipeline operation => { host with pipeline := operation.apply host.pipeline }
  | .elsewhere now change =>
    { host with now := now, pipeline := { host.pipeline with world := change host.pipeline.world } }

/-- What occurs in an operation. -/
def occurrences (host : Host σ) : Operation σ → List (Occurrence σ)
  | .loadAll tree => host.loadingAll tree
  | .load name => host.loading name
  | .unload name => host.unloading name
  | .unloadAll => host.unloadingAll
  | .reload name => host.reloading name
  | .restoreState name state => host.restoring name state
  | .pollTimers now => host.polling now
  | .pipeline operation => [.order host.pipeline operation]
  | .saveState _ | .elsewhere _ _ => []

/-- For whom the program around the host registers a hook itself. -/
def registrant? : Operation σ → Option String
  | .pipeline operation => operation.registrant?
  | _ => none

end Operation

/-- The host after some operations. -/
def run (host : Host σ) (operations : List (Operation σ)) : Host σ :=
  operations.foldl Operation.apply host

/-- What occurs in some operations. -/
def history (host : Host σ) (operations : List (Operation σ)) : List (Occurrence σ) :=
  along Operation.occurrences Operation.apply host operations

/-- The names under which the program around the host registers hooks itself. -/
def foreignNames (operations : List (Operation σ)) : List String :=
  operations.filterMap Operation.registrant?

/-! ## From single steps to all that is done -/

/-- To save a state changes neither the hooks nor what is loaded. -/
theorem keeps_saveState (host : Host σ) (name : String) :
    (host.saveState name).2.pipeline.table = host.pipeline.table ∧
      (host.saveState name).2.loaded = host.loaded := by
  rw [saveState]
  dsimp only
  split
  next => exact ⟨rfl, rfl⟩
  next => split <;> exact ⟨rfl, rfl⟩

/-- To unload all is to unload one after the other, core ones last. -/
theorem unloadAll_eq (host : Host σ) :
    host.unloadAll = host.parting.foldl unloadNext (0, host) := by
  rw [unloadAll, List.partition_eq_filter_filter]
  rfl

/-- What can hold of a host, of what occurs, and of the host afterwards, and holds of all that is
done with a host if it holds of single steps. Timers are those of extensions that are `named`. -/
structure Account (named : String → Prop)
    (holds : Host σ → List (Occurrence σ) → Host σ → Prop) : Prop where
  append : ∀ {first second third : Host σ} {occurrences more : List (Occurrence σ)},
    holds first occurrences second → holds second more third →
      holds first (occurrences ++ more) third
  quiet : ∀ {host after : Host σ}, after.pipeline.table = host.pipeline.table →
    after.loaded = host.loaded → holds host [] after
  load : ∀ host name, holds host (host.loading name) (host.load name).2
  unload : ∀ host name, holds host (host.unloading name) (host.unload name).2
  restoreState : ∀ host name state,
    holds host (host.restoring name state) (host.restoreState name state).2
  fire : ∀ name, named name → ∀ (state : Nat × Host σ) (id : Nat),
    holds state.2 (state.2.firing name id) (fire name state id).2

namespace Account

variable {named : String → Prop} {holds : Host σ → List (Occurrence σ) → Host σ → Prop}

/-- It does not matter what is noted afterwards. -/
theorem noted (account : Account named holds) {host after noted : Host σ}
    {occurrences : List (Occurrence σ)} (done : holds host occurrences after)
    (table : noted.pipeline.table = after.pipeline.table) (loaded : noted.loaded = after.loaded) :
    holds host occurrences noted := by
  have both := account.append done (account.quiet table loaded)
  rwa [List.append_nil] at both

/-- It does not matter what is found out before. -/
theorem prepared (account : Account named holds) {host prepared after : Host σ}
    {occurrences : List (Occurrence σ)} (done : holds prepared occurrences after)
    (table : prepared.pipeline.table = host.pipeline.table)
    (loaded : prepared.loaded = host.loaded) : holds host occurrences after :=
  account.append (account.quiet table loaded) done

/-- What holds of single steps holds along all of them. -/
theorem along (account : Account named holds) {State Step : Type}
    {occurs : State → Step → List (Occurrence σ)} {go : State → Step → State}
    (inner : State → Host σ) (steps : List Step)
    (each : ∀ state, ∀ step ∈ steps,
      holds (inner state) (occurs state step) (inner (go state step))) (state : State) :
    holds (inner state) (Occurrence.along occurs go state steps)
      (inner (steps.foldl go state)) := by
  induction steps generalizing state with
  | nil => exact account.quiet rfl rfl
  | cons step rest ih =>
      exact account.append (each state step List.mem_cons_self)
        (ih (fun state step member => each state step (List.mem_cons_of_mem _ member)) _)

/-- What holds of saving, unloading, loading and restoring holds of reloading. -/
theorem reload (account : Account named holds) (host : Host σ) (name : String) :
    holds host (host.reloading name) (host.reload name).2 := by
  rw [Host.reload, reloading]
  generalize Text.toSmall name = small
  cases host.info? small with
  | none => exact account.quiet rfl rfl
  | some info =>
      dsimp only
      by_cases fixed : (!info.reloadable) = true
      · rw [if_pos fixed, if_pos (by rw [fixed, Bool.true_or])]
        exact account.quiet rfl rfl
      by_cases absent : (!host.isLoaded small) = true
      · rw [if_neg fixed, if_pos absent, if_pos (by rw [absent, Bool.or_true])]
        exact account.quiet rfl rfl
      rw [if_neg fixed, if_neg absent, if_neg (by simp [fixed, absent])]
      have keeps := host.keeps_saveState small
      rcases saving : host.saveState small with ⟨error | saved, kept⟩
      all_goals rw [saving] at keeps; dsimp only at keeps ⊢
      · exact account.quiet keeps.1 keeps.2
      refine account.prepared ?_ keeps.1 keeps.2
      have first := account.unload kept small
      rcases unloaded : kept.unload small with ⟨error | _, gone⟩
      all_goals rw [unloaded] at first; dsimp only at first ⊢
      · rw [List.append_nil]
        exact account.noted first rfl rfl
      refine account.append first ?_
      have second := account.load gone small
      rcases loaded : gone.load small with ⟨error | _, again⟩
      all_goals rw [loaded] at second; dsimp only at second ⊢
      · rw [List.append_nil]
        exact account.noted second rfl rfl
      cases saved with
      | none =>
          rw [List.append_nil]
          exact account.noted second rfl rfl
      | some state =>
          have third := account.restoreState again small state
          refine account.append second ?_
          rcases restored : again.restoreState small state with ⟨error | _, after⟩
          all_goals
            rw [restored] at third
            simp only [restored]
            exact account.noted third rfl rfl

/-- What holds of loading one extension holds of it as part of loading all. -/
theorem loadNext (account : Account named holds) (state : LoadReport × Host σ) (name : String) :
    holds state.2 (state.2.loading name) (loadNext state name).2 := by
  obtain ⟨report, host⟩ := state
  have done := account.load host name
  rw [Host.loadNext]
  dsimp only
  split
  next present =>
    rw [loading, isLoaded_toSmall, if_pos present]
    exact account.quiet rfl rfl
  next =>
    rcases loaded : host.load name with ⟨error | _, after⟩
    all_goals rw [loaded] at done; exact done

/-- What holds of loading one extension holds of loading all. -/
theorem loadAll (account : Account named holds) (host : Host σ) (tree : Files.Tree) :
    holds host (host.loadingAll tree) (host.loadAll tree).2 := by
  rw [Host.loadAll, loadingAll]
  rcases Discovery.run tree host.root (some host.pipeline.store) host.supportUrl with
    error | ⟨discovery, remarks⟩
  · exact account.quiet rfl rfl
  · have done := account.along (fun state : LoadReport × Host σ => state.2)
      (host.found discovery remarks).ordered (fun state name _ => account.loadNext state name)
      (⟨[], discovery.excluded, []⟩, host.found discovery remarks)
    exact account.prepared done rfl rfl

/-- What holds of unloading one extension holds of it as part of unloading all. -/
theorem unloadNext (account : Account named holds) (state : Nat × Host σ) (name : String) :
    holds state.2 (state.2.unloading name) (unloadNext state name).2 := by
  have done := account.unload state.2 name
  rw [Host.unloadNext]
  rcases unloaded : state.2.unload name with ⟨error | _, after⟩
  all_goals rw [unloaded] at done; exact done

/-- What holds of unloading one extension holds of unloading all. -/
theorem unloadAll (account : Account named holds) (host : Host σ) :
    holds host host.unloadingAll host.unloadAll.2 := by
  rw [unloadAll_eq]
  exact account.along (fun state : Nat × Host σ => state.2) host.parting
    (fun state name _ => account.unloadNext state name) (0, host)

/-- What holds of a timer that fires holds of all that are due. -/
theorem pollTimers (account : Account named holds) (host : Host σ)
    (each : ∀ name ∈ host.loadedNames, named name) (now : Nat) :
    holds host (host.polling now) (host.pollTimers now).2 := by
  have turn (state : Nat × Host σ) (name : String) (member : name ∈ host.loadedNames) :
      holds state.2 (state.2.firingDue name state.1) (fireDue state name).2 :=
    account.along (fun state : Nat × Host σ => state.2) _
      (fun state id _ => account.fire name (each name member) state id) state
  have done := account.along (fun state : Nat × Host σ => state.2) host.loadedNames turn
    (0, { host with now := now })
  exact account.prepared done rfl rfl

/-- **What holds of single steps holds of every operation**, if it holds of those that the program
around the host does itself. -/
theorem apply (account : Account named holds) (operation : Operation σ) (host : Host σ)
    (each : ∀ name ∈ host.loadedNames, named name)
    (ordered : ∀ order, operation = .pipeline order →
      holds host [.order host.pipeline order]
        { host with pipeline := order.apply host.pipeline }) :
    holds host (operation.occurrences host) (operation.apply host) := by
  cases operation with
  | loadAll tree => exact account.loadAll host tree
  | load name => exact account.load host name
  | unload name => exact account.unload host name
  | unloadAll => exact account.unloadAll host
  | reload name => exact account.reload host name
  | saveState name =>
      have keeps := host.keeps_saveState name
      exact account.quiet keeps.1 keeps.2
  | restoreState name state => exact account.restoreState host name state
  | pollTimers now => exact account.pollTimers host each now
  | pipeline order => exact ordered order rfl
  | elsewhere now change => exact account.quiet rfl rfl

end Account

/-! ## What occurs leads on -/

/-- **To load an extension is to call it, if it can be loaded**, and leads to what is registered and
loaded then. -/
theorem leads_load (foreign : List String) (host : Host σ) (name : String) :
    Leads foreign host.standing (host.loading name) (host.load name).2.standing := by
  rw [load, loading]
  split
  next => exact rfl
  next absent =>
    rw [isLoaded_iff, Text.toSmall_toSmall] at absent
    cases host.info? (Text.toSmall name) with
    | none => exact rfl
    | some info =>
        cases host.catalog.find? (Text.toSmall name) with
        | none => exact rfl
        | some make =>
            refine ⟨⟨rfl, Text.toSmall_toSmall name, .inl ⟨rfl, absent⟩⟩, ?_⟩
            change next _ (.call (host.loadCall (Text.toSmall name) make)) = _
            dsimp only
            split
            next stage ran =>
              have ended : (host.loadCall (Text.toSmall name) make).ended = (.ok (), stage) := ran
              rw [next_of_loaded rfl ended, standing_remark]
              simp only [standing, loadedNames, List.map_append, List.map_singleton]
              rfl
            next failure stage ran =>
              have ended : (host.loadCall (Text.toSmall name) make).ended =
                (.error failure, stage) := ran
              rw [next_of_loadFailed rfl ended]
              rfl

/-- **To unload an extension is to call it, if it is loaded and installed**, and leads to what is
registered and loaded then. -/
theorem leads_unload (foreign : List String) (host : Host σ) (name : String) :
    Leads foreign host.standing (host.unloading name)
      (host.unload name).2.standing := by
  rw [unload, unloading]
  cases host.info? (Text.toSmall name) with
  | none => exact rfl
  | some info =>
      cases found : host.loaded? (Text.toSmall name) with
      | none => exact rfl
      | some module =>
          obtain ⟨listed, named, small⟩ := loaded?_eq_some found
          rw [Text.toSmall_toSmall] at named
          dsimp only
          rw [← named]
          refine ⟨⟨rfl, small, .inr ⟨Occasion.noConfusion, List.mem_map_of_mem listed⟩⟩, ?_⟩
          change next _ (.call (host.callOf _ _ _ _)) = _
          rw [next_of_unload rfl]
          split
          next => exact congrArg (Standing.mk _) (host.map_eraseP_loaded module.name).symm
          next => exact congrArg (Standing.mk _) (host.map_eraseP_loaded module.name).symm

/-- To save a state leaves what is registered and loaded as it is. -/
theorem leads_saveState (host : Host σ) (name : String) :
    (host.saveState name).2.standing = host.standing := by
  rw [standing, loadedNames, (host.keeps_saveState name).1, (host.keeps_saveState name).2]
  rfl

/-- A call of other code of a loaded extension leaves the extension loaded. -/
theorem leads_callOf (foreign : List String) {module : Loaded σ} (listed : module ∈ host.loaded)
    (small : Text.toSmall module.name = module.name) (timers : Timers σ) (occasion : Occasion)
    (loaded : occasion ≠ .load) (kept : occasion ≠ .unload) (routine : Routine σ) :
    Leads foreign host.standing [.call (host.callOf module timers occasion routine)]
      (host.runIn module timers routine).2.2.standing := by
  refine ⟨⟨rfl, small, .inr ⟨loaded, List.mem_map_of_mem listed⟩⟩, ?_⟩
  change next _ (.call (host.callOf _ _ _ _)) = _
  rw [next_of_other loaded kept]
  rfl

/-- To restore a state is to call the extension, if the state is meant for it. -/
theorem leads_restoreState (foreign : List String) (host : Host σ) (name : String)
    (state : SavedState) :
    Leads foreign host.standing (host.restoring name state)
      (host.restoreState name state).2.standing := by
  rw [restoreState, restoring]
  cases found : host.loaded? (Text.toSmall name) with
  | none => exact rfl
  | some module =>
      obtain ⟨listed, named, small⟩ := loaded?_eq_some found
      rw [Text.toSmall_toSmall] at named
      dsimp only
      rw [← named]
      split
      next => exact rfl
      next =>
        have called := leads_callOf foreign listed small module.timers .restore Occasion.noConfusion
          Occasion.noConfusion (module.extension.restore state.payload)
        split
        all_goals simpa using called

/-- A timer fires by a call of its extension. -/
theorem leads_fire (foreign : List String) (name : String) (state : Nat × Host σ) (id : Nat) :
    Leads foreign state.2.standing (state.2.firing name id) (fire name state id).2.standing := by
  obtain ⟨count, host⟩ := state
  rw [fire, firing]
  dsimp only
  cases found : host.loaded? name with
  | none => exact rfl
  | some module =>
      obtain ⟨listed, _, small⟩ := loaded?_eq_some found
      dsimp only
      cases module.timers.take id with
      | none => exact rfl
      | some taken =>
          obtain ⟨timer, timers⟩ := taken
          have called := leads_callOf foreign listed small timers (.timer id) Occasion.noConfusion
            Occasion.noConfusion timer.callback
          dsimp only
          rw [standing_setTimers]
          split
          all_goals simpa using called

/-- **What occurs leads on**, whatever is done with a host. -/
theorem account_leads (foreign : List String) :
    Account (fun _ => True) fun (host : Host σ) occurrences after =>
      Leads foreign host.standing occurrences after.standing where
  append := Leads.append
  quiet table loaded := by
    rw [standing, standing, loadedNames, loadedNames, table, loaded]
    exact rfl
  load := leads_load foreign
  unload := leads_unload foreign
  restoreState := leads_restoreState foreign
  fire name _ := leads_fire foreign name

theorem leads_unloadAll (foreign : List String) (host : Host σ) :
    Leads foreign host.standing host.unloadingAll host.unloadAll.2.standing :=
  (account_leads foreign).unloadAll host

theorem leads_pollTimers (foreign : List String) (host : Host σ) (now : Nat) :
    Leads foreign host.standing (host.polling now) (host.pollTimers now).2.standing :=
  (account_leads foreign).pollTimers host (fun _ _ => trivial) now

/-- When timers are polled, timers fire and nothing else occurs. -/
theorem ofTimer_polling (host : Host σ) (now : Nat) :
    ∀ occurrence ∈ host.polling now, occurrence.OfTimer := by
  refine mem_along (fun state name => ?_) _ _
  refine mem_along (fun state id => ?_) _ _
  rw [firing]
  split
  next => exact List.forall_mem_nil _
  next =>
    split
    next => exact List.forall_mem_nil _
    next => exact List.forall_mem_singleton.mpr ⟨id, rfl⟩

/-- Only timers of loaded extensions fire. -/
theorem mem_loadedNames_of_polling {now : Nat} {made : Call σ}
    (fires : .call made ∈ host.polling now) : made.name ∈ host.loadedNames :=
  ((leads_pollTimers [] host now).ofTimer (host.ofTimer_polling now)).2 made fires

/-- **What occurs in an operation leads from what is registered and loaded before it to what is
after it.** -/
theorem Operation.leads_apply (operation : Operation σ) (host : Host σ)
    (registers : ∀ owner, operation.registrant? = some owner → owner ∈ foreign) :
    Leads foreign host.standing (operation.occurrences host) (operation.apply host).standing := by
  refine (account_leads foreign).apply operation host (fun _ _ => trivial) fun order same => ?_
  subst same
  exact ⟨⟨rfl, registers⟩, rfl⟩

theorem mem_foreignNames (operations : List (Operation σ)) : ∀ operation ∈ operations,
    ∀ owner, operation.registrant? = some owner → owner ∈ foreignNames operations :=
  fun operation member _ registers => List.mem_filterMap.mpr ⟨operation, member, registers⟩

/-- **A history leads from the host before to the host after.** -/
theorem leads_history (operations : List (Operation σ)) (host : Host σ)
    (registers : ∀ operation ∈ operations, ∀ owner,
      operation.registrant? = some owner → owner ∈ foreign) :
    Leads foreign host.standing (host.history operations) (host.run operations).standing := by
  induction operations generalizing host with
  | nil => exact rfl
  | cons operation rest ih =>
      rw [List.forall_mem_cons] at registers
      exact (operation.leads_apply host registers.1).append (ih (operation.apply host) registers.2)

end Host

end Relay
