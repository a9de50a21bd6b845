import Relay.Proofs.Extension.Housed
import Relay.Proofs.Extension.Timed

/-! # The timers of loaded extensions

The timers of an extension change by calls of its own code only (`Relay.Occurrence.Tends`): it has
none when it is to be loaded, keeps those that it has while it is loaded, and loses them when it is
unloaded. Whatever is done with a host, the calls lead from the timers before to those after
(`Relay.Host.tended_history`). -/

namespace Relay

variable {σ : Type}

/-- What a call does with the timers of its extension. -/
def Call.marks (call : Call σ) : List (Timers.Mark σ) :=
  call.routine.marks call.name call.now call.peers call.stage

theorem Call.change_marks (call : Call σ) (sound : call.stage.timers.Sound) :
    Timers.Change call.stage.timers call.marks call.ended.2.timers :=
  call.routine.change_marks call.stage sound

namespace Occurrence

/-- What an occurrence does to the timers of the extension `name`, if it is loaded. -/
inductive Tends (name : String) : Option (Timers σ) → Occurrence σ → Option (Timers σ) → Prop where
  | order (state : Option (Timers σ)) (pipeline : Pipeline σ)
    (operation : Pipeline.Operation σ) : Tends name state (.order pipeline operation) state
  | other (state : Option (Timers σ)) (call : Call σ) (differs : call.name ≠ name) :
    Tends name state (.call call) state
  | load (call : Call σ) (own : call.name = name) (occasion : call.occasion = .load)
    (new : call.stage.timers = .empty) :
    Tends name none (.call call) (if call.loads then some call.ended.2.timers else none)
  | unload (call : Call σ) (own : call.name = name) (occasion : call.occasion = .unload) :
    Tends name (some call.stage.timers) (.call call) none
  | restore (call : Call σ) (own : call.name = name) (occasion : call.occasion = .restore) :
    Tends name (some call.stage.timers) (.call call) (some call.ended.2.timers)
  | timer (call : Call σ) (timers : Timers σ) (timer : Timer σ) (own : call.name = name)
    (occasion : call.occasion = .timer timer.id)
    (takes : timers.take timer.id = some (timer, call.stage.timers)) :
    Tends name (some timers) (.call call) (some (call.ended.2.timers.finish timer call.now))

/-- What occurrences one after the other do to the timers of an extension. -/
def Tended (name : String) : Option (Timers σ) → List (Occurrence σ) → Option (Timers σ) → Prop
  | before, [], after => before = after
  | before, occurrence :: rest, after =>
    ∃ middle, Tends name before occurrence middle ∧ Tended name middle rest after

variable {name : String} {before middle after : Option (Timers σ)}
  {occurrences more : List (Occurrence σ)}

/-- What occurs first leaves the timers to what occurs then. -/
theorem Tended.append (first : Tended name before occurrences middle)
    (second : Tended name middle more after) : Tended name before (occurrences ++ more) after := by
  induction occurrences generalizing before with
  | nil =>
      obtain rfl := first
      exact second
  | cons occurrence rest ih =>
      obtain ⟨next, tends, later⟩ := first
      exact ⟨next, tends, ih later⟩

theorem Tends.single {occurrence : Occurrence σ} (tends : Tends name before occurrence after) :
    Tended name before [occurrence] after :=
  ⟨after, tends, rfl⟩

end Occurrence

namespace Host

open Occurrence

variable {host : Host σ} {name other : String}

/-- The timers of a loaded extension. -/
def timers? (host : Host σ) (name : String) : Option (Timers σ) :=
  (host.loaded.find? (·.name == name)).map (·.timers)

theorem timers?_of_loaded? {module : Loaded σ} (found : host.loaded? name = some module) :
    host.timers? (Text.toSmall name) = some module.timers :=
  congrArg (Option.map Loaded.timers) found

/-- An extension has no timers if and only if it is not loaded. -/
theorem timers?_eq_none : host.timers? name = none ↔ name ∉ host.loadedNames := by
  rw [timers?, Option.map_eq_none_iff, List.find?_eq_none, loadedNames, List.mem_map]
  simp only [beq_iff_eq, not_exists, not_and]

/-- To replace the timers of an extension changes those of no other. -/
theorem timers?_setTimers (host : Host σ) (other : String) (timers : Timers σ) (name : String) :
    (host.setTimers other timers).timers? name =
      if name = other then (host.timers? name).map fun _ => timers else host.timers? name := by
  have same : ((fun module : Loaded σ => module.name == name) ∘ fun module =>
      if module.name == other then { module with timers := timers } else module) =
        fun module => module.name == name := by
    funext module
    rw [Function.comp_apply]
    split <;> rfl
  rw [timers?, timers?, setTimers, List.find?_map, same]
  cases found : host.loaded.find? (·.name == name) with
  | none => simp
  | some module =>
      have named : module.name = name := by simpa using List.find?_some found
      by_cases own : name = other
      · simp [own, named]
      · simp [own, named]

/-- The timers of what is loaded, and then those of one more extension. -/
theorem find?_append_loaded (loaded : List (Loaded σ)) (module : Loaded σ) (name : String) :
    ((loaded ++ [module]).find? (·.name == name)).map (·.timers) =
      ((loaded.find? (·.name == name)).map (·.timers)).or
        (if module.name = name then some module.timers else none) := by
  rw [List.find?_append, Option.map_or, List.find?_singleton]
  by_cases own : module.name = name <;> simp [own]

/-- Without one extension the others are found as before. -/
theorem timers?_eraseP_of_ne (differs : name ≠ other) (loaded : List (Loaded σ)) :
    (loaded.eraseP (·.name == other)).find? (·.name == name) =
      loaded.find? (·.name == name) := by
  induction loaded with
  | nil => rfl
  | cons module rest ih =>
      rw [List.eraseP_cons]
      cases erased : module.name == other with
      | true =>
          have named : (module.name == name) = false := by
            rw [beq_eq_false_iff_ne]
            exact fun same => differs (same.symm.trans (beq_iff_eq.mp erased))
          rw [List.find?_cons, named]
          rfl
      | false =>
          rw [cond_false, List.find?_cons, List.find?_cons, ih]

/-! ## What occurs tends the timers -/

/-- An extension that is loaded comes behind the others, with the timers that it has set. -/
theorem loaded_load {info : ExtensionInfo} {make : σ → Extension σ × σ}
    (absent : ¬ host.isLoaded (Text.toSmall other) = true)
    (known : host.info? (Text.toSmall other) = some info)
    (made : host.catalog.find? (Text.toSmall other) = some make) :
    (host.load other).2.loaded =
      if (host.loadCall (Text.toSmall other) make).loads then
        host.loaded ++ [⟨Text.toSmall other, (make host.pipeline.world).1,
          (host.loadCall (Text.toSmall other) make).ended.2.timers⟩]
      else host.loaded := by
  rw [load]
  dsimp only
  rw [if_neg absent, known, made]
  dsimp only
  split
  next stage ran =>
    have ended : (host.loadCall (Text.toSmall other) make).ended = (.ok (), stage) := ran
    have loads : (host.loadCall (Text.toSmall other) make).loads = true := by
      rw [Call.loads, ended]
      rfl
    rw [loads, if_pos rfl, ended]
    rfl
  next failure stage ran =>
    have ended : (host.loadCall (Text.toSmall other) make).ended = (.error failure, stage) := ran
    have loads : (host.loadCall (Text.toSmall other) make).loads = false := by
      rw [Call.loads, ended]
      rfl
    rw [loads, if_neg Bool.false_ne_true]
    rfl

/-- An extension that is loaded has the timers that it has set meanwhile, and the others keep
theirs. -/
theorem tended_load (host : Host σ) (name other : String) :
    Tended name (host.timers? name) (host.loading other) ((host.load other).2.timers? name) := by
  by_cases present : host.isLoaded (Text.toSmall other) = true
  · rw [load, loading, if_pos present]
    dsimp only
    rw [if_pos present]
    exact rfl
  cases known : host.info? (Text.toSmall other) with
  | none =>
      rw [load, loading, if_neg present, known]
      dsimp only
      rw [if_neg present]
      exact rfl
  | some info =>
      cases made : host.catalog.find? (Text.toSmall other) with
      | none =>
          rw [load, loading, if_neg present, known, made]
          dsimp only
          rw [if_neg present]
          exact rfl
      | some make =>
          have loaded := loaded_load present known made
          have calls : host.loading other = [.call (host.loadCall (Text.toSmall other) make)] := by
            rw [loading, if_neg present, known, made]
          rw [calls, timers?, timers?, loaded]
          refine Tends.single ?_
          by_cases own : Text.toSmall other = name
          · subst own
            have none : (host.loaded.find? (·.name == Text.toSmall other)).map (·.timers) =
                none := by
              rw [isLoaded_iff, Text.toSmall_toSmall] at present
              exact timers?_eq_none.mpr present
            rw [apply_ite (List.find? _), apply_ite (Option.map _), find?_append_loaded, none,
              if_pos rfl]
            exact .load _ rfl rfl rfl
          · rw [apply_ite (List.find? _), apply_ite (Option.map _), find?_append_loaded, if_neg own,
              Option.or_none, ite_self]
            exact .other _ _ own

/-- An extension that is unloaded is not among those that are loaded any more. -/
theorem loaded_unload {info : ExtensionInfo} {module : Loaded σ}
    (known : host.info? (Text.toSmall other) = some info)
    (found : host.loaded? (Text.toSmall other) = some module) :
    (host.unload other).2.loaded = host.loaded.eraseP (·.name == Text.toSmall other) := by
  rw [unload]
  dsimp only
  rw [known, found]
  dsimp only
  split <;> rfl

/-- An extension that is unloaded loses its timers, and the others keep theirs. -/
theorem tended_unload (distinct : host.loadedNames.Nodup) (name other : String) :
    Tended name (host.timers? name) (host.unloading other)
      ((host.unload other).2.timers? name) := by
  cases known : host.info? (Text.toSmall other) with
  | none =>
      rw [unload, unloading, known]
      exact rfl
  | some info =>
      cases found : host.loaded? (Text.toSmall other) with
      | none =>
          rw [unload, unloading, known, found]
          exact rfl
      | some module =>
          obtain ⟨_, named, _⟩ := loaded?_eq_some found
          rw [Text.toSmall_toSmall] at named
          have before := timers?_of_loaded? found
          rw [Text.toSmall_toSmall] at before
          have calls : host.unloading other =
              [.call (host.callOf module module.timers .unload module.extension.unload)] := by
            rw [unloading, known, found]
          rw [calls]
          refine Tends.single ?_
          by_cases own : Text.toSmall other = name
          · subst own
            have after : (host.unload other).2.timers? (Text.toSmall other) = none := by
              rw [timers?_eq_none, loadedNames, loaded_unload known found, map_eraseP_loaded]
              exact distinct.not_mem_erase
            rw [before, after]
            exact .unload (host.callOf module module.timers .unload module.extension.unload) named
              rfl
          · rw [timers?, timers?, loaded_unload known found, timers?_eraseP_of_ne (Ne.symm own)]
            exact .other _ _ fun same => own (named.symm.trans same)

/-- A call of other code of a loaded extension tends its timers, and leaves the others alone. -/
theorem tended_of_call {after : Host σ} {module : Loaded σ} {call : Call σ} {left : Timers σ}
    (found : host.loaded? other = some module) (own : call.name = module.name)
    (tends : Tends module.name (some module.timers) (.call call) (some left))
    (same : after.loaded = (host.setTimers module.name left).loaded) (name : String) :
    Tended name (host.timers? name) [.call call] (after.timers? name) := by
  have named := (loaded?_eq_some found).2.1
  have set : after.timers? name = (host.setTimers module.name left).timers? name := by
    rw [timers?, same, timers?]
  rw [set, timers?_setTimers]
  refine Tends.single ?_
  by_cases mine : name = module.name
  · have before := timers?_of_loaded? found
    rw [← named, ← mine] at before
    rw [if_pos mine, before, mine]
    exact tends
  · rw [if_neg mine]
    exact .other _ _ fun same => mine (same.symm.trans own)

/-- An extension to which a state is handed keeps its timers as it leaves them, and so do the
others. -/
theorem tended_restoreState (host : Host σ) (name other : String) (state : SavedState) :
    Tended name (host.timers? name) (host.restoring other state)
      ((host.restoreState other state).2.timers? name) := by
  rw [restoreState, restoring]
  cases found : host.loaded? (Text.toSmall other) with
  | none => exact rfl
  | some module =>
      have named := (loaded?_eq_some found).2.1
      rw [Text.toSmall_toSmall] at named
      dsimp only
      split
      next => exact rfl
      next =>
        rw [← named]
        refine tended_of_call found rfl (.restore (host.callOf module module.timers .restore
          (module.extension.restore state.payload)) rfl rfl) ?_ name
        split <;> rfl

/-- A timer that fires changes the timers of its own extension only. -/
theorem tended_fire (small : Text.toSmall other = other) (name : String) (state : Nat × Host σ)
    (id : Nat) :
    Tended name (state.2.timers? name) (state.2.firing other id)
      ((fire other state id).2.timers? name) := by
  obtain ⟨count, host⟩ := state
  rw [fire, firing]
  dsimp only
  cases found : host.loaded? other with
  | none => exact rfl
  | some module =>
      have named := (loaded?_eq_some found).2.1
      rw [small] at named
      dsimp only
      cases takes : module.timers.take id with
      | none => exact rfl
      | some taken =>
          obtain ⟨timer, timers⟩ := taken
          obtain ⟨_, rfl, _⟩ := Timers.take_eq_some takes
          dsimp only
          rw [← named]
          refine tended_of_call found rfl (.timer
            (host.callOf module timers (.timer timer.id) timer.callback) module.timers timer rfl
            rfl takes) ?_ name
          split <;> rfl

/-- What occurs tends the timers, whatever is done with a host. -/
theorem account_tended (foreign : List String) (name : String) :
    Account (fun other => Text.toSmall other = other) fun (host : Host σ) occurrences after =>
      host.standing.Sound foreign →
        Tended name (host.timers? name) occurrences (after.timers? name) ∧
          after.standing.Sound foreign where
  append first second sound :=
    have early := first sound
    have late := second early.2
    ⟨early.1.append late.1, late.2⟩
  quiet table loaded sound := by
    rw [timers?, timers?, loaded]
    rw [standing, loadedNames, ← table, ← loaded] at sound
    exact ⟨rfl, sound⟩
  load host other sound :=
    ⟨tended_load host name other, sound.leads (leads_load foreign host other)⟩
  unload host other sound :=
    ⟨tended_unload sound.distinct name other, sound.leads (leads_unload foreign host other)⟩
  restoreState host other state sound :=
    ⟨tended_restoreState host name other state,
      sound.leads (leads_restoreState foreign host other state)⟩
  fire other small state id sound :=
    ⟨tended_fire small name state id, sound.leads (leads_fire foreign other state id)⟩

/-- **The timers of an extension change by calls of its code only**, over a whole history. -/
theorem tended_history (operations : List (Operation σ)) {foreign : List String}
    (sound : host.standing.Sound foreign)
    (registers : ∀ operation ∈ operations, ∀ owner,
      operation.registrant? = some owner → owner ∈ foreign) (name : String) :
    Tended name (host.timers? name) (host.history operations)
      ((host.run operations).timers? name) := by
  induction operations generalizing host with
  | nil => exact rfl
  | cons operation rest ih =>
      rw [List.forall_mem_cons] at registers
      obtain ⟨first, later⟩ := (account_tended foreign name).apply operation host sound.small
        (fun order same sound => ⟨Tends.single (.order _ _ _), by
          subst same
          exact sound.leads ((Operation.pipeline order).leads_apply host registers.1)⟩) sound
      exact first.append (ih later registers.2)

end Host

end Relay
