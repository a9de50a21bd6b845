import Relay.Proofs.Extension.Calls

/-! # No hook without its extension

However extensions are loaded and unloaded, and whatever they do and fail to do meanwhile, no
extension is loaded twice, and every hook with an owner is a hook of an extension that is loaded,
unless the program around the host has registered it itself (`Relay.Host.housed_run`). -/

namespace Relay

variable {σ : Type} {foreign : List String}

/-- A hook that a call leaves was there before or is the extension's own. If the hooks of the
extension are removed, it is not one of these. -/
theorem Call.owner_of_mem_left {call : Call σ} {entry : Option UInt16 × Hook σ} {owner : String}
    (member : entry ∈ call.left.table.registered) (owned : entry.2.owner = some owner) :
    (entry ∈ call.stage.pipeline.table.registered ∨ owner = call.name) ∧
      (call.clears = true → owner ≠ call.name) := by
  constructor
  · rcases call.threads_deeds.mem member with old | ⟨deed, listed, same⟩
    · exact .inl old
    · exact .inr ((call.proper_of_mem_deeds deed listed).2 owner (same.symm.trans owned))
  · intro clears
    rw [left, if_pos clears] at member
    have removed := HookTable.registered_removeOwnedBy call.ended.2.pipeline.table call.name
    have kept : entry ∈ (call.ended.2.pipeline.table.removeOwnedBy call.name).registered := member
    rw [removed, List.mem_filter, owned, bne_iff_ne] at kept
    exact fun same => kept.2 (congrArg some same)

namespace Standing

/-- What holds of the hooks that are registered and of what is loaded. -/
structure Sound (foreign : List String) (standing : Standing σ) : Prop where
  distinct : standing.names.Nodup
  small : ∀ name ∈ standing.names, Text.toSmall name = name
  owned : ∀ entry ∈ standing.table.registered, ∀ owner, entry.2.owner = some owner →
    owner ∈ standing.names ∨ owner ∈ foreign

variable {before after : Standing σ} {made : Call σ}

/-- Hooks and extensions stay sound when the program around the host uses the pipeline. -/
theorem Sound.order {pipeline : Pipeline σ} {operation : Pipeline.Operation σ}
    (sound : before.Sound foreign)
    (fits : (Occurrence.order pipeline operation).Fits foreign before) :
    ((Occurrence.order pipeline operation).next before).Sound foreign where
  distinct := sound.distinct
  small := sound.small
  owned := by
    intro entry member owner owned
    obtain ⟨same, registers⟩ := fits
    rcases Pipeline.Operation.owner_of_mem_apply member with old | own
    · rw [same] at old
      exact sound.owned entry old owner owned
    · exact .inr (registers owner (own.symm.trans owned))

/-- What holds of the hooks that a call leaves, where `names` are loaded then: all that were but for
the extension, and the extension if its hooks are not removed. -/
theorem Sound.owned_left (sound : before.Sound foreign)
    (fits : (Occurrence.call made).Fits foreign before) {names : List String}
    (others : ∀ name ∈ before.names, name ≠ made.name → name ∈ names)
    (stays : made.clears = false → made.name ∈ names) :
    ∀ entry ∈ made.left.table.registered, ∀ owner, entry.2.owner = some owner →
      owner ∈ names ∨ owner ∈ foreign := by
  intro entry member owner owned
  obtain ⟨origin, cleared⟩ := Call.owner_of_mem_left member owned
  by_cases own : owner = made.name
  · subst own
    exact .inl (stays (Bool.eq_false_of_not_eq_true fun clears => cleared clears rfl))
  · have old := origin.resolve_right own
    rw [fits.1] at old
    exact (sound.owned entry old owner owned).imp_left fun present => others owner present own

/-- **A call keeps hooks and extensions sound.** It registers hooks of its own extension only, and
what is unloaded or could not be loaded leaves none. -/
theorem Sound.call (sound : before.Sound foreign)
    (fits : (Occurrence.call made).Fits foreign before) :
    ((Occurrence.call made).next before).Sound foreign := by
  obtain ⟨_, small, moment⟩ := id fits
  rw [Occurrence.next]
  by_cases unloads : made.occasion = .unload
  · rw [if_pos unloads]
    exact {
      distinct := sound.distinct.erase _
      small := fun name member => sound.small name (List.mem_of_mem_erase member)
      owned := sound.owned_left fits
        (fun name present other => (List.mem_erase_of_ne other).mpr present)
        fun kept => by simp [Call.clears, unloads] at kept }
  rw [if_neg unloads]
  by_cases loads : made.loads = true
  · have occasion : made.occasion = .load := by
      rw [Call.loads, Bool.and_eq_true, beq_iff_eq] at loads
      exact loads.1
    have absent := (moment.resolve_right fun other => other.1 occasion).2
    rw [if_pos loads]
    exact {
      distinct := List.nodup_append.mpr ⟨sound.distinct, List.nodup_singleton _, by grind⟩
      small := List.forall_mem_append.mpr ⟨sound.small, List.forall_mem_singleton.mpr small⟩
      owned := sound.owned_left fits (fun name present _ => List.mem_append_left _ present)
        fun _ => List.mem_append_right _ List.mem_cons_self }
  rw [if_neg loads]
  refine ⟨sound.distinct, sound.small, sound.owned_left fits (fun name present _ => present)
    fun kept => ?_⟩
  -- a call that is to load the extension either does or is cleared away
  have occasion : made.occasion ≠ .load := by
    intro occasion
    simp only [Call.loads, Call.clears, occasion] at loads kept
    simp_all
  exact (moment.resolve_left fun other => occasion other.1).2

/-- Hooks and extensions stay sound along all that occurs. -/
theorem Sound.leads {occurrences : List (Occurrence σ)} (sound : before.Sound foreign)
    (leads : Occurrence.Leads foreign before occurrences after) : after.Sound foreign := by
  induction occurrences generalizing before with
  | nil =>
      obtain rfl := leads
      exact sound
  | cons occurrence rest ih =>
      refine ih ?_ leads.2
      cases occurrence with
      | call made => exact sound.call leads.1
      | order pipeline operation => exact sound.order leads.1

end Standing

namespace Host

variable {host start : Host σ} {name : String}

/-- A host on a new pipeline, with nothing loaded. -/
structure Unused (host : Host σ) : Prop where
  made : ∃ store protocol limits world,
    (Pipeline.new store protocol limits world).1 = .ok host.pipeline
  loaded : host.loaded = []

/-- An unused host has no hooks. -/
theorem Unused.table (unused : start.Unused) : start.pipeline.table = .empty := by
  obtain ⟨store, protocol, limits, world, made⟩ := unused.made
  exact Pipeline.table_of_new made

/-- An unused host is sound. -/
theorem Unused.sound (unused : start.Unused) : start.standing.Sound foreign := by
  rw [standing, unused.table, loadedNames, unused.loaded]
  exact ⟨List.nodup_nil, List.forall_mem_nil _, List.forall_mem_nil _⟩

/-- Whatever is done with an unused host, its hooks and extensions are sound. -/
theorem sound_run (unused : start.Unused) (operations : List (Operation σ)) :
    (start.run operations).standing.Sound (foreignNames operations) :=
  unused.sound.leads (leads_history operations start (mem_foreignNames operations))

/-- Nothing is left of an extension: it is not loaded, there is no hook of it but such as the
program around the host has registered, and it has no timers, so that none of them fires. -/
structure Gone (foreign : List String) (host : Host σ) (name : String) : Prop where
  unloaded : name ∉ host.loadedNames
  hooks : ∀ entry ∈ host.pipeline.table.registered, entry.2.owner = some name → name ∈ foreign
  timers : host.activeTimers name = 0
  silent : ∀ now made, .call made ∈ host.polling now → made.name ≠ name

/-- In a sound host nothing is left of an extension that is not loaded. -/
theorem gone_of_notMem (sound : host.standing.Sound foreign)
    (absent : Text.toSmall name ∉ host.loadedNames) : Gone foreign host (Text.toSmall name) where
  unloaded := absent
  hooks entry member owned := (sound.owned entry member _ owned).resolve_left absent
  timers := by
    rw [← Text.toSmall_toSmall, ← loaded?_eq_none] at absent
    rw [activeTimers, absent]
    rfl
  silent now made fires same := absent (same ▸ mem_loadedNames_of_polling fires)

/-- An extension that could not be loaded is not loaded. -/
theorem notMem_of_load_error {error : HostError} (failed : (host.load name).1 = .error error) :
    Text.toSmall name ∉ (host.load name).2.loadedNames := by
  rw [load] at failed ⊢
  by_cases present : host.isLoaded (Text.toSmall name) = true
  · rw [if_pos present] at failed
    cases failed
  simp only [if_neg present] at failed ⊢
  rw [isLoaded_iff, Text.toSmall_toSmall] at present
  cases known : host.info? (Text.toSmall name) with
  | none => exact present
  | some info =>
      simp only [known] at failed ⊢
      cases made : host.catalog.find? (Text.toSmall name) with
      | none => exact present
      | some make =>
          simp only [made] at failed ⊢
          split at failed
          next => cases failed
          next => exact present

/-- After an extension was unloaded it is not loaded if it is installed, however that went. -/
theorem loadedNames_unload (distinct : host.loadedNames.Nodup) (name : String) :
    (host.unload name).2.loadedNames = host.loadedNames.filter
      fun other => !(other == Text.toSmall name && host.isInstalled name) := by
  have known : host.isInstalled name = (host.info? (Text.toSmall name)).isSome := by
    rw [isInstalled, info?_toSmall]
  rw [unload, known]
  cases host.info? (Text.toSmall name) with
  | none =>
      refine (List.filter_eq_self.mpr fun other _ => ?_).symm
      rw [Option.isSome_none, Bool.and_false, Bool.not_false]
  | some info =>
      simp only [Option.isSome_some, Bool.and_true]
      cases found : host.loaded? (Text.toSmall name) with
      | none =>
          rw [loaded?_eq_none, Text.toSmall_toSmall] at found
          refine (List.filter_eq_self.mpr fun other member => ?_).symm
          rw [Bool.not_eq_true', beq_eq_false_iff_ne]
          exact fun same => found (same ▸ member)
      | some module =>
          have erased : (host.loaded.eraseP (·.name == Text.toSmall name)).map (·.name) =
              host.loadedNames.filter fun other => !(other == Text.toSmall name) := by
            rw [map_eraseP_loaded, distinct.erase_eq_filter]
            rfl
          dsimp only
          split
          next => exact erased
          next => exact erased

/-- An installed extension that was unloaded is not loaded any more, however that went. -/
theorem notMem_unload (distinct : host.loadedNames.Nodup)
    (installed : host.isInstalled name = true) :
    Text.toSmall name ∉ (host.unload name).2.loadedNames := by
  rw [loadedNames_unload distinct, List.mem_filter, installed, beq_self_eq_true]
  exact fun present => Bool.false_ne_true present.2

/-! ## Reloading -/

/-- Unload an extension and load it again, without its state. -/
def restart (host : Host σ) (name : String) : Answer σ Unit :=
  match host.unload name with
  | (.ok (), host) => host.load name
  | refused => refused

/-- The state of a loaded extension can be asked for. -/
theorem saveState_of_isLoaded (present : host.isLoaded name = true) :
    ∃ saved, (host.saveState name).1 = .ok saved := by
  rw [← isLoaded_toSmall, isLoaded, Option.isSome_iff_exists] at present
  obtain ⟨module, found⟩ := present
  rw [saveState]
  simp only [found]
  split
  next payload _ => exact ⟨payload.map (⟨Text.toSmall name, module.extension.stateFormat, ·⟩), rfl⟩
  next => exact ⟨none, rfl⟩

theorem restart_toSmall (host : Host σ) (name : String) :
    host.restart (Text.toSmall name) = host.restart name := by
  simp only [restart, unload, load, Text.toSmall_toSmall]

theorem saveState_toSmall (host : Host σ) (name : String) :
    host.saveState (Text.toSmall name) = host.saveState name := by
  simp only [saveState, Text.toSmall_toSmall]

/-- A reload whose first steps fail ends with them. -/
theorem reload_of_restart_error {info : ExtensionInfo} {error : HostError}
    (known : host.info? name = some info) (reloadable : info.reloadable = true)
    (present : host.isLoaded name = true)
    (refused : ((host.saveState name).2.restart name).1 = .error error) :
    host.reload name = (.error error,
      ((host.saveState name).2.restart name).2.complain "reload failed" info.printable) := by
  obtain ⟨saved, ended⟩ := saveState_of_isLoaded present
  rcases saving : host.saveState name with ⟨_, kept⟩
  rw [saving] at refused ended
  obtain rfl : _ = Except.ok saved := ended
  rcases restarted : kept.restart name with ⟨_, after⟩
  rw [restarted] at refused
  obtain rfl : _ = Except.error error := refused
  rw [← restart_toSmall, restart] at restarted
  simp only [reload, info?_toSmall, known, reloadable, isLoaded_toSmall, present,
    saveState_toSmall, saving, Bool.not_true, Bool.false_eq_true, if_false]
  rcases unloaded : kept.unload (Text.toSmall name) with ⟨_ | _, left⟩
  all_goals simp only [unloaded] at restarted ⊢
  · cases restarted
    rfl
  · rw [restarted]

/-! ## All histories -/

/-- What holds of the hooks and the extensions of a host. An extension that could not be loaded is
gone; so is one that was unloaded, however that went, unless it was refused because the extension is
not installed, and one that could not be unloaded or loaded when it was to be reloaded. -/
structure Housed (foreign : List String) (host : Host σ) : Prop where
  distinct : host.loadedNames.Nodup
  owned : ∀ entry ∈ host.pipeline.table.registered, ∀ owner, entry.2.owner = some owner →
    owner ∈ host.loadedNames ∨ owner ∈ foreign
  load : ∀ name error, (host.load name).1 = .error error →
    Gone foreign (host.load name).2 (Text.toSmall name)
  unload : ∀ name, (host.unload name).1 ≠ .error (.notInstalled (Text.toSmall name)) →
    Gone foreign (host.unload name).2 (Text.toSmall name)
  reload : ∀ name info error, host.info? name = some info → info.reloadable = true →
    host.isLoaded name = true → ((host.saveState name).2.restart name).1 = .error error →
    (host.reload name).1 = .error error ∧ Gone foreign (host.reload name).2 (Text.toSmall name)

/-- What is not refused as not installed is installed. -/
theorem isInstalled_of_unload
    (accepted : (host.unload name).1 ≠ .error (.notInstalled (Text.toSmall name))) :
    host.isInstalled name = true := by
  by_contra missing
  rw [isInstalled, Option.not_isSome_iff_eq_none, ← info?_toSmall] at missing
  apply accepted
  rw [Host.unload]
  simp only [missing]

/-- A sound host is sound when an extension was unloaded and loaded again. -/
theorem sound_restart (sound : host.standing.Sound foreign) (name : String) :
    (host.restart name).2.standing.Sound foreign := by
  have first := sound.leads (leads_unload foreign host name)
  rw [restart]
  rcases unloaded : host.unload name with ⟨_ | _, left⟩
  all_goals rw [unloaded] at first
  · exact first
  · exact first.leads (leads_load foreign left name)

/-- An installed extension that could not be unloaded and loaded again is not loaded any more. -/
theorem notMem_of_restart_error {error : HostError} (distinct : host.loadedNames.Nodup)
    (installed : host.isInstalled name = true) (failed : (host.restart name).1 = .error error) :
    Text.toSmall name ∉ (host.restart name).2.loadedNames := by
  have absent := notMem_unload distinct installed
  rw [restart] at failed ⊢
  rcases unloaded : host.unload name with ⟨_ | _, left⟩
  all_goals rw [unloaded] at absent failed
  · exact absent
  · exact notMem_of_load_error failed

/-- To save a state does not change what is installed. -/
theorem isInstalled_saveState (host : Host σ) (name other : String) :
    (host.saveState name).2.isInstalled other = host.isInstalled other := by
  rw [saveState]
  dsimp only
  split
  next => rfl
  next => split <;> rfl

/-- In a sound host every hook belongs to an extension that is loaded. -/
theorem housed_of_sound (sound : host.standing.Sound foreign) : Housed foreign host where
  distinct := sound.distinct
  owned := sound.owned
  load name _ failed :=
    gone_of_notMem (sound.leads (leads_load foreign host name)) (notMem_of_load_error failed)
  unload name accepted :=
    gone_of_notMem (sound.leads (leads_unload foreign host name))
      (notMem_unload sound.distinct (isInstalled_of_unload accepted))
  reload name info error known reloadable present failed := by
    have kept : (host.saveState name).2.standing.Sound foreign := by
      rw [leads_saveState]
      exact sound
    have installed : (host.saveState name).2.isInstalled name = true := by
      rw [isInstalled_saveState, isInstalled, known]
      rfl
    rw [reload_of_restart_error known reloadable present failed]
    exact ⟨rfl, gone_of_notMem (sound_restart kept name)
      (notMem_of_restart_error kept.distinct installed failed)⟩

/-- **No hook without its extension.** Whatever is done with a host, no extension is loaded twice,
and every hook with an owner belongs to an extension that is loaded, unless the program around the
host has registered it under that name itself. Nothing is left of an extension that could not be
loaded, of one that was unloaded, also if its own part of that failed, and of one that failed to be
unloaded or to be loaded again when it was reloaded. -/
theorem housed_run (unused : start.Unused) (operations : List (Operation σ)) :
    Housed (foreignNames operations) (start.run operations) :=
  housed_of_sound (sound_run unused operations)

/-- An extension that registers a hook for all messages and sets a timer, and then is loaded as
`ending` tells. -/
def busy (ending : Except Failure Unit) : Extension Nat :=
  let callback : Callback Nat := .raw fun _ _ bytes => .done (.ok (.pass, bytes))
  ⟨.hook "*" callback .standard fun _ => .setTimer 5 true .pass fun _ => .done ending,
    .pass, 0, fun made => (made, .ok none), fun _ => .pass, none⟩

/-- A host for an extension that can be loaded once and breaks off from then on. -/
def hopeful : Host Nat :=
  .new ⟨Pipeline.unhooked.store, 1, .standard, .empty, #[], 0, 0, #[]⟩
    (Catalog.empty.register "alpha" fun made =>
      (busy (if made = 0 then .ok () else .error (.panicked "again")), made + 1)) "modules"

/-- Files with a directory for each of some extensions. -/
def treeOf (names : List String) : Files.Tree :=
  ⟨.directory [("modules", .directory (names.map fun name => (name, .empty)))], []⟩

/-- An extension that cannot be loaded a second time leaves nothing behind. -/
theorem housed_hopeful :
    hopeful.Unused ∧
      (hopeful.run [.loadAll (treeOf ["alpha"])]).loadedNames = ["alpha"] ∧
      ((hopeful.run [.loadAll (treeOf ["alpha"]), .unload "alpha"]).load "alpha").1 =
        .error (.loadFailed "alpha" (.panicked "again")) ∧
      Housed [] (hopeful.run [.loadAll (treeOf ["alpha"]), .unload "alpha"]) :=
  have unused : hopeful.Unused := ⟨⟨Pipeline.unhooked.store, 1, .standard, 0, rfl⟩, rfl⟩
  ⟨unused, by decide +kernel, by decide +kernel,
    housed_run unused [.loadAll (treeOf ["alpha"]), .unload "alpha"]⟩

end Host

end Relay
