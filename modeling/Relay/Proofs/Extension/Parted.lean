import Relay.Proofs.Extension.Housed

/-! # What is left when all extensions are unloaded

When all extensions are unloaded, each that is loaded and still installed is called once to unload
it, and none is left of these. An extension that is loaded but was not found any more when the
extensions were found again is left as it is, with its hooks and its timers
(`Relay.Host.parted_run`). -/

namespace Relay

variable {σ : Type} {foreign : List String}

namespace Occurrence

variable {before after : Standing σ} {occurrences : List (Occurrence σ)}

/-- Which extension is called on which occasion. -/
def visit? : Occurrence σ → Option (String × Occasion)
  | .call made => some (made.name, made.occasion)
  | .order _ _ => none

/-- Whether an extension is loaded. -/
def loadsIt (name : String) : Occurrence σ → Bool
  | .call made => made.loads && made.name == name
  | .order _ _ => false

/-- Whether an extension is called to unload it. -/
def unloadsIt (name : String) : Occurrence σ → Bool
  | .call made => made.occasion == .unload && made.name == name
  | .order _ _ => false

/-- An occurrence adds what it loads to what is loaded, and takes away what it unloads. -/
theorem count_next {occurrence : Occurrence σ} (fits : occurrence.Fits foreign before)
    (name : String) :
    before.names.count name + (occurrence.loadsIt name).toNat =
      (occurrence.next before).names.count name + (occurrence.unloadsIt name).toNat := by
  cases occurrence with
  | order pipeline operation => rfl
  | call made =>
      obtain ⟨_, _, moment⟩ := fits
      by_cases unloads : made.occasion = .unload
      · have present := (moment.resolve_left fun other => by simp [unloads] at other).2
        have counted := List.count_pos_iff.mpr present
        have loads : made.loads = false := by
          rw [Call.loads, unloads]
          rfl
        simp only [loadsIt, unloadsIt, next, unloads, loads, if_true, List.count_erase]
        by_cases same : made.name = name
        · subst same
          simp only [beq_self_eq_true, if_true, Bool.and_self, Bool.false_and, Bool.toNat_false,
            Bool.toNat_true]
          omega
        · simp [same]
      · by_cases loads : made.loads = true
        · simp only [loadsIt, unloadsIt, next, unloads, loads, if_true, if_false, List.count_append,
            List.count_singleton, Bool.toNat, Bool.cond_eq_ite]
          simp [unloads]
        · simp [loadsIt, unloadsIt, next, unloads, loads]

/-- **Every extension is unloaded as often as it was loaded.** What is loaded at the end has still
to be unloaded, and what was loaded at the start had not to be loaded. -/
theorem Leads.balance (leads : Leads foreign before occurrences after) (name : String) :
    before.names.count name + occurrences.countP (·.loadsIt name) =
      after.names.count name + occurrences.countP (·.unloadsIt name) := by
  induction occurrences generalizing before with
  | nil =>
      obtain rfl := leads
      rfl
  | cons occurrence rest ih =>
      have first := count_next leads.1 name
      have later := ih leads.2
      rw [List.countP_cons, List.countP_cons]
      simp only [Bool.toNat, Bool.cond_eq_ite] at first
      omega

end Occurrence

namespace Host

open Occurrence

variable {host start : Host σ} {name : String} {names : List String}

/-! ## Unloading one after the other -/

/-- To unload an extension does not change what is installed. -/
theorem isInstalled_unload (host : Host σ) (name other : String) :
    (host.unload name).2.isInstalled other = host.isInstalled other := by
  rw [unload]
  dsimp only
  split
  next => rfl
  next =>
    split
    next => rfl
    next => split <;> rfl

/-- A loaded extension is called to unload it if it is installed. -/
theorem visit_unloading (small : Text.toSmall name = name) (present : name ∈ host.loadedNames) :
    (host.unloading name).map visit? =
      if host.isInstalled name then [some (name, .unload)] else [] := by
  rw [← small, ← isLoaded_iff, isLoaded, Option.isSome_iff_exists] at present
  obtain ⟨module, found⟩ := present
  have named := (loaded?_eq_some found).2.1
  rw [unloading, isInstalled]
  simp only [small, found]
  rw [small] at named
  cases host.info? name with
  | none => rfl
  | some info => simp [callOf, visit?, named]

/-- As part of unloading all an extension is unloaded as it is alone. -/
theorem unloadNext_snd (state : Nat × Host σ) (name : String) :
    (unloadNext state name).2 = (state.2.unload name).2 := by
  rw [unloadNext]
  rcases state.2.unload name with ⟨_ | _, _⟩ <;> rfl

/-- Of the extensions that are unloaded one after the other those are gone that are installed. -/
theorem loadedNames_foldl (state : Nat × Host σ) (distinct : state.2.loadedNames.Nodup)
    (small : ∀ name ∈ names, Text.toSmall name = name) :
    (names.foldl unloadNext state).2.loadedNames = state.2.loadedNames.filter
      fun other => !(names.contains other && state.2.isInstalled other) := by
  induction names generalizing state with
  | nil => exact (List.filter_eq_self.mpr fun _ _ => rfl).symm
  | cons name rest ih =>
      rw [List.forall_mem_cons] at small
      have first := loadedNames_unload distinct name
      rw [small.1] at first
      have after : (unloadNext state name).2.loadedNames.Nodup := by
        rw [unloadNext_snd, first]
        exact distinct.filter _
      rw [List.foldl_cons, ih _ after small.2, unloadNext_snd, first, List.filter_filter]
      refine List.filter_congr fun other _ => ?_
      rw [isInstalled_unload, List.contains_cons]
      by_cases same : other = name
      · subst same
        cases rest.contains other <;> cases state.2.isInstalled other <;> simp
      · have differs : (other == name) = false := beq_eq_false_iff_ne.mpr same
        simp [differs]

/-- Extensions that are loaded are called to unload them one after the other, if installed. -/
theorem visits_along (state : Nat × Host σ) (distinct : state.2.loadedNames.Nodup)
    (once : names.Nodup) (small : ∀ name ∈ names, Text.toSmall name = name)
    (loaded : ∀ name ∈ names, name ∈ state.2.loadedNames) :
    (along (fun state name => state.2.unloading name) unloadNext state names).map visit? =
      (names.filter state.2.isInstalled).map fun name => some (name, .unload) := by
  induction names generalizing state with
  | nil => rfl
  | cons name rest ih =>
      rw [List.forall_mem_cons] at small loaded
      rw [List.nodup_cons] at once
      have first := loadedNames_unload distinct name
      rw [small.1] at first
      have later : ∀ other ∈ rest, other ∈ (unloadNext state name).2.loadedNames := by
        intro other member
        rw [unloadNext_snd, first, List.mem_filter]
        refine ⟨loaded.2 other member, ?_⟩
        have differs : other ≠ name := fun same => once.1 (same ▸ member)
        simp [differs]
      have same : (unloadNext state name).2.isInstalled = state.2.isInstalled := by
        funext other
        rw [unloadNext_snd, isInstalled_unload]
      have after : (unloadNext state name).2.loadedNames.Nodup := by
        rw [unloadNext_snd, first]
        exact distinct.filter _
      rw [along, List.map_append, visit_unloading small.1 loaded.1, ih _ after once.2 small.2 later,
        same, List.filter_cons]
      split <;> rfl

/-! ## Unloading all -/

/-- All that is loaded is to be unloaded, once. -/
theorem parting_perm (host : Host σ) : host.parting.Perm host.loadedNames := by
  have apart := List.filter_append_perm (host.isCore ·) host.loadedNames
  exact List.perm_append_comm.trans apart

/-- What is left when all extensions are unloaded, where `history` has led to the host: those that
are not installed any more, with their hooks and their timers. The others are called once each, and
over the whole history every extension is called to unload it as often as it was loaded, but for
those that are left. -/
structure Parted (foreign : List String) (history : List (Occurrence σ)) (host : Host σ) :
    Prop where
  visits : host.unloadingAll.map visit? =
    (host.parting.filter host.isInstalled).map fun name => some (name, .unload)
  names : host.unloadAll.2.loadedNames = host.loadedNames.filter (!host.isInstalled ·)
  owned : ∀ entry ∈ host.unloadAll.2.pipeline.table.registered, ∀ owner,
    entry.2.owner = some owner → owner ∈ host.unloadAll.2.loadedNames ∨ owner ∈ foreign
  silent : ∀ now made, .call made ∈ host.unloadAll.2.polling now →
    made.name ∈ host.unloadAll.2.loadedNames
  balance : ∀ name, (history ++ host.unloadingAll).countP (·.loadsIt name) =
    host.unloadAll.2.loadedNames.count name +
      (history ++ host.unloadingAll).countP (·.unloadsIt name)

/-- If all that is loaded is still installed, nothing is left. -/
theorem Parted.nothing_left {history : List (Occurrence σ)} (parted : Parted foreign history host)
    (known : ∀ name ∈ host.loadedNames, host.isInstalled name = true) :
    host.unloadAll.2.loadedNames = [] ∧
      (∀ entry ∈ host.unloadAll.2.pipeline.table.registered, ∀ owner,
        entry.2.owner = some owner → owner ∈ foreign) ∧
      (∀ now, (host.unloadAll.2.pollTimers now).1 = 0) ∧
      ∀ name, (history ++ host.unloadingAll).countP (·.loadsIt name) =
        (history ++ host.unloadingAll).countP (·.unloadsIt name) := by
  have none : host.unloadAll.2.loadedNames = [] := by
    rw [parted.names, List.filter_eq_nil_iff]
    intro name member
    rw [known name member]
    exact Bool.false_ne_true
  refine ⟨none, fun entry member owner owned => ?_, fun now => ?_, fun name => ?_⟩
  · have left := parted.owned entry member owner owned
    rw [none] at left
    exact left.resolve_left List.not_mem_nil
  · rw [pollTimers, none]
    rfl
  · have balance := parted.balance name
    rwa [none, List.count_nil, Nat.zero_add] at balance

/-- **Unloading all leaves what is not installed any more, and nothing else.** An extension that is
loaded, but was not found when the extensions were last found, is refused to be unloaded. Every
other one that is loaded is called to unload it, once. -/
theorem parted_run (unused : start.Unused) (operations : List (Operation σ)) :
    Parted (foreignNames operations) (start.history operations) (start.run operations) := by
  have leads := leads_history operations start (mem_foreignNames operations)
  have sound := sound_run unused operations
  generalize start.run operations = host at leads sound
  have final := leads_unloadAll (foreignNames operations) host
  have parting := host.parting_perm
  have small : ∀ name ∈ host.parting, Text.toSmall name = name :=
    fun name member => sound.small name (parting.subset member)
  constructor
  case visits =>
    exact visits_along (0, host) sound.distinct (parting.nodup_iff.mpr sound.distinct) small
      fun _ member => parting.subset member
  case names =>
    rw [unloadAll_eq, loadedNames_foldl (0, host) sound.distinct small]
    refine List.filter_congr fun name member => ?_
    have listed : host.parting.contains name = true :=
      List.contains_iff_mem.mpr (parting.symm.subset member)
    rw [listed, Bool.true_and]
  case owned => exact (sound.leads final).owned
  case silent => exact fun _ _ => mem_loadedNames_of_polling
  case balance =>
    intro name
    have counted := (leads.append final).balance name
    have none : start.standing.names.count name = 0 := by
      rw [standing, loadedNames, unused.loaded]
      rfl
    rw [none, Nat.zero_add] at counted
    exact counted

/-- Nothing is left of the one extension that is loaded and still installed. -/
theorem parted_hopeful :
    hopeful.Unused ∧
      (hopeful.run [.loadAll (treeOf ["alpha"])]).loadedNames = ["alpha"] ∧
      (hopeful.run [.loadAll (treeOf ["alpha"])]).unloadAll.2.loadedNames = [] ∧
      Parted [] (hopeful.history [.loadAll (treeOf ["alpha"])])
        (hopeful.run [.loadAll (treeOf ["alpha"])]) :=
  have unused : hopeful.Unused := ⟨⟨Pipeline.unhooked.store, 1, .standard, 0, rfl⟩, rfl⟩
  ⟨unused, by decide +kernel, by decide +kernel, parted_run unused [.loadAll (treeOf ["alpha"])]⟩

/-- A host of which an extension has lost its directory when the extensions are found again. -/
def vanished : Host Nat :=
  hopeful.run [.loadAll (treeOf ["alpha"]), .loadAll (treeOf [])]

/-- When all extensions are unloaded, the one without its directory is not called. It stays loaded,
its hook stays registered, and its timer fires. -/
theorem unloadAll_vanished :
    vanished.loadedNames = ["alpha"] ∧ vanished.unloadAll.1 = 0 ∧ vanished.unloadingAll.length = 0 ∧
      vanished.unloadAll.2.loadedNames = ["alpha"] ∧
      vanished.unloadAll.2.pipeline.table.countOwnedBy "alpha" = 1 ∧
      (vanished.unloadAll.2.pollTimers 5).1 = 1 := by
  decide +kernel

end Host

end Relay
