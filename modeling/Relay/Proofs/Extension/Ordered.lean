import Relay.Proofs.Extension.Discovered
import Relay.Proofs.Extension.Parted

/-! # In which order extensions are loaded and unloaded

When all extensions are loaded, every extension that is installed and not loaded yet is attempted
once: those that are loaded on connect before those that wait for the version, core ones before
others, and otherwise in the order of their directories. How an attempt ends changes nothing about
the others. When all are unloaded, core ones are attempted last
(`Relay.Host.inOrder_loadAll_unloadAll`). -/

namespace Relay

variable {σ : Type}

/-- An attempt to load or to unload an extension, and how it ended. -/
structure Attempt where
  name : String
  ending : Except HostError Unit

namespace Attempt

/-- The extension, if the attempt went well. -/
def done? (attempt : Attempt) : Option String :=
  match attempt.ending with
  | .ok () => some attempt.name
  | .error _ => none

/-- Why the attempt failed, if it did. -/
def refusal? (attempt : Attempt) : Option HostError :=
  match attempt.ending with
  | .ok () => none
  | .error error => some error

end Attempt

namespace Host

open Occurrence

variable {host : Host σ} {name : String} {names : List String}

/-- The attempts when extensions are loaded one after the other, but for those that are loaded. -/
def loads (host : Host σ) : List String → List Attempt
  | [] => []
  | name :: rest =>
    if host.isLoaded name then host.loads rest
    else ⟨name, (host.load name).1⟩ :: (host.load name).2.loads rest

/-- The attempts when extensions are unloaded one after the other. -/
def unloads (host : Host σ) : List String → List Attempt
  | [] => []
  | name :: rest => ⟨name, (host.unload name).1⟩ :: (host.unload name).2.unloads rest

/-! ## Loading one -/

/-- What does not change when an extension is loaded. -/
theorem load_keeps (host : Host σ) (name : String) :
    (host.load name).2.installed = host.installed ∧
      (host.load name).2.catalog = host.catalog ∧ (host.load name).2.core = host.core := by
  rw [load]
  dsimp only
  split
  next => exact ⟨rfl, rfl, rfl⟩
  next =>
    split
    next => exact ⟨rfl, rfl, rfl⟩
    next =>
      split
      next => exact ⟨rfl, rfl, rfl⟩
      next => split <;> exact ⟨rfl, rfl, rfl⟩

/-- **An extension is loaded if and only if the attempt goes well.** -/
theorem loadedNames_load (absent : host.isLoaded name = false) :
    (host.load name).2.loadedNames =
      host.loadedNames ++ (Attempt.done? ⟨Text.toSmall name, (host.load name).1⟩).toList := by
  have absent' : ¬ host.isLoaded (Text.toSmall name) = true := by
    rw [isLoaded_toSmall, absent]
    exact Bool.false_ne_true
  rw [load]
  dsimp only
  rw [if_neg absent']
  cases host.info? (Text.toSmall name) with
  | none => exact (List.append_nil _).symm
  | some info =>
      cases host.catalog.find? (Text.toSmall name) with
      | none => exact (List.append_nil _).symm
      | some make =>
          dsimp only
          split
          next => exact List.map_append
          next => exact (List.append_nil _).symm

/-- An installed extension cannot be loaded if there is no implementation of it or if its own code
fails. -/
theorem blames_load (installed : host.isInstalled name = true) {error : HostError}
    (failed : (host.load name).1 = .error error) :
    error = .noImplementation (Text.toSmall name) ∨
      ∃ cause, error = .loadFailed (Text.toSmall name) cause := by
  rw [isInstalled, ← info?_toSmall, Option.isSome_iff_exists] at installed
  obtain ⟨info, known⟩ := installed
  rw [load] at failed
  dsimp only at failed
  split at failed
  next => cases failed
  next =>
    rw [known] at failed
    dsimp only at failed
    split at failed
    next =>
      cases failed
      exact .inl rfl
    next =>
      split at failed
      next => cases failed
      next cause _ _ =>
        cases failed
        exact .inr ⟨cause, rfl⟩

/-- The code of an installed extension is called to load it if there is an implementation. -/
theorem visits_loading (absent : host.isLoaded name = false)
    (installed : host.isInstalled name = true) :
    (host.loading name).map visit? =
      if (host.catalog.find? (Text.toSmall name)).isSome
      then [some (Text.toSmall name, .load)] else [] := by
  rw [isInstalled, ← info?_toSmall, Option.isSome_iff_exists] at installed
  obtain ⟨info, known⟩ := installed
  rw [loading, isLoaded_toSmall, if_neg (by rw [absent]; exact Bool.false_ne_true), known]
  cases host.catalog.find? (Text.toSmall name) with
  | none => rfl
  | some make => rfl

/-! ## Loading one after the other -/

/-- An extension that is loaded is passed over. -/
theorem loadNext_of_isLoaded (present : host.isLoaded name = true) (report : LoadReport) :
    loadNext (report, host) name = (report, host) := by
  rw [loadNext]
  exact if_pos present

/-- An extension that is not loaded is attempted, and the report tells how that ended. -/
theorem loadNext_of_not_isLoaded (absent : host.isLoaded name = false) (report : LoadReport) :
    loadNext (report, host) name =
      (⟨report.loaded ++ (Attempt.done? ⟨name, (host.load name).1⟩).toList, report.excluded,
        report.failed ++ (Attempt.refusal? ⟨name, (host.load name).1⟩).toList⟩,
        (host.load name).2) := by
  rw [loadNext, if_neg (by rw [absent]; exact Bool.false_ne_true)]
  rcases host.load name with ⟨_ | _, after⟩
  · simp [Attempt.done?, Attempt.refusal?]
  · simp [Attempt.done?, Attempt.refusal?]

theorem filterMap_cons_toList {α β : Type} (f : α → Option β) (a : α) (rest : List α) :
    (a :: rest).filterMap f = (f a).toList ++ rest.filterMap f := by
  rw [List.filterMap_cons]
  cases f a <;> rfl

/-- The report is of all attempts, in order. -/
theorem report_foldl (names : List String) (report : LoadReport) (host : Host σ) :
    (names.foldl loadNext (report, host)).1 =
      ⟨report.loaded ++ (host.loads names).filterMap Attempt.done?, report.excluded,
        report.failed ++ (host.loads names).filterMap Attempt.refusal?⟩ := by
  induction names generalizing report host with
  | nil => simp [loads]
  | cons name rest ih =>
      rw [List.foldl_cons, loads]
      cases present : host.isLoaded name with
      | true => rw [loadNext_of_isLoaded present, ih, if_pos rfl]
      | false =>
          rw [loadNext_of_not_isLoaded present, ih, if_neg Bool.false_ne_true,
            filterMap_cons_toList, filterMap_cons_toList, List.append_assoc, List.append_assoc]

/-- What is loaded grows by the attempts that go well. -/
theorem loadedNames_foldl_loadNext (small : ∀ name ∈ names, Text.toSmall name = name)
    (report : LoadReport) (host : Host σ) :
    (names.foldl loadNext (report, host)).2.loadedNames =
      host.loadedNames ++ (host.loads names).filterMap Attempt.done? := by
  induction names generalizing report host with
  | nil => simp [loads]
  | cons name rest ih =>
      rw [List.forall_mem_cons] at small
      rw [List.foldl_cons, loads]
      cases present : host.isLoaded name with
      | true => rw [loadNext_of_isLoaded present, ih small.2, if_pos rfl]
      | false =>
          rw [loadNext_of_not_isLoaded present, ih small.2, if_neg Bool.false_ne_true,
            loadedNames_load present, small.1, filterMap_cons_toList, List.append_assoc]

/-- Loading one extension does not change whether another is loaded. -/
theorem isLoaded_load (absent : host.isLoaded name = false) {other : String}
    (differs : Text.toSmall other ≠ Text.toSmall name) :
    (host.load name).2.isLoaded other = host.isLoaded other := by
  rw [Bool.eq_iff_iff, isLoaded_iff, isLoaded_iff, loadedNames_load absent, List.mem_append,
    Attempt.done?]
  split <;> simp [differs]

/-- **Every extension that is not loaded is attempted, however the attempts end.** -/
theorem names_loads (distinct : names.Nodup) (small : ∀ name ∈ names, Text.toSmall name = name)
    (host : Host σ) :
    (host.loads names).map (·.name) = names.filter (!host.isLoaded ·) := by
  induction names generalizing host with
  | nil => rfl
  | cons name rest ih =>
      rw [List.nodup_cons] at distinct
      rw [List.forall_mem_cons] at small
      rw [loads, List.filter_cons]
      cases present : host.isLoaded name with
      | true =>
          rw [if_pos rfl, ih distinct.2 small.2]
          rfl
      | false =>
          have same : ∀ other ∈ rest, (host.load name).2.isLoaded other = host.isLoaded other := by
            intro other member
            refine isLoaded_load present ?_
            rw [small.2 other member, small.1]
            exact fun same => distinct.1 (same ▸ member)
          rw [if_neg Bool.false_ne_true, List.map_cons, ih distinct.2 small.2]
          exact congrArg (name :: ·) (List.filter_congr fun other member => by
            rw [same other member])

/-- An attempt fails only if there is no implementation or the code of the extension fails. -/
theorem blames_loads (small : ∀ name ∈ names, Text.toSmall name = name)
    (installed : ∀ name ∈ names, host.isInstalled name = true) :
    ∀ attempt ∈ host.loads names, ∀ error, attempt.ending = .error error →
      error = .noImplementation attempt.name ∨ ∃ cause, error = .loadFailed attempt.name cause := by
  induction names generalizing host with
  | nil => exact List.forall_mem_nil _
  | cons name rest ih =>
      rw [List.forall_mem_cons] at small installed
      rw [loads]
      split
      next => exact ih small.2 installed.2
      next =>
        refine List.forall_mem_cons.mpr ⟨fun error failed => ?_, ih small.2 fun other member => ?_⟩
        · have blamed := blames_load installed.1 failed
          rwa [small.1] at blamed
        · rw [isInstalled, info?, (host.load_keeps name).1]
          exact installed.2 other member

/-- The code of extensions with an implementation is called, in the order of the attempts. -/
theorem visits_loads (distinct : names.Nodup) (small : ∀ name ∈ names, Text.toSmall name = name)
    (installed : ∀ name ∈ names, host.isInstalled name = true) (report : LoadReport) :
    (along (fun state name => state.2.loading name) loadNext (report, host) names).map visit? =
      (((host.loads names).map (·.name)).filter fun name => (host.catalog.find? name).isSome).map
        fun name => some (name, .load) := by
  induction names generalizing host report with
  | nil => rfl
  | cons name rest ih =>
      rw [List.nodup_cons] at distinct
      rw [List.forall_mem_cons] at small installed
      rw [along, List.map_append, loads]
      cases present : host.isLoaded name with
      | true =>
          have silent : host.loading name = [] := by
            rw [loading, isLoaded_toSmall, if_pos present]
          rw [loadNext_of_isLoaded present, ih distinct.2 small.2 installed.2, if_pos rfl, silent]
          rfl
      | false =>
          have keeps := host.load_keeps name
          rw [loadNext_of_not_isLoaded present, visits_loading present installed.1, small.1,
            ih distinct.2 small.2, keeps.2.1, if_neg Bool.false_ne_true, List.map_cons,
            List.filter_cons]
          · split <;> rfl
          · intro other member
            rw [isInstalled, info?, keeps.1]
            exact installed.2 other member

/-! ## Loading all -/

variable {discovery : Discovery} {remarks : Journal}

/-- The names of the extensions of a phase that were found and are not loaded, core ones or
others. -/
def awaiting (host : Host σ) (discovery : Discovery) (phase : LoadPhase) (core : Bool) :
    List String :=
  (discovery.installed.filter fun info =>
    info.phase == phase && host.isCore info.name == core && !host.isLoaded info.name).map (·.name)

/-- Of those that are installed, those are awaited that are not loaded yet. -/
theorem filter_namesOf (host : Host σ) (discovery : Discovery) (remarks : Journal)
    (phase : LoadPhase) (core : Bool) :
    ((host.found discovery remarks).namesOf phase core).filter (!host.isLoaded ·) =
      host.awaiting discovery phase core := by
  rw [namesOf, List.filter_map, List.filter_filter, awaiting]
  refine congrArg _ (List.filter_congr fun info _ => ?_)
  exact Bool.and_comm _ _

/-- What is not loaded yet is awaited by phase, and in every phase the core ones first. -/
theorem filter_ordered (host : Host σ) (discovery : Discovery) (remarks : Journal) :
    (host.found discovery remarks).ordered.filter (!host.isLoaded ·) =
      host.awaiting discovery .connect true ++ host.awaiting discovery .connect false ++
        host.awaiting discovery .versionCheck true ++
        host.awaiting discovery .versionCheck false := by
  simp only [ordered, List.flatMap_cons, List.flatMap_nil, List.append_nil, List.filter_append,
    filter_namesOf, List.append_assoc]

/-- Every extension that was found is in its place, once. -/
theorem ordered_perm (host : Host σ) (discovery : Discovery) (remarks : Journal) :
    (host.found discovery remarks).ordered.Perm (discovery.installed.map (·.name)) := by
  have byPhase (phase : LoadPhase) :
      ((host.found discovery remarks).namesOf phase true ++
        (host.found discovery remarks).namesOf phase false).Perm
          ((discovery.installed.filter (·.phase == phase)).map (·.name)) := by
    have apart := List.filter_append_perm (fun info : ExtensionInfo => host.isCore info.name)
      (discovery.installed.filter (·.phase == phase))
    rw [List.filter_filter, List.filter_filter] at apart
    have named := apart.map (·.name)
    rw [List.map_append] at named
    refine .trans (.of_eq ?_) named
    congr 1
    all_goals
      refine congrArg (List.map _) (List.filter_congr fun info _ => ?_)
      change (info.phase == phase && host.isCore info.name == _) = _
      cases host.isCore info.name <;> simp
  have apart := List.filter_append_perm (fun info : ExtensionInfo => info.phase == .connect)
    discovery.installed
  have others : discovery.installed.filter (fun info => !(info.phase == .connect)) =
      discovery.installed.filter (·.phase == .versionCheck) := by
    refine List.filter_congr fun info _ => ?_
    cases info.phase <;> rfl
  rw [others] at apart
  have named := apart.map (·.name)
  rw [List.map_append] at named
  refine .trans ?_ named
  simp only [ordered, List.flatMap_cons, List.flatMap_nil, List.append_nil]
  rw [← List.append_assoc]
  exact (byPhase .connect).append (byPhase .versionCheck)

/-- Of two extensions that were found in this order, the first one is a core one if they are of the
same phase and the other one is. -/
def CoreFirst (host : Host σ) (discovery : Discovery) (first second : String) : Prop :=
  ∀ info ∈ discovery.installed, ∀ other ∈ discovery.installed, info.name = first →
    other.name = second → info.phase = other.phase → host.isCore second = true →
      host.isCore first = true

/-- Of the same phase a core extension is awaited before the others. -/
theorem coreFirst_of_mem_awaiting (distinct : (discovery.installed.map (·.name)).Nodup)
    {phase later : LoadPhase} {core other : Bool}
    (fits : phase = later → other = true → core = true) :
    ∀ first ∈ host.awaiting discovery phase core, ∀ second ∈ host.awaiting discovery later other,
      host.CoreFirst discovery first second := by
  have known {name : String} {phase : LoadPhase} {core : Bool}
      (member : name ∈ host.awaiting discovery phase core) {info : ExtensionInfo}
      (listed : info ∈ discovery.installed) (named : info.name = name) :
      info.phase = phase ∧ host.isCore name = core := by
    obtain ⟨same, found, rfl⟩ := List.mem_map.mp member
    obtain ⟨found, holds⟩ := List.mem_filter.mp found
    obtain rfl := List.inj_on_of_nodup_map distinct listed found named
    simp only [Bool.and_eq_true, beq_iff_eq] at holds
    exact holds.1
  intro first member second follows info listed next found named nextNamed phases core'
  obtain ⟨phased, isCore⟩ := known member listed named
  obtain ⟨nextPhased, nextCore⟩ := known follows found nextNamed
  rw [isCore]
  exact fits (phased.symm.trans (phases.trans nextPhased)) (nextCore.symm.trans core')

/-- **In every phase core extensions are awaited first.** -/
theorem pairwise_coreFirst (distinct : (discovery.installed.map (·.name)).Nodup) :
    (host.awaiting discovery .connect true ++ host.awaiting discovery .connect false ++
      host.awaiting discovery .versionCheck true ++
      host.awaiting discovery .versionCheck false).Pairwise (host.CoreFirst discovery) := by
  have within (phase : LoadPhase) (core : Bool) :
      (host.awaiting discovery phase core).Pairwise (host.CoreFirst discovery) :=
    List.pairwise_of_forall_mem_list (coreFirst_of_mem_awaiting distinct fun _ same => same)
  simp only [List.pairwise_append, List.mem_append, or_imp, forall_and]
  refine ⟨⟨⟨within _ _, within _ _, ?_⟩, within _ _, ?_, ?_⟩, within _ _, ⟨?_, ?_⟩, ?_⟩
  all_goals exact coreFirst_of_mem_awaiting distinct (by decide)

/-- What holds of the attempts when all extensions are loaded, of which `discovery` is found. -/
structure LoadedInOrder (host : Host σ) (tree : Files.Tree) (discovery : Discovery)
    (attempts : List Attempt) (report : LoadReport) : Prop where
  directories : ∃ directories, ExtensionInfo.directories tree host.root = .ok directories ∧
    directories.Pairwise (· ≤ ·) ∧
    discovery.installed.Sublist (Discovery.described tree host.root directories)
  order : attempts.map (·.name) =
    host.awaiting discovery .connect true ++ host.awaiting discovery .connect false ++
      host.awaiting discovery .versionCheck true ++ host.awaiting discovery .versionCheck false
  each : ∀ name, name ∈ attempts.map (·.name) ↔
    name ∈ discovery.installed.map (·.name) ∧ host.isLoaded name = false
  once : (attempts.map (·.name)).Nodup
  coreFirst : (attempts.map (·.name)).Pairwise (host.CoreFirst discovery)
  loaded : report.loaded = attempts.filterMap Attempt.done?
  failed : report.failed = attempts.filterMap Attempt.refusal?
  excluded : report.excluded = discovery.excluded
  blames : ∀ attempt ∈ attempts, ∀ error, attempt.ending = .error error →
    error = .noImplementation attempt.name ∨ ∃ cause, error = .loadFailed attempt.name cause
  grows : (host.loadAll tree).2.loadedNames = host.loadedNames ++ report.loaded
  calls : (host.loadingAll tree).map visit? =
    ((attempts.map (·.name)).filter fun name => (host.catalog.find? name).isSome).map
      fun name => some (name, .load)

/-- What is found is loaded one after the other, in order. -/
theorem loadAll_of_run {tree : Files.Tree}
    (found : Discovery.run tree host.root (some host.pipeline.store) host.supportUrl =
      .ok (discovery, remarks)) :
    host.loadAll tree =
      let ended := (host.found discovery remarks).ordered.foldl loadNext
        (⟨[], discovery.excluded, []⟩, host.found discovery remarks)
      (.ok ended.1, ended.2) := by
  rw [loadAll, found]
  rfl

/-- **All that was found and is not loaded yet is attempted in order.** -/
theorem loadedInOrder_of_run {tree : Files.Tree}
    (found : Discovery.run tree host.root (some host.pipeline.store) host.supportUrl =
      .ok (discovery, remarks)) :
    ∃ report, (host.loadAll tree).1 = .ok report ∧
      host.LoadedInOrder tree discovery
        ((host.found discovery remarks).loads (host.found discovery remarks).ordered) report := by
  have named := Discovery.named_run found
  have perm := host.ordered_perm discovery remarks
  have distinct := perm.nodup_iff.mpr named.distinct
  have small : ∀ name ∈ (host.found discovery remarks).ordered, Text.toSmall name = name := by
    intro name member
    obtain ⟨info, listed, rfl⟩ := List.mem_map.mp (perm.subset member)
    exact named.small info listed
  have installed : ∀ name ∈ (host.found discovery remarks).ordered,
      (host.found discovery remarks).isInstalled name = true := by
    intro name member
    obtain ⟨info, listed, same⟩ := List.mem_map.mp (perm.subset member)
    rw [isInstalled, info?, List.find?_isSome]
    exact ⟨info, listed, by rw [small name member, same, beq_self_eq_true]⟩
  have names := names_loads distinct small (host.found discovery remarks)
  rw [loadAll_of_run found]
  refine ⟨_, rfl, ?_⟩
  constructor
  case directories => exact Discovery.sublist_run found
  case order => exact names.trans (host.filter_ordered discovery remarks)
  case each =>
    intro name
    rw [names, List.mem_filter, perm.mem_iff, Bool.not_eq_true']
    rfl
  case once =>
    rw [names]
    exact distinct.filter _
  case coreFirst =>
    rw [names]
    exact (host.filter_ordered discovery remarks).symm ▸ pairwise_coreFirst named.distinct
  case loaded =>
    rw [report_foldl]
    exact List.nil_append _
  case failed =>
    rw [report_foldl]
    exact List.nil_append _
  case excluded => rw [report_foldl]
  case blames => exact blames_loads small installed
  case grows =>
    rw [loadAll_of_run found, report_foldl, List.nil_append]
    exact loadedNames_foldl_loadNext small _ _
  case calls =>
    rw [loadingAll, found]
    exact visits_loads distinct small installed _

/-! ## Unloading all -/

/-- Every extension that is to be unloaded is attempted. -/
theorem names_unloads (names : List String) (host : Host σ) :
    (host.unloads names).map (·.name) = names := by
  induction names generalizing host with
  | nil => rfl
  | cons name rest ih => rw [unloads, List.map_cons, ih]

/-- All attempts that go well are counted. -/
theorem count_foldl_unloadNext (names : List String) (count : Nat) (host : Host σ) :
    (names.foldl unloadNext (count, host)).1 =
      count + ((host.unloads names).filterMap Attempt.done?).length := by
  induction names generalizing count host with
  | nil => rfl
  | cons name rest ih =>
      rw [List.foldl_cons, unloads, unloadNext]
      rcases unloaded : host.unload name with ⟨_ | _, after⟩
      · rw [ih]
        rfl
      · rw [ih, filterMap_cons_toList, List.length_append, ← Nat.add_assoc]
        rfl

/-- What holds of the attempts when all extensions are unloaded. -/
structure UnloadedInOrder (host : Host σ) (attempts : List Attempt) : Prop where
  order : attempts.map (·.name) =
    host.loadedNames.filter (!host.isCore ·) ++ host.loadedNames.filter (host.isCore ·)
  runs : host.unloadAll = (attempts.map (·.name)).foldl unloadNext (0, host)
  leads : ∀ foreign,
    Leads foreign host.standing host.unloadingAll host.unloadAll.2.standing
  count : host.unloadAll.1 = (attempts.filterMap Attempt.done?).length
  calls : host.loadedNames.Nodup → (∀ name ∈ host.loadedNames, Text.toSmall name = name) →
    host.unloadingAll.map visit? =
      ((attempts.map (·.name)).filter host.isInstalled).map fun name => some (name, .unload)

/-- **All that is loaded is attempted to be unloaded in order.** -/
theorem unloadedInOrder (host : Host σ) :
    host.UnloadedInOrder (host.unloads host.parting) where
  order := names_unloads _ _
  runs := by rw [names_unloads, unloadAll_eq]
  leads foreign := leads_unloadAll foreign host
  count := by rw [unloadAll_eq, count_foldl_unloadNext, Nat.zero_add]
  calls := by
    intro distinct small
    have perm := host.parting_perm
    rw [names_unloads]
    exact visits_along (0, host) distinct (perm.nodup_iff.mpr distinct)
      (fun name member => small name (perm.subset member)) fun name member => perm.subset member

/-- **Extensions are loaded and unloaded in order.** When all are loaded, those are attempted that
were found and are not loaded, each once: by phase, in every phase the core ones first, and
otherwise by their directories. The report tells how each attempt ended, in order, and what was
loaded is loaded then; no attempt depends on how those before it end. When all are unloaded, core
ones are attempted last, and otherwise in the order in which they were loaded. -/
theorem inOrder_loadAll_unloadAll (host : Host σ) (tree : Files.Tree)
    (found : Discovery.run tree host.root (some host.pipeline.store) host.supportUrl =
      .ok (discovery, remarks)) :
    (∃ report, (host.loadAll tree).1 = .ok report ∧
      host.LoadedInOrder tree discovery
        ((host.found discovery remarks).loads (host.found discovery remarks).ordered) report) ∧
      host.UnloadedInOrder (host.unloads host.parting) :=
  ⟨loadedInOrder_of_run found, host.unloadedInOrder⟩

/-- A host of which the extension without an implementation is a core one. -/
def sorted : Host Nat :=
  hopeful.withCore ["Beta"]

/-- The extensions of two directories. -/
def bothFound : Discovery :=
  ⟨["alpha", "beta"].map fun name => { ExtensionInfo.ofName name with path := "modules/" ++ name },
    []⟩

/-- Both extensions of the host are found. -/
theorem run_sorted :
    Discovery.run (treeOf ["alpha", "beta"]) sorted.root (some sorted.pipeline.store)
      sorted.supportUrl = .ok (bothFound, #[]) := by
  have listed : (treeOf ["alpha", "beta"]).list sorted.root =
      .ok [("alpha", .empty), ("beta", .empty)] := by
    have found : (treeOf ["alpha", "beta"]).find sorted.root =
        .ok (.directory [("alpha", .empty), ("beta", .empty)]) := rfl
    rw [Files.Tree.list, found]
    exact congrArg Except.ok (List.mergeSort_of_pairwise (by decide))
  have named : ExtensionInfo.directories (treeOf ["alpha", "beta"]) sorted.root =
      .ok ["alpha", "beta"] := by
    rw [ExtensionInfo.directories, listed]
    decide +kernel
  rw [Discovery.run, named]
  rfl

/-- The same host when both extensions are loaded, of which one breaks off when it is unloaded. -/
def laden : Host Nat :=
  { sorted with
    installed := bothFound.installed
    loaded := [⟨"beta", busy (.ok ()), .empty⟩,
      ⟨"alpha", { busy (.ok ()) with unload := .done (.error (.panicked "stuck")) }, .empty⟩] }

/-- Of two extensions the core one is attempted first, and the other one although that fails. When
both are unloaded the core one is attempted last, also although the other one fails. -/
theorem inOrder_sorted :
    Discovery.run (treeOf ["alpha", "beta"]) sorted.root (some sorted.pipeline.store)
      sorted.supportUrl = .ok (bothFound, #[]) ∧
    ((sorted.found bothFound #[]).loads (sorted.found bothFound #[]).ordered).map (·.name) =
      ["beta", "alpha"] ∧
    ((sorted.found bothFound #[]).loads (sorted.found bothFound #[]).ordered).filterMap
      Attempt.done? = ["alpha"] ∧
    (∃ report, (sorted.loadAll (treeOf ["alpha", "beta"])).1 = .ok report ∧
      sorted.LoadedInOrder (treeOf ["alpha", "beta"]) bothFound
        ((sorted.found bothFound #[]).loads (sorted.found bothFound #[]).ordered) report) ∧
    sorted.UnloadedInOrder (sorted.unloads sorted.parting) ∧
    (laden.unloads laden.parting).map (·.name) = ["alpha", "beta"] ∧
    laden.unloadAll.1 = 1 ∧ laden.unloadAll.2.loadedNames = [] ∧
    laden.UnloadedInOrder (laden.unloads laden.parting) := by
  obtain ⟨loaded, unloaded⟩ :=
    inOrder_loadAll_unloadAll sorted (treeOf ["alpha", "beta"]) run_sorted
  exact ⟨run_sorted, by decide +kernel, by decide +kernel, loaded, unloaded, by decide +kernel,
    by decide +kernel, by decide +kernel,
    (inOrder_loadAll_unloadAll laden (treeOf ["alpha", "beta"]) run_sorted).2⟩

end Host

end Relay
