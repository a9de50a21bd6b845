import Relay.Extension.Discovery
import Relay.Extension.Timers
import Relay.Text.Quoted

/-! # The host of extensions

The host finds the extensions below a directory and runs them on the pipeline of one connection:
core extensions are loaded first and unloaded last. Whatever an extension does, when it is unloaded
or could not be loaded its hooks are gone. -/

namespace Relay

/-- An extension that is loaded. -/
structure Loaded (σ : Type) where
  name : String
  extension : Extension σ
  timers : Timers σ

/-- The implementations of extensions by their names in small letters. Each use makes a new one. -/
structure Catalog (σ : Type) where
  makers : List (String × (σ → Extension σ × σ))

namespace Catalog

/-- No implementations. -/
def empty : Catalog σ := ⟨[]⟩

/-- Register an implementation in place of one of the same name. -/
def register (catalog : Catalog σ) (name : String) (make : σ → Extension σ × σ) : Catalog σ :=
  let name := Text.toSmall name
  ⟨catalog.makers.filter (fun (other, _) => other != name) ++ [(name, make)]⟩

/-- The implementation under a name. -/
def find? (catalog : Catalog σ) (name : String) : Option (σ → Extension σ × σ) :=
  catalog.makers.lookup (Text.toSmall name)

/-- The registered names, ascending. -/
def names (catalog : Catalog σ) : List String :=
  (catalog.makers.map Prod.fst).mergeSort fun x y => decide (x ≤ y)

/-- What an operator sees of a catalog. -/
def text (catalog : Catalog σ) : String :=
  s!"ExtensionCatalog \x7b modules: {Text.quotedList catalog.names} \x7d"

end Catalog

/-- The state of a host. Times are in milliseconds since it was made. -/
structure Host (σ : Type) where
  pipeline : Pipeline σ
  catalog : Catalog σ
  root : String
  core : List String
  supportUrl : Option String
  installed : List ExtensionInfo
  loaded : List (Loaded σ)
  now : Nat

/-- What came of loading all extensions. -/
structure LoadReport where
  loaded : List String
  excluded : List HostError
  failed : List HostError

/-- What a routine works on: the pipeline, and the timers of its extension. -/
structure Stage (σ : Type) where
  pipeline : Pipeline σ
  timers : Timers σ

namespace Routine

/-- Run a routine of the extension `name` next to other loaded extensions. -/
def run (name : String) (now : Nat) (peers : List (Loaded σ)) :
    Routine σ → Stage σ → Except Failure Unit × Stage σ
  | .done ending, stage => (ending, stage)
  | .world change next, stage =>
    let state := change stage.pipeline.world
    (next state).run name now peers
      { stage with pipeline := { stage.pipeline with world := state } }
  | .hook target callback options next, stage =>
    let (result, pipeline) := stage.pipeline.hook (some name) target callback options
    (next result).run name now peers { stage with pipeline := pipeline }
  | .unhook handle next, stage =>
    let (removed, pipeline) := stage.pipeline.unhookOwned name handle
    (next removed).run name now peers { stage with pipeline := pipeline }
  | .write direction message version object next, stage =>
    let (result, pipeline) := stage.pipeline.write direction message version object
    (next result).run name now peers { stage with pipeline := pipeline }
  | .isLoaded other next, stage =>
    (next (peers.any (·.name == Text.toSmall other))).run name now peers stage
  | .require other next, stage =>
    let found := peers.find? (·.name == Text.toSmall other)
    (next (found.bind (·.extension.exposure))).run name now peers stage
  | .setTimer delay repeats callback next, stage =>
    let (id, running) :=
      stage.timers.insert (now + delay) (if repeats then some delay else none) callback
    (next id).run name now peers { stage with timers := running }
  | .clearTimer id next, stage =>
    let (cleared, running) := stage.timers.clear id
    (next cleared).run name now peers { stage with timers := running }
  | .clearTimers next, stage =>
    let (count, running) := stage.timers.clearAll
    (next count).run name now peers { stage with timers := running }
  | .timers next, stage => (next stage.timers.ids).run name now peers stage
  | .scene next, stage =>
    (next ⟨name, stage.pipeline.store, stage.pipeline.protocol, now⟩).run name now peers stage
  | .remark entry next, stage =>
    next.run name now peers { stage with pipeline := stage.pipeline.remark entry }

end Routine

namespace Host

/-- The core extensions, unless others are named. -/
def standardCore : List String := ["command", "tera-game-state"]

/-- A host for the extensions below a directory. -/
def new (pipeline : Pipeline σ) (catalog : Catalog σ) (root : String) : Host σ :=
  ⟨pipeline, catalog, root, standardCore, none, [], [], 0⟩

/-- Name the core extensions. -/
def withCore (host : Host σ) (names : List String) : Host σ :=
  { host with core := names.map Text.toSmall }

/-- Name whom to ask about extensions that do not say it themselves. -/
def withSupportUrl (host : Host σ) (url : Option String) : Host σ :=
  { host with supportUrl := url }

/-- What is known of an installed extension. -/
def info? (host : Host σ) (name : String) : Option ExtensionInfo :=
  host.installed.find? (·.name == Text.toSmall name)

/-- Whether an extension is installed. -/
def isInstalled (host : Host σ) (name : String) : Bool :=
  (host.info? name).isSome

/-- The loaded extension of a name. -/
def loaded? (host : Host σ) (name : String) : Option (Loaded σ) :=
  host.loaded.find? (·.name == Text.toSmall name)

/-- Whether an extension is loaded. -/
def isLoaded (host : Host σ) (name : String) : Bool :=
  (host.loaded? name).isSome

/-- Whether an extension is a core one. -/
def isCore (host : Host σ) (name : String) : Bool :=
  host.core.contains (Text.toSmall name)

/-- The names of the loaded extensions in load order. -/
def loadedNames (host : Host σ) : List String :=
  host.loaded.map (·.name)

/-- The number of timers of an extension. -/
def activeTimers (host : Host σ) (name : String) : Nat :=
  (host.loaded? name).elim 0 (·.timers.size)

/-- What a loaded extension shows to others. -/
def exposure? (host : Host σ) (name : String) : Option Nat :=
  (host.loaded? name).bind (·.extension.exposure)

/-- Note a remark. -/
def remark (host : Host σ) (entry : Entry) : Host σ :=
  { host with pipeline := host.pipeline.remark entry }

/-- Note a failure. -/
def complain (host : Host σ) (text shown : String) (details : List (String × String) := []) :
    Host σ :=
  host.remark (.failure text (("module", shown) :: details))

/-- Tell whom to ask about an extension. -/
def referToAuthor (host : Host σ) (info : ExtensionInfo) : Host σ :=
  host.complain "please contact the module's author" info.printable
    [("support", info.support host.supportUrl)]

/-- What an operator sees of a host. -/
def text (host : Host σ) : String :=
  s!"ModuleManager \x7b root: {Text.quotedPath host.root}, installed: {host.installed.length}, " ++
    s!"loaded: {Text.quotedList host.loadedNames}, .. \x7d"

/-- A result and the host after it. -/
abbrev Answer (σ α : Type) := Except HostError α × Host σ

/-- Load an extension. One that is loaded stays as it is. -/
def load (host : Host σ) (name : String) : Answer σ Unit :=
  let name := Text.toSmall name
  if host.isLoaded name then (.ok (), host)
  else
    match host.info? name with
    | none =>
      (.error (.notInstalled name),
        host.complain "trying to load module that is not installed" name)
    | some info =>
      match host.catalog.find? name with
      | none =>
        (.error (.noImplementation name),
          host.complain "no implementation registered for module" info.printable)
      | some make =>
        let (extension, state) := make host.pipeline.world
        let stage : Stage σ := ⟨{ host.pipeline with world := state }, .empty⟩
        match extension.load.run name host.now host.loaded stage with
        | (.ok (), stage) =>
          let module : Loaded σ := ⟨name, extension, stage.timers⟩
          let host := { host with
            pipeline := stage.pipeline
            loaded := host.loaded ++ [module] }
          (.ok (), host.remark (.info "loaded module" [("module", info.printable)]))
        | (.error failure, stage) =>
          let (removed, pipeline) := stage.pipeline.unhookOwner name
          let host := { host with pipeline := pipeline }
          let host := host.complain "module could not be loaded" info.printable
            [("removed_hooks", toString removed),
              ("error", chainText (failure.messages "module"))]
          (.error (.loadFailed name failure), host.referToAuthor info)

/-- Unload an extension. It is gone afterwards even if its own part of that fails. -/
def unload (host : Host σ) (name : String) : Answer σ Unit :=
  let name := Text.toSmall name
  match host.info? name with
  | none =>
    (.error (.notInstalled name),
      host.complain "trying to unload module that is not installed" name)
  | some info =>
    match host.loaded? name with
    | none =>
      (.error (.notLoaded name),
        host.complain "trying to unload module that is not loaded" info.printable)
    | some module =>
      let peers := host.loaded.eraseP (·.name == name)
      let (ending, stage) :=
        module.extension.unload.run name host.now peers ⟨host.pipeline, module.timers⟩
      let host := { host with
        pipeline := (stage.pipeline.unhookOwner name).2
        loaded := peers }
      match ending with
      | .ok () => (.ok (), host.remark (.info "unloaded module" [("module", info.printable)]))
      | .error failure =>
        let host := host.complain "module could not be unloaded" info.printable
          [("error", chainText (failure.messages "module"))]
        (.error (.unloadFailed name failure), host.referToAuthor info)

/-- Save the state of a loaded extension. A state that cannot be saved is none. -/
def saveState (host : Host σ) (name : String) : Answer σ (Option SavedState) :=
  let name := Text.toSmall name
  match host.loaded? name with
  | none => (.error (.notLoaded name), host)
  | some module =>
    let (state, result) := module.extension.saveState host.pipeline.world
    let host := { host with pipeline := { host.pipeline with world := state } }
    match result with
    | .ok payload => (.ok (payload.map (⟨name, module.extension.stateFormat, ·⟩)), host)
    | .error failure =>
      (.ok none, host.remark (.warning "failed to save module state"
        [("module", name), ("error", chainText (failure.messages "module"))]))

/-- Replace the timers of a loaded extension. -/
def setTimers (host : Host σ) (name : String) (timers : Timers σ) : Host σ :=
  { host with loaded := host.loaded.map fun module =>
      if module.name == name then { module with timers := timers } else module }

/-- Run a routine of a loaded extension next to all others. -/
def runIn (host : Host σ) (module : Loaded σ) (timers : Timers σ) (routine : Routine σ) :
    Except Failure Unit × Timers σ × Host σ :=
  let peers := host.loaded.eraseP (·.name == module.name)
  let (ending, stage) := routine.run module.name host.now peers ⟨host.pipeline, timers⟩
  (ending, stage.timers, { host with pipeline := stage.pipeline })

/-- Hand a saved state to a loaded extension. -/
def restoreState (host : Host σ) (name : String) (state : SavedState) : Answer σ Unit :=
  let name := Text.toSmall name
  match host.loaded? name with
  | none => (.error (.notLoaded name), host)
  | some module =>
    let expected := module.extension.stateFormat
    if state.module ≠ name ∨ state.format ≠ expected then
      (.error (.stateMismatch name expected state.format),
        host.remark (.warning "discarding incompatible module state"
          [("module", name), ("state_module", state.module),
            ("expected", toString expected.toNat), ("found", toString state.format.toNat)]))
    else
      let (ending, timers, host) :=
        host.runIn module module.timers (module.extension.restore state.payload)
      let host := host.setTimers name timers
      match ending with
      | .ok () => (.ok (), host)
      | .error failure =>
        (.error (.loadFailed name failure),
          host.complain "failed to restore module state" name
            [("error", chainText (failure.messages "module"))])

/-- Unload an extension and load it again with its state. -/
def reload (host : Host σ) (name : String) : Answer σ Unit :=
  let name := Text.toSmall name
  match host.info? name with
  | none =>
    (.error (.notInstalled name),
      host.complain "trying to reload module that is not installed" name)
  | some info =>
    if !info.reloadable then
      (.error (.notReloadable name),
        host.complain "trying to reload module that does not support hot-reload" info.printable)
    else if !host.isLoaded name then
      (.error (.notLoaded name),
        host.complain "trying to reload module that is not loaded" info.printable)
    else
      match host.saveState name with
      | (.error error, host) => (.error error, host)
      | (.ok saved, host) =>
        let reloaded :=
          match host.unload name with
          | (.ok (), host) => host.load name
          | refused => refused
        match reloaded, saved with
        | (.error error, host), _ =>
          (.error error, host.complain "reload failed" info.printable)
        | (.ok (), host), none =>
          (.ok (), host.remark (.info "reloaded module" [("module", info.printable)]))
        | (.ok (), host), some state =>
          match host.restoreState name state with
          | (.error error, host) => (.error error, host)
          | (.ok (), host) =>
            (.ok (), host.remark (.info "reloaded module" [("module", info.printable)]))

/-- The installed extensions of a phase, core ones or others. -/
def namesOf (host : Host σ) (phase : LoadPhase) (core : Bool) : List String :=
  (host.installed.filter fun info => info.phase == phase && host.isCore info.name == core).map
    (·.name)

/-- Load an extension as part of loading all. -/
def loadNext (state : LoadReport × Host σ) (name : String) : LoadReport × Host σ :=
  let (report, host) := state
  if host.isLoaded name then (report, host)
  else
    match host.load name with
    | (.ok (), host) => ({ report with loaded := report.loaded ++ [name] }, host)
    | (.error error, host) => ({ report with failed := report.failed ++ [error] }, host)

/-- Find the extensions again and load those that are not loaded: by phase, and in every phase the
core ones first. -/
def loadAll (host : Host σ) (tree : Files.Tree) : Answer σ LoadReport :=
  match Discovery.run tree host.root (some host.pipeline.store) host.supportUrl with
  | .error error => (.error error, host)
  | .ok (discovery, remarks) =>
    let host := { host with
      installed := discovery.installed
      pipeline := { host.pipeline with remarks := host.pipeline.remarks ++ remarks } }
    let groups := [(LoadPhase.connect, true), (.connect, false), (.versionCheck, true),
      (.versionCheck, false)]
    let names := groups.flatMap fun (phase, core) => host.namesOf phase core
    let (report, host) := names.foldl loadNext (⟨[], discovery.excluded, []⟩, host)
    (.ok report, host)

/-- Unload all extensions, core ones last, and count those for which it went well. -/
def unloadAll (host : Host σ) : Nat × Host σ :=
  let (core, regular) := host.loadedNames.partition host.isCore
  (regular ++ core).foldl (fun (count, host) name =>
    match host.unload name with
    | (.ok (), host) => (count + 1, host)
    | (.error _, host) => (count, host)) (0, host)

/-- Fire a timer of an extension, unless it was cleared meanwhile. -/
def fire (name : String) (state : Nat × Host σ) (id : Nat) : Nat × Host σ :=
  let (count, host) := state
  match host.loaded? name with
  | none => (count, host)
  | some module =>
    match module.timers.take id with
    | none => (count, host)
    | some (timer, timers) =>
      let (ending, timers, host) := host.runIn module timers timer.callback
      let host :=
        match ending with
        | .ok () => host
        | .error failure =>
          host.complain "error running timer" name
            [("timer", toString id), ("error", chainText (failure.messages "module"))]
      (count + 1, host.setTimers name (timers.finish timer host.now))

/-- Fire the timers of an extension that are due at the beginning of its turn. -/
def fireDue (state : Nat × Host σ) (name : String) : Nat × Host σ :=
  let due := (state.2.loaded? name).elim [] fun module => module.timers.due state.2.now
  due.foldl (fire name) state

/-- Let the time be `now`, fire all timers that are due, and count them. -/
def pollTimers (host : Host σ) (now : Nat) : Nat × Host σ :=
  host.loadedNames.foldl fireDue (0, { host with now := now })

end Host

end Relay
