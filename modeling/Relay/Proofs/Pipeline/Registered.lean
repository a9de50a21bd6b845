import Relay.Proofs.Pipeline.Observed
import Relay.Proofs.Pipeline.Verdicts
import Relay.Proofs.Protocol.Alike

/-! # Hooks on messages by name

A hook on the object of a message is registered if and only if the message resolves by its name to a
definition that the hook asks for, and a refusal tells why it does not
(`Relay.Pipeline.targetCode_parsed`). The code of the name is looked up when the hook is registered.
Whatever is done with the pipeline afterwards, a message that comes to the hook has this code, and
since tables are paired it resolves to the same definition by its code
(`Relay.Pipeline.registers_runAll`). -/

namespace Relay.Pipeline

variable {σ : Type} {pipeline start : Pipeline σ} {store : Store} {protocol : UInt32}
  {target : String} {version : VersionRequest} {code : UInt16} {number : Nat}

/-! ## Registration -/

/-- How registration tells what is amiss with resolving. -/
inductive Reports : StoreError → PipelineError → Prop
  | unmapped (protocol : UInt32) (name : String) :
    Reports (.unknownMessage protocol name) (.unmappedMessage name)
  | obsolete (name : String) (version latest : UInt32) :
    Reports (.outdated name version latest) (.obsoleteDefinition name version)
  | missing (name : String) (version : VersionRequest) :
    Reports (.noDefinition name version) (.definitionNotFound name version)

theorem Reports.unique {cause : StoreError} {error other : PipelineError}
    (reports : Reports cause error) (again : Reports cause other) : error = other := by
  cases reports <;> cases again <;> rfl

/-- A name without a latest version has no version. -/
theorem hasDefinition_of_latest? {wanted : UInt32} (newest : store.latest? target = none) :
    store.hasDefinition target wanted = false := by
  rw [Store.latest?, List.getLast?_eq_none_iff] at newest
  refine eq_false_of_ne_true fun present => ?_
  have member := Store.mem_versions.mpr (Option.isSome_iff_exists.mp present)
  rw [newest] at member
  cases member

/-- A version that is not there is refused for what resolving finds amiss with it. -/
theorem checkVersion_agrees (known : store.lookup protocol (.name target) = .ok (target, code))
    (version : VersionRequest) :
    (∃ resolved, store.resolve protocol (.name target) version = .ok resolved ∧
      checkVersion store target version = .ok ()) ∨
    ∃ cause error, store.resolve protocol (.name target) version = .error cause ∧
      checkVersion store target version = .error error ∧ Reports cause error := by
  simp only [Store.resolve, known, bind, Except.bind]
  cases newest : store.latest? target with
  | none =>
      refine .inr ⟨_, _, rfl, ?_, .missing target version⟩
      cases version with
      | latest => simp only [checkVersion, newest]
      | exact wanted => simp [checkVersion, newest, hasDefinition_of_latest? newest]
  | some latest =>
      cases version with
      | latest =>
          obtain ⟨definition, present⟩ := Store.mem_versions.mp (List.mem_of_getLast? newest)
          dsimp only
          rw [present]
          refine .inl ⟨_, rfl, ?_⟩
          simp only [checkVersion, newest]
      | exact wanted =>
          dsimp only
          cases present : store.definition? target wanted with
          | some definition =>
              refine .inl ⟨_, rfl, ?_⟩
              simp [checkVersion, Store.hasDefinition, present]
          | none =>
              right
              by_cases below : wanted < latest
              · refine ⟨_, _, if_pos below, ?_, .obsolete target wanted latest⟩
                simp [checkVersion, Store.hasDefinition, present, newest, below]
              · refine ⟨_, _, if_neg below, ?_, .missing target (.exact wanted)⟩
                simp [checkVersion, Store.hasDefinition, present, newest, below]

/-- **A hook by name has a code if and only if the message resolves.** -/
theorem targetCode_parsed (known : pipeline.store.table? pipeline.protocol ≠ none)
    (named : target ≠ "*") (version : VersionRequest)
    (run : HookView → Event → Program σ (Ending Object)) :
    (∃ resolved, pipeline.store.resolve pipeline.protocol (.name target) version = .ok resolved ∧
      pipeline.targetCode target (.parsed version run) = .ok (some resolved.code)) ∨
    ∃ cause error, pipeline.store.resolve pipeline.protocol (.name target) version = .error cause ∧
      pipeline.targetCode target (.parsed version run) = .error error ∧ Reports cause error := by
  obtain ⟨table, known⟩ := Option.ne_none_iff_exists'.mp known
  unfold targetCode
  rw [if_neg named, known, Option.bind_some]
  cases found : table.code? target with
  | none =>
      refine .inr ⟨_, _, Store.resolve_eq_error ?_, rfl, .unmapped pipeline.protocol target⟩
      simp only [Store.lookup, known, found]
  | some code =>
      have named := Store.lookup_name_eq_ok.mpr ⟨rfl, table, known, found⟩
      dsimp only
      rcases checkVersion_agrees named version with
        ⟨resolved, resolves, checked⟩ | ⟨cause, error, fails, checked, reports⟩
      · have same := (Store.resolve_eq_ok resolves).1.symm.trans named
        refine .inl ⟨resolved, resolves, ?_⟩
        rw [checked, (Prod.mk.inj (Except.ok.inj same)).2]
        rfl
      · refine .inr ⟨cause, error, fails, ?_, reports⟩
        rw [checked]
        rfl

/-! ## What stays of a registration -/

/-- An operation leaves what the pipeline knows of protocols alone. -/
theorem knows_apply (operation : Operation σ) (pipeline : Pipeline σ) :
    (operation.apply pipeline).store = pipeline.store ∧
      (operation.apply pipeline).protocol = pipeline.protocol := by
  cases operation with
  | hook owner target callback options =>
      rw [Operation.apply, hook]
      split <;> exact ⟨rfl, rfl⟩
  | unhookOwned owner number =>
      rw [Operation.apply, unhookOwned]
      split <;> exact ⟨rfl, rfl⟩
  | handle bytes incoming fake =>
      have follows := follows_handle pipeline bytes incoming fake
      exact ⟨follows.store, follows.protocol⟩
  | write direction name version object =>
      have follows := follows_write pipeline direction name version object
      exact ⟨follows.store, follows.protocol⟩
  | writeRaw direction bytes =>
      have follows := follows_writeRaw pipeline direction bytes
      exact ⟨follows.store, follows.protocol⟩
  | _ => exact ⟨rfl, rfl⟩

/-- Operations change neither the store nor the protocol. -/
theorem knows_runAll (operations : List (Operation σ)) (pipeline : Pipeline σ) :
    (runAll operations pipeline).2.store = pipeline.store ∧
      (runAll operations pipeline).2.protocol = pipeline.protocol := by
  induction operations generalizing pipeline with
  | nil => exact ⟨rfl, rfl⟩
  | cons operation rest ih =>
      obtain ⟨store, protocol⟩ := knows_apply operation pipeline
      obtain ⟨later, later'⟩ := ih (operation.apply pipeline)
      exact ⟨later.trans store, later'.trans protocol⟩

/-- Every message that is handled in an operation is handled by the pipeline before it, some levels
deeper and with a part of its hooks. -/
theorem exists_of_mem_handlings {operation : Operation σ} {handling : Handling σ}
    (member : handling ∈ operation.handlings pipeline) :
    ∃ level, (pipeline.deeper level).Follows handling.pipeline := by
  rcases operation.handlings_cases pipeline with none | ⟨bytes, incoming, fake, same⟩
  · rw [none] at member
    cases member
  · rw [same] at member
    obtain ⟨level, _, _, follows, _⟩ := exists_level_of_mem member
    exact ⟨level, follows⟩

/-- Whether a pipeline speaks a protocol, and has at most one entry for a handle. -/
structure Retains (store : Store) (protocol : UInt32) (entry : Option UInt16 × Hook σ)
    (pipeline : Pipeline σ) : Prop where
  store : pipeline.store = store
  protocol : pipeline.protocol = protocol
  only : ∀ other ∈ pipeline.table.registered, other.2.handle = entry.2.handle → other = entry

namespace Retains

variable {entry : Option UInt16 × Hook σ} {operations : List (Operation σ)}

/-- A pipeline that follows has at most the same entry for a handle. -/
theorem follows {later : Pipeline σ} (retains : Retains store protocol entry pipeline) {level : Nat}
    (follows : (pipeline.deeper level).Follows later) : Retains store protocol entry later where
  store := follows.store.trans retains.store
  protocol := follows.protocol.trans retains.protocol
  only other member := retains.only other (follows.table.registered.subset member)

/-- An operation that gives out another handle adds no entry for this one. -/
theorem apply (retains : Retains store protocol entry pipeline) {operation : Operation σ}
    (fresh : operation.given? pipeline ≠ some entry.2.handle) :
    Retains store protocol entry (operation.apply pipeline) where
  store := (knows_apply operation pipeline).1.trans retains.store
  protocol := (knows_apply operation pipeline).2.trans retains.protocol
  only other member same := by
    rcases mem_runAll [operation] member with present | given
    · exact retains.only other present same
    · refine absurd ?_ fresh
      rw [← same]
      simpa [runAll] using given

/-- As long as a handle is not given out anew, every message that is handled finds the same hook
under it, if any. -/
theorem of_mem_history (retains : Retains store protocol entry pipeline)
    (fresh : entry.2.handle ∉ (runAll operations pipeline).1) {handling : Handling σ}
    (member : handling ∈ history operations pipeline) :
    Retains store protocol entry handling.pipeline := by
  induction operations generalizing pipeline with
  | nil => cases member
  | cons operation rest ih =>
      rw [runAll, List.mem_append, not_or, Option.mem_toList] at fresh
      rcases List.mem_append.mp member with now | later
      · obtain ⟨level, follows⟩ := exists_of_mem_handlings now
        exact retains.follows follows
      · exact ih (retains.apply fresh.1) fresh.2 later

end Retains

/-! ## What comes to a hook -/

/-- A hook that a message passes is registered for the code of the message or for all messages. -/
theorem exists_group_of_mem_visits {handling : Handling σ} {visit : Visit σ}
    (inOrder : handling.pipeline.table.InOrder) (member : visit ∈ handling.visits) :
    ∃ group, (group = none ∨ group = some visit.code) ∧
      (group, visit.hook) ∈ handling.pipeline.table.registered := by
  rw [Handling.visits] at member
  split at member
  next => cases member
  next header _ =>
    obtain ⟨entry, listed, present⟩ := exists_of_mem_visitsAlong member
    rw [HookTable.schedule, List.mem_map] at listed
    obtain ⟨⟨group, hook⟩, merged, rfl⟩ := listed
    rw [(of_mem_visitsAlong member).2]
    exact ⟨group, ((inOrder.mem_merged _ _).mp merged).2, present⟩

/-- Whether a version of a message is the one that a request asks for. -/
def Asks (store : Store) (name : String) : VersionRequest → UInt32 → Prop
  | .exact wanted, version => version = wanted
  | .latest, version =>
      version ∈ store.versions name ∧ ∀ other ∈ store.versions name, other ≤ version

/-- A message resolves to the version that is asked for. -/
theorem asks_of_resolve (sound : Store.Sound store) {resolved : Resolved} {key : MessageKey}
    (found : store.resolve protocol key version = .ok resolved) :
    Asks store resolved.name version resolved.version := by
  have same := Store.version_of_resolve found
  cases version with
  | exact => exact same
  | latest =>
      rw [same]
      exact Store.latest?_greatest sound (Store.resolve_eq_ok found).2.1

/-- How a pipeline that speaks a protocol registers a hook on the object of messages with a name. It
is registered under the next handle if and only if the message resolves (`accepted`), and refused
for what is amiss with resolving (`refused`), which leaves everything as it is (`unchanged`).
Whatever is done afterwards, a message that comes to the hook resolves by its code, to the
definition of the name that the hook asked for (`reached`). -/
structure Registers (store : Store) (protocol : UInt32) (pipeline : Pipeline σ)
    (owner : Option String) (target : String) (version : VersionRequest)
    (run : HookView → Event → Program σ (Ending Object)) (options : HookOptions) : Prop where
  accepted : ∀ number, (pipeline.hook owner target (.parsed version run) options).1 = .ok number ↔
    number = pipeline.table.issued + 1 ∧
      ∃ resolved, store.resolve protocol (.name target) version = .ok resolved
  refused : ∀ error, (pipeline.hook owner target (.parsed version run) options).1 = .error error ↔
    ∃ cause, store.resolve protocol (.name target) version = .error cause ∧ Reports cause error
  unchanged : ∀ error, (pipeline.hook owner target (.parsed version run) options).1 = .error error →
    (pipeline.hook owner target (.parsed version run) options).2 = pipeline
  reached : ∀ number after,
    (pipeline.hook owner target (.parsed version run) options).1 = .ok number →
    ∀ handling ∈ history after (pipeline.hook owner target (.parsed version run) options).2,
    ∀ visit ∈ handling.visits, visit.hook.handle = number →
      visit.hook.target = target ∧ visit.hook.callback = .parsed version run ∧
      ∃ resolved, visit.pipeline.store.resolve visit.pipeline.protocol (.code visit.code) version =
          .ok resolved ∧
        store.resolve protocol (.name target) version = .ok resolved ∧ resolved.name = target ∧
        resolved.code = visit.code ∧ Asks store target version resolved.version

/-- A hook that is refused leaves everything as it is. -/
theorem hook_of_error {callback : Callback σ} {error : PipelineError} (owner : Option String)
    (options : HookOptions) (refused : pipeline.targetCode target callback = .error error) :
    pipeline.hook owner target callback options = (.error error, pipeline) := by
  rw [hook, refused]

/-- A hook that is not refused is registered under the next handle. -/
theorem hook_of_ok {callback : Callback σ} {code : Option UInt16} (owner : Option String)
    (options : HookOptions) (coded : pipeline.targetCode target callback = .ok code) :
    pipeline.hook owner target callback options = (.ok (pipeline.table.issued + 1),
      { pipeline with
        table := (pipeline.table.insert code fun handle => ⟨handle, options.order, owner, target,
          options.filter, options.once, callback⟩).2 }) := by
  rw [hook, coded]
  rfl

/-- A hook that is registered is the only one with its handle. -/
theorem retains_hook {callback : Callback σ} {code : Option UInt16} (owner : Option String)
    (options : HookOptions) (inOrder : pipeline.table.InOrder)
    (coded : pipeline.targetCode target callback = .ok code) :
    (pipeline.hook owner target callback options).1 = .ok (pipeline.table.issued + 1) ∧
      (pipeline.hook owner target callback options).2.table.issued = pipeline.table.issued + 1 ∧
      Retains pipeline.store pipeline.protocol
        (code, ⟨pipeline.table.issued + 1, options.order, owner, target, options.filter,
          options.once, callback⟩) (pipeline.hook owner target callback options).2 := by
  rw [hook_of_ok owner options coded]
  refine ⟨rfl, rfl, rfl, rfl, fun other member same => ?_⟩
  dsimp only at member same
  rcases List.mem_cons.mp ((HookTable.registered_insert _ _ _).mem_iff.mp member) with rfl | old
  · rfl
  · have given := inOrder.issued other old
    omega

/-- Whatever is done after a hook was registered for the code of a message, only this hook passes
under its handle, and only for messages that resolve by their code to the same definition. -/
theorem Retains.of_mem_visits {hook : Hook σ} {resolved : Resolved}
    (retains : Retains store protocol (some resolved.code, hook) pipeline)
    (inOrder : pipeline.table.InOrder) (newest : pipeline.table.issued = hook.handle)
    (sound : Store.Sound store)
    (found : store.resolve protocol (.name target) version = .ok resolved)
    {after : List (Operation σ)} {handling : Handling σ}
    (member : handling ∈ history after pipeline) {visit : Visit σ}
    (passes : visit ∈ handling.visits) (same : visit.hook.handle = hook.handle) :
    visit.hook = hook ∧ resolved.code = visit.code ∧
      visit.pipeline.store.resolve visit.pipeline.protocol (.code visit.code) version =
        .ok resolved := by
  -- handles that are given out later are greater
  have fresh : hook.handle ∉ (runAll after pipeline).1 := by
    have later := (List.pairwise_cons.mp (given_runAll after pipeline)).1
    rw [newest] at later
    exact fun given => Nat.lt_irrefl _ (later _ given)
  obtain ⟨ordered, own⟩ := Pipeline.of_mem_history inOrder member
  have keeps := retains.of_mem_history fresh member
  obtain ⟨group, reaches, present⟩ := exists_group_of_mem_visits ordered passes
  obtain ⟨rfl, hooked⟩ := Prod.mk.inj (keeps.only _ present same)
  have coded : resolved.code = visit.code := by
    rcases reaches with none | some
    · cases none
    · exact Option.some.inj some
  have pipelines : visit.pipeline = handling.pipeline := by
    rw [own] at passes
    exact (Pipeline.of_mem_visits passes).1
  refine ⟨hooked, coded, ?_⟩
  rw [pipelines, keeps.store, keeps.protocol, ← coded]
  exact ((Store.coherent_of_sound sound protocol).byName found).2

/-- **Registering and resolving agree.** A hook is registered if its name and version resolve, and
later messages resolve by their code to what it asked for. -/
theorem registers (sound : Store.Sound pipeline.store)
    (known : pipeline.store.table? pipeline.protocol ≠ none) (inOrder : pipeline.table.InOrder)
    (named : target ≠ "*") (owner : Option String)
    (run : HookView → Event → Program σ (Ending Object)) (options : HookOptions) :
    Registers pipeline.store pipeline.protocol pipeline owner target version run options := by
  rcases targetCode_parsed known named version run with
    ⟨resolved, found, coded⟩ | ⟨cause, error, fails, refused, reports⟩
  · obtain ⟨registered, issued, retains⟩ := retains_hook owner options inOrder coded
    constructor
    case accepted =>
      intro number
      rw [registered, Except.ok.injEq]
      exact ⟨fun same => ⟨same.symm, resolved, found⟩, fun both => both.1.symm⟩
    case refused =>
      intro error
      rw [registered, found]
      exact ⟨nofun, nofun⟩
    case unchanged =>
      intro error failed
      rw [registered] at failed
      cases failed
    case reached =>
      intro number after accepted handling member visit passes same
      obtain rfl := Except.ok.inj (registered.symm.trans accepted)
      have ordered := inOrder_apply (.hook owner target (.parsed version run) options) inOrder
      obtain ⟨hooked, coded, byCode⟩ := retains.of_mem_visits ordered issued sound found member
        passes same
      have name := ((Store.coherent_of_sound sound pipeline.protocol).byName found).1
      have asks := asks_of_resolve sound found
      rw [name] at asks
      rw [hooked]
      exact ⟨rfl, rfl, resolved, byCode, found, name, coded, asks⟩
  · have same := hook_of_error owner options refused
    constructor
    case accepted =>
      intro number
      rw [same, fails]
      exact ⟨nofun, fun ⟨_, _, found⟩ => nomatch found⟩
    case refused =>
      intro other
      rw [same, fails]
      constructor
      · rintro ⟨⟩
        exact ⟨cause, rfl, reports⟩
      · rintro ⟨_, ⟨⟩, again⟩
        exact congrArg Except.error (reports.unique again)
    case unchanged =>
      intro _ _
      rw [same]
    case reached =>
      intro number after accepted
      rw [same] at accepted
      cases accepted

/-- A new pipeline speaks a protocol that its store knows. -/
theorem new_eq_ok {limits : PipelineLimits} {world : σ}
    (made : (Pipeline.new store protocol limits world).1 = .ok start) :
    start.store = store ∧ start.protocol = protocol ∧ store.table? protocol ≠ none := by
  rw [Pipeline.new] at made
  split at made
  next => cases made
  next known =>
    cases made
    exact ⟨rfl, rfl, by rw [known]; exact Option.some_ne_none _⟩

/-- **Hooks by name are registered as messages resolve.** In a pipeline for a protocol of any store,
whatever was done with it, a hook on the object of messages with a name is registered if and only if
the name resolves to the version that the hook asks for, and otherwise refused for the same reason
with nothing changed. Whatever is done later, every message that comes to the hook resolves by its
code to the definition of this name and version. -/
theorem registers_runAll (stored : store.Made) {limits : PipelineLimits} {world : σ}
    (made : (Pipeline.new store protocol limits world).1 = .ok start)
    (before : List (Operation σ)) (named : target ≠ "*") (owner : Option String)
    (version : VersionRequest) (run : HookView → Event → Program σ (Ending Object))
    (options : HookOptions) :
    Registers store protocol (runAll before start).2 owner target version run options := by
  have inOrder := inOrder_of_new made before
  obtain ⟨rfl, rfl, known⟩ := new_eq_ok made
  obtain ⟨store, protocol⟩ := knows_runAll before start
  have sound : Store.Sound (runAll before start).2.store := by
    rw [store]
    exact stored.sound
  have tabled : (runAll before start).2.store.table? (runAll before start).2.protocol ≠ none := by
    rwa [store, protocol]
  rw [← store, ← protocol]
  exact registers sound tabled inOrder named owner run options

/-- What is known of a message with two versions. -/
def versionedStore : Store :=
  let tabled := (Store.empty .pc).setTable 1 (OpcodeTable.ofList [("C_ASK", 10)])
  (tabled.addGeneral "C_ASK" 3 ⟨[]⟩).addGeneral "C_ASK" 1 ⟨[]⟩

/-- A new connection that knows two versions of a message. -/
def versioned : Pipeline Unit :=
  ⟨versionedStore, 1, .standard, .empty, #[], 0, (), #[]⟩

/-- A hook for all messages that comes and goes. -/
def passing : List (Operation Unit) :=
  [.hook none "*" (.raw fun _ _ bytes => .done (.ok (.pass, bytes))) .standard, .unhook 1]

/-- A callback that lets every message pass. -/
def letPass (_ : HookView) (event : Event) : Program Unit (Ending Object) :=
  .done (.ok (.pass, event.data))

/-- A hook by the latest version, and a message that comes to it. -/
theorem registers_runAll_versioned :
    "C_ASK" ≠ "*" ∧ versionedStore.Made ∧
      (Pipeline.new versionedStore 1 .standard ()).1 = .ok versioned ∧
      Registers versionedStore 1 (runAll passing versioned).2 none "C_ASK" .latest letPass
        .standard ∧
      ((runAll passing versioned).2.hook none "C_ASK" (.parsed .latest letPass) .standard).1 =
        .ok 2 ∧
      ((history [.handle #[4, 0, 10, 0] false false] ((runAll passing versioned).2.hook none
        "C_ASK" (.parsed .latest letPass) .standard).2).flatMap Handling.visits).map
          (·.hook.handle) = [2] :=
  have stored : versionedStore.Made :=
    .addGeneral (.addGeneral (.setTable (.empty .pc) 1 (.ofList _)) _ _ _) _ _ _
  have made : (Pipeline.new versionedStore 1 .standard ()).1 = .ok versioned := rfl
  have named : "C_ASK" ≠ "*" := by decide
  ⟨named, stored, made, registers_runAll stored made passing named none .latest letPass .standard,
    rfl, rfl⟩

end Relay.Pipeline
