import Relay.Proofs.Pipeline.Handling

/-! # The history of a pipeline

Whatever was done with a pipeline since it was made (`Relay.Pipeline.Operation`), its table is in
order, no handle was given out twice, and every message passes the hooks of its schedule, each of
them once and in order, whatever these hooks remove (`Relay.Pipeline.orderly_runAll`). -/

namespace Relay.Pipeline

variable {σ : Type} {pipeline start : Pipeline σ}

/-- What can be done with a pipeline. -/
inductive Operation (σ : Type) where
  | hook (owner : Option String) (target : String) (callback : Callback σ) (options : HookOptions)
  | unhook (handle : Nat)
  | unhookOwned (owner : String) (handle : Nat)
  | unhookOwner (owner : String)
  | reset
  | handle (bytes : Bytes) (incoming fake : Bool)
  | write (direction : Direction) (name : String) (version : VersionRequest) (object : Object)
  | writeRaw (direction : Direction) (bytes : Bytes)
  | drain

namespace Operation

/-- The pipeline after an operation. -/
def apply (pipeline : Pipeline σ) : Operation σ → Pipeline σ
  | .hook owner target callback options => (pipeline.hook owner target callback options).2
  | .unhook number => (pipeline.unhook number).2
  | .unhookOwned owner number => (pipeline.unhookOwned owner number).2
  | .unhookOwner owner => (pipeline.unhookOwner owner).2
  | .reset => pipeline.reset
  | .handle bytes incoming fake => (pipeline.handle bytes incoming fake).2
  | .write direction name version object => (pipeline.write direction name version object).2
  | .writeRaw direction bytes => (pipeline.writeRaw direction bytes).2
  | .drain => pipeline.drain.2

/-- The handle that an operation gives out. -/
def given? (pipeline : Pipeline σ) : Operation σ → Option Nat
  | .hook owner target callback options =>
    (pipeline.hook owner target callback options).1.toOption
  | _ => none

/-- What an operation is to change of the hooks that are registered. -/
def Changes (before after : Pipeline σ) : Operation σ → Prop
  | .hook owner target callback options =>
    match before.targetCode target callback with
    | .error _ => after.table.registered = before.table.registered
    | .ok code => after.table.registered.Perm
        ((code, ⟨before.table.issued + 1, options.order, owner, target, options.filter,
          options.once, callback⟩) :: before.table.registered)
  | .unhook number =>
    after.table.registered = before.table.registered.filter (·.2.handle != number)
  | .unhookOwned owner number =>
    after.table.registered = before.table.registered.filter
      fun entry => !(entry.2.handle == number && entry.2.owner == some owner)
  | .unhookOwner owner =>
    after.table.registered = before.table.registered.filter (·.2.owner != some owner)
  | .reset => after.table.registered = []
  | .drain => after.table.registered = before.table.registered
  | .handle .. | .write .. | .writeRaw .. =>
    after.table.registered.Sublist before.table.registered

end Operation

/-- The handles that operations give out, in order, and the pipeline after them. -/
def runAll : List (Operation σ) → Pipeline σ → List Nat × Pipeline σ
  | [], pipeline => ([], pipeline)
  | operation :: rest, pipeline =>
    let (given, after) := runAll rest (operation.apply pipeline)
    ((operation.given? pipeline).toList ++ given, after)

/-! ## One operation -/

/-- An operation either registers a hook under the next handle or leaves a part of the table. -/
theorem Operation.table_apply (operation : Operation σ) (pipeline : Pipeline σ) :
    (operation.given? pipeline = none ∧ (operation.apply pipeline).table.Part pipeline.table) ∨
      ∃ code hook, (∀ handle, (hook handle).handle = handle) ∧
        operation.given? pipeline = some (pipeline.table.issued + 1) ∧
        (operation.apply pipeline).table = (pipeline.table.insert code hook).2 := by
  cases operation with
  | hook owner target callback options =>
      cases found : pipeline.targetCode target callback with
      | error =>
          left
          simp only [given?, apply, Pipeline.hook, found]
          exact ⟨rfl, .refl _⟩
      | ok code =>
          right
          refine ⟨code, fun handle => ⟨handle, options.order, owner, target, options.filter,
            options.once, callback⟩, fun _ => rfl, ?_⟩
          simp only [given?, apply, Pipeline.hook, found]
          exact ⟨rfl, trivial⟩
  | unhook handle => exact .inl ⟨rfl, .remove _ _⟩
  | unhookOwned owner handle =>
      refine .inl ⟨rfl, ?_⟩
      rw [apply, Pipeline.unhookOwned]
      split
      next => exact .remove _ _
      next => exact .refl _
  | unhookOwner owner => exact .inl ⟨rfl, .removeOwnedBy _ _⟩
  | reset => exact .inl ⟨rfl, .clear _⟩
  | handle bytes incoming fake => exact .inl ⟨rfl, (follows_handle _ _ _ _).table⟩
  | write direction name version object => exact .inl ⟨rfl, (follows_write _ _ _ _ _).table⟩
  | writeRaw direction bytes => exact .inl ⟨rfl, (follows_writeRaw _ _ _).table⟩
  | drain => exact .inl ⟨rfl, .refl _⟩

/-- **Operations change the hooks as they are to**: a table in order gains the hook that is
registered, loses those that are removed, and loses some at most when messages are handled. -/
theorem Operation.changes_apply (operation : Operation σ) (inOrder : pipeline.table.InOrder) :
    operation.Changes pipeline (operation.apply pipeline) := by
  cases operation with
  | hook owner target callback options =>
      cases found : pipeline.targetCode target callback with
      | error => simp only [Changes, apply, Pipeline.hook, found]
      | ok code =>
          simp only [Changes, apply, Pipeline.hook, found]
          exact HookTable.registered_insert pipeline.table code _
  | unhook handle => exact inOrder.registered_remove handle
  | unhookOwned owner handle =>
      rw [Changes, ← inOrder.registered_removeOwn, apply, Pipeline.unhookOwned]
      split <;> rfl
  | unhookOwner owner => exact HookTable.registered_removeOwnedBy pipeline.table owner
  | reset => exact rfl
  | handle bytes incoming fake => exact (follows_handle _ _ _ _).table.registered
  | write direction name version object => exact (follows_write _ _ _ _ _).table.registered
  | writeRaw direction bytes => exact (follows_writeRaw _ _ _).table.registered
  | drain => exact rfl

/-! ## All operations -/

/-- A table in order is in order after an operation. -/
theorem inOrder_apply (operation : Operation σ) (inOrder : pipeline.table.InOrder) :
    (operation.apply pipeline).table.InOrder := by
  rcases operation.table_apply pipeline with ⟨_, isPart⟩ | ⟨code, hook, named, _, same⟩
  · exact isPart.inOrder inOrder
  · rw [same]
    exact inOrder.insert code named

/-- A table in order is in order after any operations. -/
theorem inOrder_runAll (operations : List (Operation σ)) (inOrder : pipeline.table.InOrder) :
    (runAll operations pipeline).2.table.InOrder := by
  induction operations generalizing pipeline with
  | nil => exact inOrder
  | cons operation rest ih => exact ih (inOrder_apply operation inOrder)

/-- Handles are given out in ascending order, and none that was given out before. -/
theorem given_runAll (operations : List (Operation σ)) (pipeline : Pipeline σ) :
    (pipeline.table.issued :: (runAll operations pipeline).1).Pairwise (· < ·) := by
  induction operations generalizing pipeline with
  | nil => exact List.pairwise_singleton _ _
  | cons operation rest ih =>
      have later := ih (operation.apply pipeline)
      rw [runAll]
      rcases operation.table_apply pipeline with ⟨none, isPart⟩ | ⟨code, hook, _, given, same⟩
      · rw [none]
        rwa [isPart.issued] at later
      · rw [given]
        rw [same] at later
        refine List.pairwise_cons.mpr ⟨fun handle member => ?_, later⟩
        rcases List.mem_cons.mp member with rfl | more
        · exact Nat.lt_succ_self _
        · exact (Nat.lt_succ_self _).trans ((List.pairwise_cons.mp later).1 handle more)

/-- A hook that is registered was there at the start or has a handle that was given out since. -/
theorem mem_runAll (operations : List (Operation σ)) {entry : Option UInt16 × Hook σ}
    (member : entry ∈ (runAll operations pipeline).2.table.registered) :
    entry ∈ pipeline.table.registered ∨ entry.2.handle ∈ (runAll operations pipeline).1 := by
  induction operations generalizing pipeline with
  | nil => exact .inl member
  | cons operation rest ih =>
      rw [runAll]
      rcases ih member with present | given
      · rcases operation.table_apply pipeline with ⟨_, isPart⟩ | ⟨code, hook, named, given, same⟩
        · exact .inl (isPart.registered.subset present)
        · rw [same] at present
          rcases List.mem_cons.mp ((HookTable.registered_insert _ _ _).mem_iff.mp present) with
            rfl | old
          · right
            rw [given, named]
            exact List.mem_cons_self
          · exact .inl old
      · exact .inr (List.mem_append_right _ given)

/-- A new pipeline has no hooks. -/
theorem table_of_new {store : Store} {protocol : UInt32} {limits : PipelineLimits} {world : σ}
    (made : (Pipeline.new store protocol limits world).1 = .ok start) : start.table = .empty := by
  rw [Pipeline.new] at made
  split at made
  next => cases made
  next =>
    cases made
    rfl

/-- Whatever was done with a new pipeline, its table is in order. -/
theorem inOrder_of_new {store : Store} {protocol : UInt32} {limits : PipelineLimits} {world : σ}
    (made : (Pipeline.new store protocol limits world).1 = .ok start)
    (operations : List (Operation σ)) : (runAll operations start).2.table.InOrder := by
  apply inOrder_runAll
  rw [table_of_new made]
  exact .empty

/-! ## Passing the hooks -/

/-- A message as it comes to its first hook. -/
def Passage.arriving (pipeline : Pipeline σ) (bytes : Bytes) (incoming fake : Bool) : Passage σ :=
  ⟨bytes, ⟨fake, incoming, false, false⟩, [], [], ⟨pipeline.world, #[], #[], pipeline.remarks⟩⟩

/-- What becomes of a message that has passed its hooks. -/
def Passage.outcome (passage : Passage σ) : Outcome :=
  if passage.flags.silenced then .dropped else .forward passage.bytes

section Passing

variable {pass : Pipeline σ → UInt16 → Passage σ → Hook σ → Passage σ} {bytes : Bytes}

/-- A message without a front is forwarded as it is. -/
theorem passHooks_of_short (pipeline : Pipeline σ) {error : Frame.HeaderError}
    (short : Frame.Header.read bytes = .error error) (incoming fake : Bool) :
    pipeline.passHooks pass bytes incoming fake =
      (.forward bytes, pipeline.remark (.warning
        "message shorter than its header, forwarding untouched"
          [("len", toString bytes.size)]), []) := by
  rw [passHooks, short]

/-- A message with a front passes its hooks, of which there may be none. -/
theorem passHooks_of_front {header : Frame.Header}
    (front : Frame.Header.read bytes = .ok header) (incoming fake : Bool) :
    pipeline.passHooks pass bytes incoming fake =
      pipeline.conclude (pipeline.passScheduled pass header.code
        (.arriving pipeline bytes incoming fake)) := by
  rw [passHooks, front]
  dsimp only
  split
  next empty =>
    rw [passScheduled, List.isEmpty_iff.mp empty]
    rfl
  next => rfl

/-- The hooks of a schedule are passed one after the other, as they were when it was made. -/
theorem passScheduled_merged (inOrder : pipeline.table.InOrder) (code : UInt16)
    (passage : Passage σ) :
    pipeline.passScheduled pass code passage = (pipeline.table.merged code).foldl
      (fun passage entry => pass pipeline code passage entry.2) passage := by
  rw [passScheduled, HookTable.schedule, List.foldl_map]
  apply List.foldl_ext
  intro passage entry member
  have found := inOrder.get?_of_mem ((inOrder.mem_merged code entry).mp member).1
  rw [passEntry, found]

end Passing

/-- The hooks that a message of a code passes when it is handled: those of its schedule when its
handling begins, one after the other, whatever becomes of them meanwhile. What the last one leaves
(`finish`) tells what becomes of the message, and only then those hooks are removed that are to
go. -/
structure Handling.Considers (handling : Handling σ) (code : UInt16)
    (hooks : List (Option UInt16 × Hook σ)) (finish : Passage σ) : Prop where
  schedules : handling.pipeline.table.Schedules code hooks
  passes : hooks.foldl (fun passage entry => Passage.pass handling.pipeline code passage entry.2)
    (.arriving handling.pipeline handling.bytes handling.incoming handling.fake) = finish
  outcome : handling.outcome = finish.outcome
  requests : handling.requests = finish.requests.writes.toList
  removes : handling.passed.table.registered = handling.pipeline.table.registered.filter
    fun entry => !(finish.finished ++ finish.requests.unhooks.toList).contains entry.2.handle

/-- A message that is handled by a pipeline in order passes the hooks of its own code. -/
theorem considers_merged {handling : Handling σ} (inOrder : handling.pipeline.table.InOrder)
    {header : Frame.Header} (front : Frame.Header.read handling.bytes = .ok header) :
    ∃ finish, handling.Considers header.code (handling.pipeline.table.merged header.code)
      finish := by
  have passed : handling.pipeline.passHooks Passage.pass handling.bytes handling.incoming
      handling.fake = _ := passHooks_of_front front _ _
  rw [passScheduled_merged inOrder] at passed
  refine ⟨_, inOrder.schedules header.code, rfl, ?_, ?_, ?_⟩
  · exact congrArg Prod.fst passed
  · exact congrArg (fun result => result.2.2) passed
  · rw [Handling.passed, passed]
    exact inOrder.registered_foldl_remove _

/-- What holds of the handles that were given out and of the pipeline, whatever was done with it. -/
structure Orderly (given : List Nat) (pipeline : Pipeline σ) : Prop where
  /-- No handle was given out twice. -/
  ascending : given.Pairwise (· < ·)
  /-- Every hook has a handle that was given out. -/
  issued : ∀ entry ∈ pipeline.table.registered, entry.2.handle ∈ given
  /-- No two hooks have the same handle. -/
  distinct : (pipeline.table.registered.map (·.2.handle)).Nodup
  /-- Operations change the hooks as they are to change them. -/
  changes : ∀ operation : Operation σ, operation.Changes pipeline (operation.apply pipeline)
  /-- To handle a message is to handle it and all that it causes, one after the other. -/
  threads : ∀ bytes incoming fake, Threads pipeline.core
    (pipeline.handling bytes incoming fake).begun (pipeline.handle bytes incoming fake).2.core
  /-- What becomes of a message is told when it has passed its hooks. -/
  outcome : ∀ bytes incoming fake,
    (pipeline.handle bytes incoming fake).1 = (pipeline.handling bytes incoming fake).outcome
  /-- Whenever a message comes to be handled, there is a schedule for every code. -/
  schedules : ∀ bytes incoming fake level,
    ∀ handling ∈ (pipeline.handling bytes incoming fake).atLevel level, ∀ code,
      ∃ hooks, handling.pipeline.table.Schedules code hooks
  /-- A message passes the hooks that are scheduled for its code when its handling begins. -/
  considers : ∀ bytes incoming fake level,
    ∀ handling ∈ (pipeline.handling bytes incoming fake).atLevel level, ∀ header,
      Frame.Header.read handling.bytes = .ok header →
        ∃ hooks finish, handling.Considers header.code hooks finish
  /-- What has no code passes no hooks. -/
  short : ∀ bytes incoming fake level,
    ∀ handling ∈ (pipeline.handling bytes incoming fake).atLevel level, ∀ error,
      Frame.Header.read handling.bytes = .error error →
        handling.outcome = .forward handling.bytes ∧ handling.requests = [] ∧
          handling.passed.table = handling.pipeline.table

/-- **Hooks are scheduled in order over whole histories.** After any operations on a new pipeline no
handle was given out twice, every registered hook has a handle of its own that was given out, and
operations change what they are to change and nothing else. A message that is handled, and each that
it causes, passes the hooks of its code and those for all messages that are registered when its
handling begins, by ascending order and handle. -/
theorem orderly_runAll {store : Store} {protocol : UInt32} {limits : PipelineLimits} {world : σ}
    (made : (Pipeline.new store protocol limits world).1 = .ok start)
    (operations : List (Operation σ)) :
    Orderly (runAll operations start).1 (runAll operations start).2 := by
  have inOrder := inOrder_of_new made operations
  have nested {bytes : Bytes} {incoming fake : Bool} {level : Nat} {handling : Handling σ}
      (member : handling ∈ ((runAll operations start).2.handling bytes incoming fake).atLevel
        level) : handling.pipeline.table.InOrder := by
    obtain ⟨_, _, follows, _⟩ := exists_of_mem_atLevel member
    exact follows.table.inOrder inOrder
  constructor
  case ascending => exact (given_runAll operations start).of_cons
  case issued =>
    intro entry member
    rcases mem_runAll operations member with old | given
    · rw [table_of_new made] at old
      cases old
    · exact given
  case distinct => exact inOrder.handles
  case changes => exact fun operation => operation.changes_apply inOrder
  case threads => exact threads_handling _
  case outcome => exact fun _ _ _ => rfl
  case schedules => exact fun _ _ _ _ _ member code => ⟨_, (nested member).schedules code⟩
  case considers =>
    intro _ _ _ _ _ member _ front
    exact ⟨_, considers_merged (nested member) front⟩
  case short =>
    intro _ _ _ _ handling _ _ short
    have passed : handling.pipeline.passHooks Passage.pass handling.bytes handling.incoming
        handling.fake = _ := passHooks_of_short handling.pipeline short _ _
    exact ⟨congrArg Prod.fst passed, congrArg (fun result => result.2.2) passed,
      congrArg (fun result => result.2.1.table) passed⟩

/-- A new connection that knows one message. -/
def unhooked : Pipeline Unit :=
  ⟨{ Store.empty .pc with tables := [(1, OpcodeTable.ofList [("C_ASK", 10)])] }, 1, .standard,
    .empty, #[], 0, (), #[]⟩

/-- Two hooks of which one removes itself and the other runs once, a message that passes them, and
a hook that is registered after all were removed. -/
def restarted : List (Operation Unit) :=
  let leaving : Callback Unit := .raw fun view _ bytes =>
    .unhook view.handle (.done (.ok (.pass, bytes)))
  let staying : Callback Unit := .raw fun _ _ bytes => .done (.ok (.pass, bytes))
  [.hook none "*" leaving .standard,
    .hook (some "module") "C_ASK" staying { HookOptions.standard with order := -1, once := true },
    .handle #[4, 0, 10, 0] false false, .reset, .hook none "*" staying .standard]

/-- Hooks that remove themselves, run once and are registered after all were removed stay in
order. -/
theorem orderly_restarted :
    (Pipeline.new unhooked.store 1 .standard ()).1 = .ok unhooked ∧
      (runAll restarted unhooked).1 = [1, 2, 3] ∧
      Orderly (runAll restarted unhooked).1 (runAll restarted unhooked).2 :=
  have made : (Pipeline.new unhooked.store 1 .standard ()).1 = .ok unhooked := rfl
  ⟨made, rfl, orderly_runAll made restarted⟩

end Relay.Pipeline
