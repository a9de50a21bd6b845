import Relay.Proofs.Pipeline.Sighted

/-! # What is seen over operations

When the callbacks are watched in all that is done with a pipeline, what is seen of hooks is what
the messages do that are handled (`Relay.Pipeline.acts_seenIn`), each of them by the pipeline as it
finds it (`Relay.Pipeline.of_mem_history`). -/

namespace Relay.Pipeline

variable {σ : Type} {pipeline : Pipeline σ} {handling : Handling σ}

/-- The messages that are handled in operations, in the order in which their handling begins. -/
def history : List (Operation σ) → Pipeline σ → List (Handling σ)
  | [], _ => []
  | operation :: rest, pipeline =>
    operation.handlings pipeline ++ history rest (operation.apply pipeline)

namespace Operation

/-- An operation, where a hook that it registers is watched. -/
def watched : Operation σ → Operation (σ × List Sighting)
  | .hook owner target callback options => .hook owner target callback.watched options
  | .unhook number => .unhook number
  | .unhookOwned owner number => .unhookOwned owner number
  | .unhookOwner owner => .unhookOwner owner
  | .reset => .reset
  | .handle bytes incoming fake => .handle bytes incoming fake
  | .write direction name version object => .write direction name version object
  | .writeRaw direction bytes => .writeRaw direction bytes
  | .drain => .drain

/-- A watched hook is registered or refused as it would be unwatched. -/
theorem hook_watched (pipeline : Pipeline σ) (seen : List Sighting) (owner : Option String)
    (target : String) (callback : Callback σ) (options : HookOptions) :
    (pipeline.watched seen).hook owner target callback.watched options =
      ((pipeline.hook owner target callback options).1,
        (pipeline.hook owner target callback options).2.watched seen) := by
  have code : (pipeline.watched seen).targetCode target callback.watched =
      pipeline.targetCode target callback := by
    simp only [targetCode, store_watched, protocol_watched]
    cases (pipeline.store.table? pipeline.protocol).bind (·.code? target) <;>
      rcases callback with _ | ⟨_ | _, _⟩ <;> rfl
  rw [Pipeline.hook, Pipeline.hook, code]
  cases pipeline.targetCode target callback with
  | error => rfl
  | ok code =>
      have inserted := HookTable.insert_watched pipeline.table code fun handle =>
        ⟨handle, options.order, owner, target, options.filter, options.once, callback⟩
      exact congrArg (fun placed => (Except.ok placed.1,
        { pipeline.watched seen with table := placed.2 })) inserted

/-- A hook is removed for its owner alike, watched or not. -/
theorem unhookOwned_watched (pipeline : Pipeline σ) (seen : List Sighting) (owner : String)
    (number : Nat) : ((pipeline.watched seen).unhookOwned owner number).2 =
      (pipeline.unhookOwned owner number).2.watched seen := by
  have owns : ((pipeline.watched seen).table.find? number).any (·.owner == some owner) =
      (pipeline.table.find? number).any (·.owner == some owner) := by
    have found := HookTable.find?_watched pipeline.table number
    exact (congrArg (·.any (·.owner == some owner)) found).trans Option.any_map
  have removed := HookTable.remove_watched pipeline.table number
  rw [Pipeline.unhookOwned, Pipeline.unhookOwned, owns]
  split
  next => exact congrArg (fun table => { pipeline.watched seen with table := table }) removed
  next => rfl

/-- The same handles are given out, watched or not. -/
theorem given?_watched (operation : Operation σ) (pipeline : Pipeline σ) (seen : List Sighting) :
    operation.watched.given? (pipeline.watched seen) = operation.given? pipeline := by
  cases operation with
  | hook owner target callback options =>
      exact congrArg (·.1.toOption) (hook_watched pipeline seen owner target callback options)
  | _ => rfl

/-- Watching an operation shows what the hooks do of the messages that are handled in it. -/
theorem apply_watched (operation : Operation σ) (pipeline : Pipeline σ) (seen : List Sighting) :
    ∃ now, operation.watched.apply (pipeline.watched seen) =
        (operation.apply pipeline).watched now ∧
      actsIn now = actsIn seen ++ (operation.handlings pipeline).flatMap Handling.acts := by
  have silent : actsIn seen = actsIn seen ++ ([] : List (Handling σ)).flatMap Handling.acts :=
    (List.append_nil _).symm
  cases operation with
  | hook owner target callback options =>
      exact ⟨seen, congrArg Prod.snd (hook_watched pipeline seen owner target callback options),
        silent⟩
  | unhook number =>
      have removed := HookTable.remove_watched pipeline.table number
      exact ⟨seen, congrArg (fun table => { pipeline.watched seen with table := table }) removed,
        silent⟩
  | unhookOwned owner number =>
      exact ⟨seen, unhookOwned_watched pipeline seen owner number, silent⟩
  | unhookOwner owner =>
      have removed := HookTable.removeOwnedBy_watched pipeline.table owner
      exact ⟨seen, congrArg (fun table => { pipeline.watched seen with table := table }) removed,
        silent⟩
  | reset => exact ⟨seen, rfl, silent⟩
  | handle bytes incoming fake =>
      obtain ⟨now, same, shown⟩ := shows_handle tells_acts pipeline seen bytes incoming fake
      exact ⟨now, congrArg Prod.snd same, shown⟩
  | write direction name version object =>
      rw [watched, apply, apply, Pipeline.write, Pipeline.write, writeWith, writeWith,
        store_watched, protocol_watched, handlings]
      cases pipeline.store.write pipeline.protocol (.name name) version object with
      | error => exact ⟨seen, rfl, silent⟩
      | ok bytes =>
          obtain ⟨now, same, shown⟩ :=
            (shows_handle tells_acts).writeRawWith pipeline seen direction bytes
          exact ⟨now, congrArg Prod.snd same, shown⟩
  | writeRaw direction bytes =>
      obtain ⟨now, same, shown⟩ :=
        (shows_handle tells_acts).writeRawWith pipeline seen direction bytes
      exact ⟨now, congrArg Prod.snd same, shown⟩
  | drain => exact ⟨seen, rfl, silent⟩

end Operation

/-- **Over whole histories watching changes nothing**, and what is seen of hooks is what they do in
the messages that are handled. -/
theorem runAll_watched (operations : List (Operation σ)) (pipeline : Pipeline σ)
    (seen : List Sighting) :
    ∃ now, runAll (operations.map Operation.watched) (pipeline.watched seen) =
        ((runAll operations pipeline).1, (runAll operations pipeline).2.watched now) ∧
      actsIn now = actsIn seen ++ (history operations pipeline).flatMap Handling.acts := by
  induction operations generalizing pipeline seen with
  | nil => exact ⟨seen, rfl, (List.append_nil _).symm⟩
  | cons operation rest ih =>
      obtain ⟨between, same, first⟩ := operation.apply_watched pipeline seen
      obtain ⟨now, last, others⟩ := ih (operation.apply pipeline) between
      refine ⟨now, ?_, ?_⟩
      · rw [List.map_cons, runAll, runAll, same, last, Operation.given?_watched]
      · rw [others, first, history, List.flatMap_append, List.append_assoc]

/-- What is seen of the callbacks over operations, if they are watched. -/
def seenIn (operations : List (Operation σ)) (pipeline : Pipeline σ) : List Sighting :=
  (runAll (operations.map Operation.watched) (pipeline.watched [])).2.world.2

/-- Watched from the start, a pipeline comes to the same, and what is seen of hooks is what they
do. -/
theorem acts_seenIn (operations : List (Operation σ)) (pipeline : Pipeline σ) :
    runAll (operations.map Operation.watched) (pipeline.watched []) =
        ((runAll operations pipeline).1,
          (runAll operations pipeline).2.watched (seenIn operations pipeline)) ∧
      actsIn (seenIn operations pipeline) =
        (history operations pipeline).flatMap Handling.acts := by
  obtain ⟨now, same, shown⟩ := runAll_watched operations pipeline []
  have seen : seenIn operations pipeline = now := by
    rw [seenIn, same]
    rfl
  rw [seen]
  exact ⟨same, shown⟩

/-- Operations one after the other give out their handles one after the other. -/
theorem runAll_append (before after : List (Operation σ)) (pipeline : Pipeline σ) :
    runAll (before ++ after) pipeline =
      ((runAll before pipeline).1 ++ (runAll after (runAll before pipeline).2).1,
        (runAll after (runAll before pipeline).2).2) := by
  induction before generalizing pipeline with
  | nil => rfl
  | cons operation rest ih => rw [List.cons_append, runAll, ih, runAll, List.append_assoc]

/-- What is handled in operations is what is handled in the first ones, and then in the others. -/
theorem history_append (before after : List (Operation σ)) (pipeline : Pipeline σ) :
    history (before ++ after) pipeline =
      history before pipeline ++ history after (runAll before pipeline).2 := by
  induction before generalizing pipeline with
  | nil => rfl
  | cons operation rest ih => rw [List.cons_append, history, ih, history, runAll, List.append_assoc]

/-! ## The messages of a history -/

/-- Every message finds a part of the hooks that there were at the start. -/
theorem Threads.part_of_mem {start finish : HookTable σ × σ} {handlings : List (Handling σ)}
    (threads : Threads start handlings finish) (member : handling ∈ handlings) :
    handling.pipeline.table.Part start.1 := by
  induction handlings generalizing start with
  | nil => cases member
  | cons first rest ih =>
      obtain ⟨rfl, later⟩ := threads
      rcases List.mem_cons.mp member with rfl | below
      · exact .refl _
      · exact (ih later below).trans (follows_passed first).table

/-- The messages that are handled in an operation lead from the state before it to the state after
it, if there are any. -/
theorem Operation.threads_apply (operation : Operation σ) (pipeline : Pipeline σ) :
    operation.handlings pipeline = [] ∨
      Threads pipeline.core (operation.handlings pipeline) (operation.apply pipeline).core := by
  cases operation with
  | handle bytes incoming fake => exact .inr (threads_handling pipeline bytes incoming fake)
  | write direction name version object =>
      exact .inr (threads_write pipeline direction name version object)
  | writeRaw direction bytes => exact .inr (threads_writeRaw pipeline direction bytes)
  | _ => exact .inl rfl

/-- The messages that are handled in an operation are a message and what it causes, if there are
any. -/
theorem Operation.handlings_cases (operation : Operation σ) (pipeline : Pipeline σ) :
    operation.handlings pipeline = [] ∨ ∃ bytes incoming fake,
      operation.handlings pipeline = (pipeline.handling bytes incoming fake).begun := by
  cases operation with
  | handle bytes incoming fake => exact .inr ⟨bytes, incoming, fake, rfl⟩
  | write direction name version object =>
      rw [handlings]
      split
      next => exact .inl rfl
      next bytes _ => exact .inr ⟨bytes, direction.isIncoming, true, rfl⟩
  | writeRaw direction bytes => exact .inr ⟨bytes, direction.isIncoming, true, rfl⟩
  | _ => exact .inl rfl

/-- A message that is caused stands on some level. -/
theorem exists_level_of_mem {bytes : Bytes} {incoming fake : Bool}
    (member : handling ∈ (pipeline.handling bytes incoming fake).begun) :
    ∃ level left, pipeline.levels = left + level ∧
      (pipeline.deeper level).Follows handling.pipeline ∧
      handling = handlingWith (caused left) handling.pipeline handling.bytes handling.incoming
        handling.fake := by
  have every := begun_perm fun level (deep : pipeline.levels < level) =>
    atLevel_eq_nil bytes incoming fake deep
  obtain ⟨level, _, present⟩ := List.mem_flatMap.mp (every.mem_iff.mp member)
  obtain ⟨left, rest⟩ := exists_of_mem_atLevel present
  exact ⟨level, left, rest⟩

/-- A message of a history is handled by the pipeline that it finds. -/
theorem eq_handling_of_mem {bytes : Bytes} {incoming fake : Bool}
    (member : handling ∈ (pipeline.handling bytes incoming fake).begun) :
    handling = handling.pipeline.handling handling.bytes handling.incoming handling.fake := by
  obtain ⟨level, left, count, follows, same⟩ := exists_level_of_mem member
  have levels : handling.pipeline.levels = left := by
    rw [follows.levels]
    change pipeline.limits.writeDepth - (pipeline.depth + level) = left
    rw [Nat.sub_add_eq, ← Pipeline.levels, count, Nat.add_sub_cancel]
  rw [Pipeline.handling, levels]
  exact same

/-- A message of a history finds hooks in order, and is handled by the pipeline that it finds. -/
theorem of_mem_history {operations : List (Operation σ)} (inOrder : pipeline.table.InOrder)
    (member : handling ∈ history operations pipeline) :
    handling.pipeline.table.InOrder ∧
      handling = handling.pipeline.handling handling.bytes handling.incoming handling.fake := by
  induction operations generalizing pipeline with
  | nil => cases member
  | cons operation rest ih =>
      rcases List.mem_append.mp member with now | later
      · rcases operation.handlings_cases pipeline with none | ⟨bytes, incoming, fake, same⟩
        · rw [none] at now
          cases now
        · rw [same] at now
          obtain ⟨_, _, _, follows, _⟩ := exists_level_of_mem now
          exact ⟨follows.table.inOrder inOrder, eq_handling_of_mem now⟩
      · exact ih (inOrder_apply operation inOrder) later

end Relay.Pipeline
