import Relay.Proofs.Pipeline.Observed

/-! # Hooks that run once

A hook that is to run once is called at most once over all that is done with its pipeline, whatever
callbacks do (`Relay.Pipeline.runOnce_runAll`). The message that it is called on removes it before
the messages are handled that it causes, and a message that does not call it leaves it where it is,
unless a callback asks to have it removed. -/

namespace Relay.Pipeline

variable {σ : Type} {pipeline start : Pipeline σ} {handling : Handling σ} {number : Nat}

/-! ## Calls of one hook -/

/-- Whether no hook has a handle. -/
def Absent (number : Nat) (table : HookTable σ) : Prop :=
  ∀ entry ∈ table.registered, entry.2.handle ≠ number

/-- Whether a hook with a handle, if there is one, is to run once. -/
def IsOnce (number : Nat) (table : HookTable σ) : Prop :=
  ∀ entry ∈ table.registered, entry.2.handle = number → entry.2.once = true

theorem Absent.part {table part : HookTable σ} (absent : Absent number table)
    (isPart : part.Part table) : Absent number part :=
  fun entry member => absent entry (isPart.registered.subset member)

theorem IsOnce.part {table part : HookTable σ} (once : IsOnce number table)
    (isPart : part.Part table) : IsOnce number part :=
  fun entry member => once entry (isPart.registered.subset member)

/-- What hooks do that calls a hook at most once, and only a hook that is there before, and not any
more after it was called. -/
structure CallsOnce (number : Nat) (before after : HookTable σ) (acts : List Act) : Prop where
  count : acts.count (.call number) ≤ 1
  gone : .call number ∈ acts → Absent number after
  stays : Absent number before → .call number ∉ acts ∧ Absent number after

namespace CallsOnce

variable {before between after : HookTable σ} {acts more : List Act}

/-- Where nothing is called, nothing can be called twice. -/
theorem idle (stays : Absent number before → Absent number after) :
    CallsOnce number before after [] where
  count := Nat.zero_le _
  gone member := absurd member List.not_mem_nil
  stays absent := ⟨List.not_mem_nil, stays absent⟩

/-- A hook that was called is gone for all that comes after. -/
theorem append (first : CallsOnce number before between acts)
    (second : CallsOnce number between after more) :
    CallsOnce number before after (acts ++ more) where
  count := by
    rw [List.count_append]
    by_cases called : .call number ∈ acts
    · rw [List.count_eq_zero_of_not_mem (second.stays (first.gone called)).1]
      exact first.count
    · rw [List.count_eq_zero_of_not_mem called, Nat.zero_add]
      exact second.count
  gone member := by
    rcases List.mem_append.mp member with early | late
    · exact (second.stays (first.gone early)).2
    · exact second.gone late
  stays absent := by
    obtain ⟨idle, none⟩ := first.stays absent
    obtain ⟨idle', none'⟩ := second.stays none
    exact ⟨fun member => (List.mem_append.mp member).elim idle idle', none'⟩

end CallsOnce

/-! ## One message -/

/-- The visits of a message follow its schedule. -/
theorem sublist_visitsAlong (pipeline : Pipeline σ) (code : UInt16)
    (entries : List (Option UInt16 × Nat)) (passage : Passage σ) :
    ((visitsAlong pipeline code passage entries).map (·.hook.handle)).Sublist
      (entries.map Prod.snd) := by
  induction entries generalizing passage with
  | nil => exact List.Sublist.refl _
  | cons entry rest ih =>
      rw [visitsAlong, List.map_append, List.map_cons]
      cases found : pipeline.table.get? entry.1 entry.2 with
      | none => exact (ih _).cons _
      | some hook =>
          have named : hook.handle = entry.2 := by simpa using List.find?_some found
          rw [← named]
          exact (ih _).cons_cons _

/-- A hook is called by the visit of it that calls its callback. -/
theorem mem_acts_visit {visit : Visit σ} :
    .call number ∈ visit.acts ↔ visit.called = true ∧ visit.hook.handle = number := by
  rw [Visit.acts]
  split
  next called => simp [called, eq_comm]
  next idle => simp [idle]

/-- One visit calls its hook at most once, and no other. -/
theorem count_acts_visit (visit : Visit σ) :
    visit.acts.count (.call number) ≤ [visit.hook.handle].count number := by
  have asked : (visit.asked.map Act.unhook).count (.call number) = 0 :=
    List.count_eq_zero_of_not_mem (by simp)
  rw [Visit.acts]
  split
  next =>
    rw [List.count_cons, asked, List.count_singleton]
    by_cases same : visit.hook.handle = number <;> simp [same]
  next => exact Nat.zero_le _

/-- Visits call a hook at most as often as they visit it. -/
theorem count_flatMap_acts (visits : List (Visit σ)) (number : Nat) :
    (visits.flatMap Visit.acts).count (.call number) ≤
      (visits.map (·.hook.handle)).count number := by
  induction visits with
  | nil => exact Nat.le_refl _
  | cons visit rest ih =>
      rw [List.flatMap_cons, List.count_append, List.map_cons, ← List.singleton_append,
        List.count_append]
      exact Nat.add_le_add (count_acts_visit visit) ih

namespace Handling

/-- No hook is visited twice by a message. -/
theorem nodup_visits (inOrder : handling.pipeline.table.InOrder) :
    (handling.visits.map (·.hook.handle)).Nodup := by
  rw [visits]
  split
  next => exact List.nodup_nil
  next header _ =>
    have distinct : ((handling.pipeline.table.schedule header.code).map Prod.snd).Nodup := by
      rw [HookTable.schedule, List.map_map]
      exact inOrder.nodup_merged header.code
    exact distinct.sublist (sublist_visitsAlong _ _ _ _)

/-- What a message calls is a hook that is there when its handling begins. -/
theorem exists_visit_of_call (called : .call number ∈ handling.acts) :
    ∃ visit ∈ handling.visits, visit.called = true ∧ visit.hook.handle = number ∧
      ∃ group, (group, visit.hook) ∈ handling.pipeline.table.registered := by
  obtain ⟨visit, passes, acts⟩ := List.mem_flatMap.mp called
  obtain ⟨called, named⟩ := mem_acts_visit.mp acts
  exact ⟨visit, passes, called, named, exists_of_mem_visits passes⟩

/-- A hook that is to run once is not there any more when it was called. -/
theorem absent_of_call (inOrder : handling.pipeline.table.InOrder)
    (once : IsOnce number handling.pipeline.table) (called : .call number ∈ handling.acts) :
    Absent number handling.passed.table := by
  obtain ⟨visit, passes, called, named, group, present⟩ := exists_visit_of_call called
  intro entry member same
  rw [registered_passed inOrder, List.mem_filter, Bool.not_eq_true'] at member
  have spent : number ∈ visit.spends := by
    rw [Visit.spends, if_pos called, Passage.spent, if_pos (once _ present named), ← named]
    exact List.mem_singleton_self _
  have contained : (handling.visits.flatMap Visit.spends ++
      handling.visits.flatMap Visit.asked).contains entry.2.handle = true := by
    rw [List.contains_iff_mem, same]
    exact List.mem_append_left _ (List.mem_flatMap.mpr ⟨visit, passes, spent⟩)
  rw [contained] at member
  exact Bool.noConfusion member.2

/-- **A message calls a hook that is to run once at most once**, and removes it then. -/
theorem callsOnce (inOrder : handling.pipeline.table.InOrder)
    (once : IsOnce number handling.pipeline.table) :
    CallsOnce number handling.pipeline.table handling.passed.table handling.acts where
  count := (count_flatMap_acts _ number).trans
    (List.nodup_iff_count_le_one.mp (nodup_visits inOrder) number)
  gone := absent_of_call inOrder once
  stays absent := by
    refine ⟨fun called => ?_, absent.part (follows_passed handling).table⟩
    obtain ⟨visit, _, _, named, group, present⟩ := exists_visit_of_call called
    exact absent _ present named

end Handling

/-! ## All that is done -/

/-- Over messages that are handled one after the other, a hook that is to run once is called at most
once. -/
theorem Threads.callsOnce {start finish : HookTable σ × σ} {handlings : List (Handling σ)}
    (threads : Threads start handlings finish) (inOrder : start.1.InOrder)
    (once : IsOnce number start.1) :
    CallsOnce number start.1 finish.1 (handlings.flatMap Handling.acts) := by
  induction handlings generalizing start with
  | nil =>
      obtain rfl := threads
      exact .idle id
  | cons handling rest ih =>
      obtain ⟨rfl, later⟩ := threads
      have isPart := (follows_passed handling).table
      exact (handling.callsOnce inOrder once).append
        (ih later (isPart.inOrder inOrder) (once.part isPart))

/-- Operations that do not give out a handle register no other hook that has it. -/
theorem forall_runAll {operations : List (Operation σ)} (holds : Hook σ → Prop)
    (before : ∀ entry ∈ pipeline.table.registered, entry.2.handle = number → holds entry.2)
    (other : number ∉ (runAll operations pipeline).1) :
    ∀ entry ∈ (runAll operations pipeline).2.table.registered,
      entry.2.handle = number → holds entry.2 := by
  intro entry member same
  rcases mem_runAll operations member with present | given
  · exact before entry present same
  · exact absurd (same ▸ given) other

/-- Operations that do not give out a handle call the hook that has it at most once. -/
theorem callsOnce_history (operations : List (Operation σ)) (inOrder : pipeline.table.InOrder)
    (once : IsOnce number pipeline.table) (other : number ∉ (runAll operations pipeline).1) :
    CallsOnce number pipeline.table (runAll operations pipeline).2.table
      ((history operations pipeline).flatMap Handling.acts) := by
  induction operations generalizing pipeline with
  | nil => exact .idle id
  | cons operation rest ih =>
      rw [runAll, List.mem_append, not_or] at other
      have alone : number ∉ (runAll [operation] pipeline).1 :=
        fun given => (List.mem_append.mp given).elim other.1 List.not_mem_nil
      have first : CallsOnce number pipeline.table (operation.apply pipeline).table
          ((operation.handlings pipeline).flatMap Handling.acts) := by
        rcases operation.threads_apply pipeline with none | threads
        · rw [none]
          exact .idle fun absent => forall_runAll (fun _ => False) absent alone
        · exact threads.callsOnce inOrder once
      rw [history, List.flatMap_append]
      exact first.append (ih (inOrder_apply operation inOrder)
        (forall_runAll (·.once = true) once alone) other.2)

/-- A hook that is to run once is there neither when the message has passed that called it, nor
when a message comes to be handled that it has caused. -/
theorem absent_caused (inOrder : pipeline.table.InOrder) (once : IsOnce number pipeline.table)
    {bytes : Bytes} {incoming fake : Bool}
    (called : .call number ∈ (pipeline.handling bytes incoming fake).acts) :
    Absent number (pipeline.handling bytes incoming fake).passed.table ∧
      ∀ nested ∈ allBegun (pipeline.handling bytes incoming fake).caused,
        Absent number nested.pipeline.table := by
  have absent := Handling.absent_of_call inOrder once called
  refine ⟨absent, fun nested member => absent.part ?_⟩
  exact (threads_flush pipeline.levels _ _).part_of_mem member

/-- A message that neither calls a hook nor has it removed leaves it where it is. -/
theorem registered_handle {entry : Option UInt16 × Hook σ} (inOrder : pipeline.table.InOrder)
    (present : entry ∈ pipeline.table.registered) {bytes : Bytes} {incoming fake : Bool}
    (idle : .call entry.2.handle ∉ actsIn (pipeline.sightings handle bytes incoming fake))
    (unasked : .unhook entry.2.handle ∉ actsIn (pipeline.sightings handle bytes incoming fake)) :
    entry ∈ (pipeline.handle bytes incoming fake).2.table.registered := by
  by_contra gone
  rw [acts_handle] at idle unasked
  obtain ⟨handling, begins, visit, passes, called, removes⟩ :=
    (threads_handling pipeline bytes incoming fake).exists_removes inOrder present gone
  have shown {act : Act} (acts : act ∈ visit.acts) :
      act ∈ (pipeline.handling bytes incoming fake).begun.flatMap Handling.acts :=
    List.mem_flatMap.mpr ⟨handling, begins, List.mem_flatMap.mpr ⟨visit, passes, acts⟩⟩
  rcases removes with ⟨same, _⟩ | asked
  · exact idle (shown (mem_acts_visit.mpr ⟨called, congrArg Hook.handle same⟩))
  · refine unasked (shown ?_)
    rw [Visit.acts, if_pos called]
    exact List.mem_cons_of_mem _ (List.mem_map_of_mem asked)

/-- What holds of the hooks that are to run once in operations on a pipeline, however the callbacks
are made: watching shows what they do (`watched`, `shown`), and what is shown is what the messages
do that are handled (`handled`). Such a hook is called at most once (`once`). It is removed by the
message that it is called on, before the messages are handled that this one causes (`removed`). A
message that does not call a hook leaves it where it is unless it is asked to be removed
(`kept`). -/
structure RunOnce (operations : List (Operation σ)) (start : Pipeline σ) : Prop where
  watched : runAll (operations.map Operation.watched) (start.watched []) =
    ((runAll operations start).1, (runAll operations start).2.watched (seenIn operations start))
  shown : actsIn (seenIn operations start) = (history operations start).flatMap Handling.acts
  handled : ∀ handling ∈ history operations start,
    handling = handling.pipeline.handling handling.bytes handling.incoming handling.fake
  once : ∀ before owner target callback options after handle,
    operations = before ++ .hook owner target callback options :: after → options.once = true →
    ((runAll before start).2.hook owner target callback options).1 = .ok handle →
    (actsIn (seenIn operations start)).count (.call handle) ≤ 1
  removed : ∀ handling ∈ history operations start,
    ∀ entry ∈ handling.pipeline.table.registered, entry.2.once = true →
    .call entry.2.handle ∈ handling.acts → Absent entry.2.handle handling.passed.table ∧
      ∀ nested ∈ allBegun handling.caused, Absent entry.2.handle nested.pipeline.table
  kept : ∀ handling ∈ history operations start, ∀ entry ∈ handling.pipeline.table.registered,
    let seen := handling.pipeline.sightings handle handling.bytes handling.incoming handling.fake
    .call entry.2.handle ∉ actsIn seen → .unhook entry.2.handle ∉ actsIn seen →
    entry ∈ (handling.pipeline.handle handling.bytes handling.incoming
      handling.fake).2.table.registered

/-- A handle that an operation gives out is given out neither before nor after. -/
theorem not_mem_given {operation : Operation σ} (before after : List (Operation σ))
    (given : operation.given? (runAll before pipeline).2 = some number) :
    number ∉ (runAll before pipeline).1 ∧
      number ∉ (runAll after (operation.apply (runAll before pipeline).2)).1 := by
  have ascending := (given_runAll (before ++ operation :: after) pipeline).of_cons
  rw [runAll_append, runAll, given] at ascending
  obtain ⟨_, later, earlier⟩ := List.pairwise_append.mp ascending
  exact ⟨fun member => Nat.lt_irrefl number (earlier number member number List.mem_cons_self),
    fun member => Nat.lt_irrefl number ((List.pairwise_cons.mp later).1 number member)⟩

/-- A hook is to run once if it is registered so. -/
theorem isOnce_hook {owner : Option String} {target : String} {callback : Callback σ}
    {options : HookOptions} (inOrder : pipeline.table.InOrder)
    (absent : Absent number pipeline.table) (once : options.once = true) :
    IsOnce number (pipeline.hook owner target callback options).2.table := by
  intro entry member same
  have changes := (Operation.hook owner target callback options).changes_apply inOrder
  rw [Operation.Changes] at changes
  split at changes
  next =>
    rw [Operation.apply] at changes
    rw [changes] at member
    exact absurd same (absent entry member)
  next =>
    rcases List.mem_cons.mp (changes.mem_iff.mp member) with rfl | old
    · exact once
    · exact absurd same (absent entry old)

/-- A hook that is to run once is called at most once in operations of which one registers it. -/
theorem count_calls_le {before after : List (Operation σ)} {owner : Option String}
    {target : String} {callback : Callback σ} {options : HookOptions}
    (inOrder : pipeline.table.InOrder) (absent : Absent number pipeline.table)
    (once : options.once = true)
    (registers : ((runAll before pipeline).2.hook owner target callback options).1 = .ok number) :
    ((history (before ++ .hook owner target callback options :: after) pipeline).flatMap
      Handling.acts).count (.call number) ≤ 1 := by
  have given : (Operation.hook owner target callback options).given? (runAll before pipeline).2 =
      some number := congrArg Except.toOption registers
  obtain ⟨unused, spent⟩ := not_mem_given before after given
  have ordered := inOrder_runAll before inOrder
  -- no hook has the handle until this one is registered, and no other has it afterwards
  have idle := (callsOnce_history before inOrder
    (fun entry member same => absurd same (absent entry member)) unused).stays absent
  have calls := callsOnce_history after (inOrder_apply _ ordered)
    (isOnce_hook ordered idle.2 once) spent
  have split : history (before ++ .hook owner target callback options :: after) pipeline =
      history before pipeline ++ history after
        ((Operation.hook owner target callback options).apply (runAll before pipeline).2) :=
    history_append before _ pipeline
  rw [split, List.flatMap_append, List.count_append, List.count_eq_zero_of_not_mem idle.1,
    Nat.zero_add]
  exact calls.count

/-- **Hooks that run once run at most once.** Whatever is done with a new pipeline, and whatever the
callbacks of its hooks write, ask to be removed or fail at, a hook that is registered to run once is
called no more than once, is gone before messages are handled that the call has caused, and stays
until it is called or asked to be removed. -/
theorem runOnce_runAll {store : Store} {protocol : UInt32} {limits : PipelineLimits} {world : σ}
    (made : (Pipeline.new store protocol limits world).1 = .ok start)
    (operations : List (Operation σ)) : RunOnce operations start := by
  have fresh := table_of_new made
  have inOrder : start.table.InOrder := by
    rw [fresh]
    exact .empty
  obtain ⟨watched, shown⟩ := acts_seenIn operations start
  constructor
  case watched => exact watched
  case shown => exact shown
  case handled => exact fun handling member => (of_mem_history inOrder member).2
  case once =>
    intro before owner target callback options after handle same once registers
    have absent : Absent handle start.table := by
      rw [fresh]
      exact fun entry member => nomatch member
    rw [shown, same]
    exact count_calls_le inOrder absent once registers
  case removed =>
    intro handling member entry present once called
    obtain ⟨ordered, same⟩ := of_mem_history inOrder member
    have alone : IsOnce entry.2.handle handling.pipeline.table := by
      intro other listed named
      rwa [List.inj_on_of_nodup_map ordered.handles listed present named]
    rw [same] at called ⊢
    exact absent_caused ordered alone called
  case kept =>
    intro handling member entry present seen idle unasked
    exact registered_handle (of_mem_history inOrder member).1 present idle unasked

/-- A hook that runs once and writes the message again that it is called on, and two such messages
that are handled. -/
def echoing : List (Operation Unit) :=
  let echo : Callback Unit := .raw fun _ _ bytes => do
    discard (Program.request (.raw .toServer bytes))
    pure (.ok (.pass, bytes))
  [.hook none "C_ASK" echo { HookOptions.standard with filter := .any, once := true },
    .handle #[4, 0, 10, 0] false false, .writeRaw .toServer #[4, 0, 10, 0]]

/-- Three messages are handled and the hook is called on one of them. -/
theorem runOnce_echoing :
    (Pipeline.new unhooked.store 1 .standard ()).1 = .ok unhooked ∧
      (history echoing unhooked).length = 3 ∧ actsIn (seenIn echoing unhooked) = [.call 1] ∧
      RunOnce echoing unhooked :=
  have made : (Pipeline.new unhooked.store 1 .standard ()).1 = .ok unhooked := rfl
  ⟨made, rfl, rfl, runOnce_runAll made echoing⟩

end Relay.Pipeline
