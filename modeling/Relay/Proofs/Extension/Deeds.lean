import Relay.Proofs.Extension.Traced
import Relay.Proofs.Pipeline.History

/-! # Who does what to the hooks

All that extensions and the program around them do to the hooks of a pipeline are operations on it,
each done by somebody (`Relay.Deed`). A routine does one operation after the other, from the hooks
as they are before to the hooks as they are after (`Relay.Routine.threads_deeds`), and only such
operations as are proper for its extension (`Relay.Routine.proper_of_mem_deeds`). -/

namespace Relay

variable {σ : Type}

/-- Who acts on a pipeline: the program that has it, the code of an extension, or the host that
clears away what an extension has left. -/
inductive Actor where
  | program
  | extension (name : String)
  | teardown (name : String)
  deriving DecidableEq, Repr

/-- An operation on a pipeline that somebody does. -/
structure Deed (σ : Type) where
  actor : Actor
  pipeline : Pipeline σ
  operation : Pipeline.Operation σ

/-- For whom an operation registers a hook. -/
def Pipeline.Operation.registrant? : Pipeline.Operation σ → Option String
  | .hook owner _ _ _ => owner
  | _ => none

/-- A new hook is owned by the one for whom it is registered. -/
theorem Pipeline.Operation.owner_of_mem_apply {pipeline : Pipeline σ} {operation : Operation σ}
    {entry : Option UInt16 × Hook σ}
    (member : entry ∈ (operation.apply pipeline).table.registered) :
    entry ∈ pipeline.table.registered ∨ entry.2.owner = operation.registrant? := by
  cases operation with
  | hook owner target callback options =>
      cases found : pipeline.targetCode target callback with
      | error =>
          simp only [apply, Pipeline.hook, found] at member
          exact .inl member
      | ok code =>
          simp only [apply, Pipeline.hook, found] at member
          rcases List.mem_cons.mp ((HookTable.registered_insert _ _ _).mem_iff.mp member) with
            rfl | old
          · exact .inr rfl
          · exact .inl old
  | unhook handle => exact .inl ((HookTable.Part.remove _ handle).registered.subset member)
  | unhookOwned owner handle =>
      rw [apply, Pipeline.unhookOwned] at member
      split at member
      next => exact .inl ((HookTable.Part.remove _ handle).registered.subset member)
      next => exact .inl member
  | unhookOwner owner =>
      exact .inl ((HookTable.Part.removeOwnedBy _ owner).registered.subset member)
  | reset => exact .inl ((HookTable.Part.clear _).registered.subset member)
  | handle bytes incoming fake =>
      exact .inl ((follows_handle _ _ _ _).table.registered.subset member)
  | write direction name version object =>
      exact .inl ((follows_write _ _ _ _ _).table.registered.subset member)
  | writeRaw direction bytes =>
      exact .inl ((follows_writeRaw _ _ _).table.registered.subset member)
  | drain => exact .inl member

namespace Deed

variable {deed : Deed σ} {deeds more : List (Deed σ)} {start middle finish : HookTable σ}
  {entry : Option UInt16 × Hook σ}

/-- The hooks before. -/
def before (deed : Deed σ) : HookTable σ := deed.pipeline.table

/-- The hooks after. -/
def after (deed : Deed σ) : HookTable σ := (deed.operation.apply deed.pipeline).table

/-- What somebody can do. An extension registers hooks as its own, removes hooks that it owns, and
writes messages. -/
inductive Proper : Deed σ → Prop where
  | program (pipeline : Pipeline σ) (operation : Pipeline.Operation σ) :
    Proper ⟨.program, pipeline, operation⟩
  | hook (name : String) (pipeline : Pipeline σ) (target : String) (callback : Callback σ)
      (options : HookOptions) :
    Proper ⟨.extension name, pipeline, .hook (some name) target callback options⟩
  | unhook (name : String) (pipeline : Pipeline σ) (handle : Nat) :
    Proper ⟨.extension name, pipeline, .unhookOwned name handle⟩
  | write (name : String) (pipeline : Pipeline σ) (direction : Direction) (message : String)
      (version : VersionRequest) (object : Object) :
    Proper ⟨.extension name, pipeline, .write direction message version object⟩
  | teardown (name : String) (pipeline : Pipeline σ) :
    Proper ⟨.teardown name, pipeline, .unhookOwner name⟩

/-- Deeds one after the other: the first finds the hooks as they are at the start, each leaves them
to the next, and the last one leaves them as they are at the end. -/
def Threads (start : HookTable σ) : List (Deed σ) → HookTable σ → Prop
  | [], finish => start = finish
  | deed :: rest, finish => deed.before = start ∧ Threads deed.after rest finish

/-- What is done first leaves the hooks to what is done then. -/
theorem Threads.append (first : Threads start deeds middle) (second : Threads middle more finish) :
    Threads start (deeds ++ more) finish := by
  induction deeds generalizing start with
  | nil =>
      obtain rfl := first
      exact second
  | cons deed rest ih => exact ⟨first.1, ih first.2⟩

/-- Whoever acts, hooks stay in order. -/
theorem Threads.inOrder (threads : Threads start deeds finish) (inOrder : start.InOrder) :
    (∀ deed ∈ deeds, deed.before.InOrder) ∧ finish.InOrder := by
  induction deeds generalizing start with
  | nil =>
      obtain rfl := threads
      exact ⟨List.forall_mem_nil _, inOrder⟩
  | cons deed rest ih =>
      obtain ⟨rfl, later⟩ := threads
      have next := ih later (Pipeline.inOrder_apply deed.operation inOrder)
      exact ⟨List.forall_mem_cons.mpr ⟨inOrder, next.1⟩, next.2⟩

/-- A hook that is there at the end was there at the start or was registered for its owner. -/
theorem Threads.mem (threads : Threads start deeds finish) (member : entry ∈ finish.registered) :
    entry ∈ start.registered ∨
      ∃ deed ∈ deeds, entry.2.owner = deed.operation.registrant? := by
  induction deeds generalizing start with
  | nil =>
      obtain rfl := threads
      exact .inl member
  | cons deed rest ih =>
      obtain ⟨rfl, later⟩ := threads
      rcases ih later with present | ⟨other, listed, owned⟩
      · rcases Pipeline.Operation.owner_of_mem_apply present with old | owned
        · exact .inl old
        · exact .inr ⟨deed, List.mem_cons_self, owned⟩
      · exact .inr ⟨other, List.mem_cons_of_mem _ listed, owned⟩

/-- A hook that is not there any more was removed by one of the deeds. -/
theorem Threads.exists_removes (threads : Threads start deeds finish)
    (member : entry ∈ start.registered) (gone : entry ∉ finish.registered) :
    ∃ deed ∈ deeds, entry ∈ deed.before.registered ∧ entry ∉ deed.after.registered := by
  induction deeds generalizing start with
  | nil =>
      obtain rfl := threads
      exact absurd member gone
  | cons deed rest ih =>
      obtain ⟨rfl, later⟩ := threads
      by_cases left : entry ∈ deed.after.registered
      · obtain ⟨other, listed, removes⟩ := ih later left
        exact ⟨other, List.mem_cons_of_mem _ listed, removes⟩
      · exact ⟨deed, List.mem_cons_self, member, left⟩

end Deed

namespace Moment

variable {name : String} {now : Nat} {moments : List (Moment σ)} {start finish : Stage σ}

/-- What a request of the extension `name` does to the pipeline. -/
def deeds (name : String) : Moment σ → List (Deed σ)
  | ⟨.hook target callback options _, stage⟩ =>
    [⟨.extension name, stage.pipeline, .hook (some name) target callback options⟩]
  | ⟨.unhook handle _, stage⟩ => [⟨.extension name, stage.pipeline, .unhookOwned name handle⟩]
  | ⟨.write direction message version object _, stage⟩ =>
    [⟨.extension name, stage.pipeline, .write direction message version object⟩]
  | _ => []

/-- A request changes hooks by its deeds only. -/
theorem threads_deeds (moment : Moment σ) :
    Deed.Threads moment.stage.pipeline.table (moment.deeds name)
      (moment.after name now).pipeline.table := by
  obtain ⟨routine, stage⟩ := moment
  cases routine with
  | hook => exact ⟨rfl, rfl⟩
  | unhook => exact ⟨rfl, rfl⟩
  | write => exact ⟨rfl, rfl⟩
  | _ => exact rfl

/-- A request does what is proper for its extension. -/
theorem proper_of_mem_deeds (moment : Moment σ) :
    ∀ deed ∈ moment.deeds name, deed.actor = .extension name ∧ deed.Proper := by
  obtain ⟨routine, stage⟩ := moment
  cases routine with
  | hook => exact List.forall_mem_singleton.mpr ⟨rfl, .hook _ _ _ _ _⟩
  | unhook => exact List.forall_mem_singleton.mpr ⟨rfl, .unhook _ _ _⟩
  | write => exact List.forall_mem_singleton.mpr ⟨rfl, .write _ _ _ _ _ _⟩
  | _ => exact List.forall_mem_nil _

/-- Requests one after the other change hooks by their deeds only. -/
theorem Leads.threads_deeds (leads : Leads name now start moments finish) :
    Deed.Threads start.pipeline.table (moments.flatMap (·.deeds name)) finish.pipeline.table := by
  induction moments generalizing start with
  | nil =>
      obtain rfl := leads
      exact rfl
  | cons moment rest ih =>
      obtain ⟨rfl, later⟩ := leads
      exact moment.threads_deeds.append (ih later)

end Moment

namespace Routine

variable {name : String} {now : Nat} {peers : List (Loaded σ)}

/-- What a routine of the extension `name` does to the pipeline, in order. -/
def deeds (name : String) (now : Nat) (peers : List (Loaded σ)) (routine : Routine σ)
    (stage : Stage σ) : List (Deed σ) :=
  (routine.trace name now peers stage).flatMap (·.deeds name)

/-- **A routine changes hooks by its deeds only.** -/
theorem threads_deeds (routine : Routine σ) (stage : Stage σ) :
    Deed.Threads stage.pipeline.table (routine.deeds name now peers stage)
      (routine.run name now peers stage).2.pipeline.table :=
  (routine.leads_trace stage).threads_deeds

/-- A routine does what is proper for its extension. -/
theorem proper_of_mem_deeds (routine : Routine σ) (stage : Stage σ) :
    ∀ deed ∈ routine.deeds name now peers stage, deed.actor = .extension name ∧ deed.Proper := by
  intro deed member
  obtain ⟨moment, _, done⟩ := List.mem_flatMap.mp member
  exact moment.proper_of_mem_deeds deed done

end Routine

end Relay
