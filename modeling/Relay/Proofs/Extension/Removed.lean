import Relay.Proofs.Extension.Housed
import Relay.Proofs.Pipeline.Removals

/-! # Who removes a hook

Whatever is done with a host, a hook is removed by its own extension, by the host that clears away
what its extension has left, by an order of the program around the host, or while a message passes:
then it was to run once and has run, or a callback has asked for it to be removed
(`Relay.Host.accounted_run`). Extensions that ask outside of callbacks remove hooks of their own
only. But a callback is not asked whose hooks it removes. -/

namespace Relay

variable {σ : Type} {entry : Option UInt16 × Hook σ}

/-- Whether an operation is to remove hooks. -/
def Pipeline.Operation.isRemoval : Pipeline.Operation σ → Bool
  | .unhook _ | .unhookOwned _ _ | .unhookOwner _ | .reset => true
  | _ => false

/-- To register a hook removes none. -/
theorem Pipeline.mem_hook {pipeline : Pipeline σ} (member : entry ∈ pipeline.table.registered)
    (owner : Option String) (target : String) (callback : Callback σ) (options : HookOptions) :
    entry ∈ (pipeline.hook owner target callback options).2.table.registered := by
  cases found : pipeline.targetCode target callback with
  | error =>
      simp only [hook, found]
      exact member
  | ok code =>
      simp only [hook, found]
      exact (HookTable.registered_insert _ _ _).mem_iff.mpr (List.mem_cons_of_mem _ member)

namespace Deed

variable {deed : Deed σ} {deeds : List (Deed σ)} {before after : HookTable σ}

/-- The messages that are handled. -/
def handlings (deed : Deed σ) : List (Pipeline.Handling σ) :=
  deed.operation.handlings deed.pipeline

/-- Why a hook is removed: its extension removes it, its extension was unloaded or could not be
loaded, the program around the host removes hooks, a message has called it and it runs once, or a
message has called a callback that asked for its handle. -/
inductive Cause (entry : Option UInt16 × Hook σ) : Deed σ → Prop where
  | own {name : String} {pipeline : Pipeline σ} (owned : entry.2.owner = some name) :
    Cause entry ⟨.extension name, pipeline, .unhookOwned name entry.2.handle⟩
  | teardown {name : String} {pipeline : Pipeline σ} (owned : entry.2.owner = some name) :
    Cause entry ⟨.teardown name, pipeline, .unhookOwner name⟩
  | order {pipeline : Pipeline σ} {operation : Pipeline.Operation σ}
    (removal : operation.isRemoval = true) : Cause entry ⟨.program, pipeline, operation⟩
  | once {deed : Deed σ} {handling : Pipeline.Handling σ} {visit : Pipeline.Visit σ}
    (handled : handling ∈ deed.handlings) (passes : visit ∈ handling.visits)
    (called : visit.called = true) (same : visit.hook = entry.2) (once : entry.2.once = true) :
    Cause entry deed
  | asked {deed : Deed σ} {handling : Pipeline.Handling σ} {visit : Pipeline.Visit σ}
    (handled : handling ∈ deed.handlings) (passes : visit ∈ handling.visits)
    (called : visit.called = true) (asks : entry.2.handle ∈ visit.asked) : Cause entry deed

/-- Messages remove hooks that have run and hooks that callbacks ask for. -/
theorem cause_of_threads {start finish : HookTable σ × σ}
    (threads : Pipeline.Threads start deed.handlings finish) (inOrder : start.1.InOrder)
    (member : entry ∈ start.1.registered) (gone : entry ∉ finish.1.registered) :
    deed.Cause entry := by
  obtain ⟨handling, handled, visit, passes, called, ⟨same, once⟩ | asks⟩ :=
    threads.exists_removes inOrder member gone
  · exact .once handled passes called same once
  · exact .asked handled passes called asks

/-- Of a message that is written, a hook is removed by a cause only. -/
theorem cause_of_write {actor : Actor} {pipeline : Pipeline σ} {direction : Direction}
    {name : String} {version : VersionRequest} {object : Object}
    (inOrder : pipeline.table.InOrder) (member : entry ∈ pipeline.table.registered)
    (gone : entry ∉ (pipeline.write direction name version object).2.table.registered) :
    Cause entry ⟨actor, pipeline, .write direction name version object⟩ :=
  cause_of_threads (Pipeline.threads_write pipeline direction name version object) inOrder member
    gone

/-- An order of the program, or a message that it lets pass, removes a hook. -/
theorem cause_of_program {pipeline : Pipeline σ} (operation : Pipeline.Operation σ)
    (inOrder : pipeline.table.InOrder) (member : entry ∈ pipeline.table.registered)
    (gone : entry ∉ (operation.apply pipeline).table.registered) :
    Cause entry ⟨.program, pipeline, operation⟩ := by
  cases operation with
  | hook owner target callback options =>
      exact absurd (Pipeline.mem_hook member owner target callback options) gone
  | unhook handle => exact .order rfl
  | unhookOwned owner handle => exact .order rfl
  | unhookOwner owner => exact .order rfl
  | reset => exact .order rfl
  | handle bytes incoming fake =>
      exact cause_of_threads (Pipeline.threads_handling pipeline bytes incoming fake) inOrder member
        gone
  | write direction name version object => exact cause_of_write inOrder member gone
  | writeRaw direction bytes =>
      exact cause_of_threads (Pipeline.threads_writeRaw pipeline direction bytes) inOrder member
        gone
  | drain => exact absurd member gone

/-- **A hook is removed for a cause.** -/
theorem cause_of_removed (proper : deed.Proper) (inOrder : deed.before.InOrder)
    (member : entry ∈ deed.before.registered) (gone : entry ∉ deed.after.registered) :
    deed.Cause entry := by
  cases proper with
  | program pipeline operation => exact cause_of_program operation inOrder member gone
  | hook name pipeline target callback options =>
      exact absurd (Pipeline.mem_hook member (some name) target callback options) gone
  | unhook name pipeline handle =>
      have left : (pipeline.unhookOwned name handle).2.table.registered = _ :=
        (Pipeline.Operation.unhookOwned name handle).changes_apply inOrder
      have removed : entry ∉ (pipeline.unhookOwned name handle).2.table.registered := gone
      rw [left, List.mem_filter, not_and, Bool.not_eq_true', Bool.not_eq_false, Bool.and_eq_true,
        beq_iff_eq, beq_iff_eq] at removed
      obtain ⟨rfl, owned⟩ := removed member
      exact .own owned
  | write name pipeline direction message version object => exact cause_of_write inOrder member gone
  | teardown name pipeline =>
      have left : (pipeline.unhookOwner name).2.table.registered = _ :=
        HookTable.registered_removeOwnedBy pipeline.table name
      have removed : entry ∉ (pipeline.unhookOwner name).2.table.registered := gone
      rw [left, List.mem_filter, not_and, bne_iff_ne, not_not] at removed
      exact .teardown (removed member)

end Deed

/-- An occurrence changes hooks by its deeds only. -/
theorem Occurrence.Leads.threads_deeds {foreign : List String} {before after : Standing σ}
    {occurrences : List (Occurrence σ)} (leads : Leads foreign before occurrences after) :
    Deed.Threads before.table (occurrences.flatMap deeds) after.table := by
  induction occurrences generalizing before with
  | nil =>
      obtain rfl := leads
      exact rfl
  | cons occurrence rest ih =>
      rw [List.flatMap_cons]
      refine Deed.Threads.append ?_ (ih leads.2)
      cases occurrence with
      | call made =>
          rw [← leads.1.1]
          exact made.threads_deeds
      | order pipeline operation => exact ⟨leads.1.1, rfl⟩

/-- Whatever occurs is proper for the one who does it. -/
theorem Occurrence.proper_of_mem_deeds (occurrence : Occurrence σ) :
    ∀ deed ∈ occurrence.deeds, deed.Proper := by
  cases occurrence with
  | call made => exact fun deed member => (made.proper_of_mem_deeds deed member).1
  | order pipeline operation => exact List.forall_mem_singleton.mpr (.program _ _)

/-- Deeds that account for all that becomes of the hooks: each finds the hooks that the one before
has left, is proper for the one who does it, and removes a hook only for a cause. -/
structure Accounted (before : HookTable σ) (deeds : List (Deed σ)) (after : HookTable σ) :
    Prop where
  threads : Deed.Threads before deeds after
  proper : ∀ deed ∈ deeds, deed.Proper
  causes : ∀ deed ∈ deeds, ∀ entry ∈ deed.before.registered, entry ∉ deed.after.registered →
    deed.Cause entry
  gone : ∀ entry ∈ before.registered, entry ∉ after.registered →
    ∃ deed ∈ deeds, deed.Cause entry

namespace Host

variable {start : Host σ}

/-- **Over any history all that becomes of the hooks is accounted for.** -/
theorem accounted_history (host : Host σ) (operations : List (Operation σ))
    (inOrder : host.pipeline.table.InOrder) :
    Accounted host.pipeline.table ((host.history operations).flatMap Occurrence.deeds)
      (host.run operations).pipeline.table := by
  have threads := (leads_history operations host (mem_foreignNames operations)).threads_deeds
  have proper : ∀ deed ∈ (host.history operations).flatMap Occurrence.deeds, deed.Proper := by
    intro deed member
    obtain ⟨occurrence, _, listed⟩ := List.mem_flatMap.mp member
    exact occurrence.proper_of_mem_deeds deed listed
  have causes : ∀ deed ∈ (host.history operations).flatMap Occurrence.deeds,
      ∀ entry ∈ deed.before.registered, entry ∉ deed.after.registered → deed.Cause entry :=
    fun deed member _ => Deed.cause_of_removed (proper deed member)
      ((threads.inOrder inOrder).1 deed member)
  refine ⟨threads, proper, causes, fun entry member gone => ?_⟩
  obtain ⟨deed, listed, present, absent⟩ := threads.exists_removes member gone
  exact ⟨deed, listed, causes deed listed entry present absent⟩

/-- **Every removal of a hook has its cause.** -/
theorem accounted_run (unused : start.Unused) (first more : List (Operation σ)) :
    Accounted (start.run first).pipeline.table
      (((start.run first).history more).flatMap Occurrence.deeds)
      ((start.run first).run more).pipeline.table := by
  have empty : start.pipeline.table.InOrder := by
    rw [unused.table]
    exact .empty
  have inOrder := ((start.accounted_history first empty).threads.inOrder empty).2
  exact accounted_history (start.run first) more inOrder

/-- An extension that registers one hook. -/
def hooking (target : String) (callback : Callback Unit) : Extension Unit :=
  ⟨.hook target callback .standard fun _ => .pass, .pass, 0, fun _ => ((), .ok none),
    fun _ => .pass, none⟩

/-- Let a message pass. -/
def passing : Callback Unit := .raw fun _ _ bytes => .done (.ok (.pass, bytes))

/-- Let a message pass, and ask for the hook that was registered first to be removed. -/
def intruding : Callback Unit := .raw fun _ _ bytes => .unhook 1 (.done (.ok (.pass, bytes)))

/-- A host with two extensions of which one lets a message pass and the other one intrudes. -/
def shared : Host Unit :=
  let catalog := Catalog.empty.register "alpha" fun _ => (hooking "C_ASK" passing, ())
  { Host.new .unhooked (catalog.register "beta" fun _ => (hooking "*" intruding, ())) "modules"
    with installed := [.ofName "alpha", .ofName "beta"] }

/-- Both extensions are loaded. -/
def settling : List (Operation Unit) := [.load "alpha", .load "beta"]

/-- A message comes in. -/
def passed : List (Operation Unit) := [.pipeline (.handle #[4, 0, 10, 0] true false)]

/-- On a host with two extensions all that becomes of the hooks is accounted for. -/
theorem accounted_shared :
    shared.Unused ∧ Accounted (shared.run settling).pipeline.table
      (((shared.run settling).history passed).flatMap Occurrence.deeds)
      ((shared.run settling).run passed).pipeline.table :=
  have unused : shared.Unused := ⟨⟨Pipeline.unhooked.store, 1, .standard, (), rfl⟩, rfl⟩
  ⟨unused, accounted_run unused settling passed⟩

/-- Handles, owners and whether they are to run once, of the hooks of a table. -/
def owners (table : HookTable Unit) : List (Nat × Option String × Bool) :=
  table.registered.map fun entry => (entry.2.handle, entry.2.owner, entry.2.once)

/-- The callback of one extension has the hook of another one removed, which is still loaded, has
not asked for that, and does not run once. -/
theorem owners_intruded :
    owners (shared.run settling).pipeline.table =
        [(1, some "alpha", false), (2, some "beta", false)] ∧
      ((shared.run settling).pipeline.handling #[4, 0, 10, 0] true false).begun.flatMap
        (fun handling => handling.visits.map fun visit => (visit.hook.owner, visit.asked)) =
        [(some "alpha", []), (some "beta", [1])] ∧
      owners ((shared.run settling).run passed).pipeline.table = [(2, some "beta", false)] ∧
      ((shared.run settling).run passed).loadedNames = ["alpha", "beta"] :=
  ⟨rfl, rfl, rfl, rfl⟩

end Host

end Relay
