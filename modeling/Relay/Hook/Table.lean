import Relay.Hook.Program

/-! # Hooks and their order

Hooks are kept in groups, one for each code and one for all messages, and stand in a group in
ascending order, of equal order the earlier registered first. The schedule of a message merges the
group of its code with the group for all messages. -/

namespace Relay

/-- Which messages a hook sees. What is not set does not matter. -/
structure Filter where
  fake : Option Bool
  incoming : Option Bool
  modified : Option Bool
  silenced : Option Bool
  deriving DecidableEq, Repr

namespace Filter

/-- Messages that are neither made up nor silenced. -/
def standard : Filter := ⟨some false, none, none, some false⟩

/-- All messages. -/
def any : Filter := ⟨none, none, none, none⟩

/-- Whether a hook sees a message. -/
def admits (filter : Filter) (flags : Flags) : Bool :=
  filter.fake.all (· == flags.fake) && filter.incoming.all (· == flags.incoming) &&
    filter.modified.all (· == flags.modified) && filter.silenced.all (· == flags.silenced)

end Filter

/-- How a hook is registered. -/
structure HookOptions where
  order : Int
  filter : Filter
  once : Bool
  deriving DecidableEq, Repr

/-- First in, with the usual filter, until it is removed. -/
def HookOptions.standard : HookOptions := ⟨0, .standard, false⟩

/-- A message as a hook sees it when it is read for the hook. -/
structure Event where
  name : String
  version : UInt32
  flags : Flags
  data : Object

/-- How a callback ends: with a verdict and what it made of the message, or not well. -/
abbrev Ending (α : Type) := Except Failure (Verdict × α)

/-- The callback of a hook: on the bytes of a message, or on its object by some version. -/
inductive Callback (σ : Type) where
  | raw (run : HookView → UInt16 → Bytes → Program σ (Ending Bytes))
  | parsed (version : VersionRequest) (run : HookView → Event → Program σ (Ending Object))

/-- A registered hook. -/
structure Hook (σ : Type) where
  handle : Nat
  order : Int
  owner : Option String
  target : String
  filter : Filter
  once : Bool
  callback : Callback σ

namespace Hook

/-- Whether a hook runs before another: by its order, and then by its handle, since handles grow
with every registration. -/
def before (hook other : Hook σ) : Bool :=
  decide (hook.order < other.order) || (hook.order == other.order && hook.handle < other.handle)

/-- What the hook knows of itself while a message passes. -/
def view (hook : Hook σ) (flags : Flags) (protocol : UInt32) : HookView :=
  ⟨hook.handle, hook.owner, flags, protocol⟩

end Hook

/-- The hooks for messages of a code, or for all messages, in the order in which they run. -/
abbrev HookGroup (σ : Type) := Option UInt16 × List (Hook σ)

/-- The registered hooks in their groups, and the last handle that was given out. -/
structure HookTable (σ : Type) where
  groups : List (HookGroup σ)
  issued : Nat

namespace HookTable

/-- No hooks yet. -/
def empty : HookTable σ := ⟨[], 0⟩

/-- The hooks for messages of a code, or for all messages. -/
def group (table : HookTable σ) (code : Option UInt16) : List (Hook σ) :=
  (table.groups.lookup code).getD []

/-- Put a hook behind those that run before it. -/
def place (hook : Hook σ) (hooks : List (Hook σ)) : List (Hook σ) :=
  hooks.takeWhile (·.before hook) ++ hook :: hooks.dropWhile (·.before hook)

/-- Put a hook into the group of a code. If there is no such group it is made. -/
def placeIn (code : Option UInt16) (hook : Hook σ) : List (HookGroup σ) → List (HookGroup σ)
  | [] => [(code, place hook [])]
  | (other, hooks) :: rest =>
    if other = code then (other, place hook hooks) :: rest
    else (other, hooks) :: placeIn code hook rest

/-- Register a hook under the next handle. -/
def insert (table : HookTable σ) (code : Option UInt16) (hook : Nat → Hook σ) :
    Nat × HookTable σ :=
  let handle := table.issued + 1
  (handle, ⟨placeIn code (hook handle) table.groups, handle⟩)

/-- The hook with a handle. -/
def find? (table : HookTable σ) (handle : Nat) : Option (Hook σ) :=
  table.groups.findSome? fun (_, hooks) => hooks.find? (·.handle == handle)

/-- Take a hook out of the first group that has it. -/
def takeOut (handle : Nat) : List (HookGroup σ) → List (HookGroup σ)
  | [] => []
  | (code, hooks) :: rest =>
    if hooks.any (·.handle == handle) then (code, hooks.eraseP (·.handle == handle)) :: rest
    else (code, hooks) :: takeOut handle rest

/-- Remove a hook. -/
def remove (table : HookTable σ) (handle : Nat) : HookTable σ :=
  { table with groups := takeOut handle table.groups }

/-- Remove all hooks of an owner. -/
def removeOwnedBy (table : HookTable σ) (owner : String) : HookTable σ :=
  { table with groups := table.groups.map fun (code, hooks) =>
      (code, hooks.filter (·.owner != some owner)) }

/-- Remove all hooks. Handles are not given out again. -/
def clear (table : HookTable σ) : HookTable σ :=
  { table with groups := [] }

/-- The number of hooks. -/
def size (table : HookTable σ) : Nat :=
  (table.groups.flatMap Prod.snd).length

/-- The number of hooks of an owner. -/
def countOwnedBy (table : HookTable σ) (owner : String) : Nat :=
  (table.groups.flatMap Prod.snd).countP (·.owner == some owner)

/-- Put each hook of a list behind those of another list that run before it. -/
def weave :
    List (Option UInt16 × Hook σ) → List (Option UInt16 × Hook σ) → List (Option UInt16 × Hook σ)
  | [], others => others
  | entry :: rest, others =>
    others.takeWhile (·.2.before entry.2) ++
      entry :: weave rest (others.dropWhile (·.2.before entry.2))

/-- The hooks for messages of a code and those for all messages, each with its group, in order. -/
def merged (table : HookTable σ) (code : UInt16) : List (Option UInt16 × Hook σ) :=
  weave ((table.group none).map fun hook => (none, hook))
    ((table.group (some code)).map fun hook => (some code, hook))

/-- The groups and handles of the hooks that a message of a code passes, in order. -/
def schedule (table : HookTable σ) (code : UInt16) : List (Option UInt16 × Nat) :=
  (table.merged code).map fun (group, hook) => (group, hook.handle)

/-- The hook of a group with a handle. -/
def get? (table : HookTable σ) (code : Option UInt16) (handle : Nat) : Option (Hook σ) :=
  (table.group code).find? (·.handle == handle)

end HookTable

end Relay
