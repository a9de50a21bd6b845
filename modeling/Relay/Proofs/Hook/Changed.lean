import Mathlib.Data.List.Sort
import Relay.Hook.Table

/-! # Tables with other callbacks

When every hook of a table is exchanged for another with the same handle and order, the table
schedules, finds, takes in and removes the same (`Relay.HookTable.schedule_mapHooks`,
`Relay.HookTable.remove_mapHooks`). -/

namespace Relay

variable {σ τ : Type}

/-- Exchanges of hooks that keep their places in a table. -/
structure Hook.KeepsPlace (change : Hook σ → Hook τ) : Prop where
  handle : ∀ hook, (change hook).handle = hook.handle
  order : ∀ hook, (change hook).order = hook.order
  owner : ∀ hook, (change hook).owner = hook.owner

namespace HookTable

/-- A table with other hooks in the same places. -/
def mapHooks (change : Hook σ → Hook τ) (table : HookTable σ) : HookTable τ :=
  ⟨table.groups.map fun (code, hooks) => (code, hooks.map change), table.issued⟩

variable {change : Hook σ → Hook τ}

/-- The hooks of a group are changed one by one. -/
theorem group_mapHooks (change : Hook σ → Hook τ) (table : HookTable σ) (code : Option UInt16) :
    (table.mapHooks change).group code = (table.group code).map change := by
  rw [group, group, mapHooks]
  induction table.groups with
  | nil => rfl
  | cons group rest ih =>
      obtain ⟨other, hooks⟩ := group
      rw [List.map_cons, List.lookup_cons, List.lookup_cons]
      split
      next => rfl
      next => exact ih

theorem before_change (keeps : Hook.KeepsPlace change) (hook other : Hook σ) :
    (change hook).before (change other) = hook.before other := by
  simp only [Hook.before, keeps.handle, keeps.order]

/-- A hook is known by its handle, changed or not. -/
theorem handle_change (keeps : Hook.KeepsPlace change) (handle : Nat) :
    (fun hook : Hook τ => hook.handle == handle) ∘ change = fun hook => hook.handle == handle := by
  funext hook
  simp only [Function.comp_apply, keeps.handle]

/-- Hooks are woven alike, changed or not. -/
theorem weave_change (keeps : Hook.KeepsPlace change)
    (entries others : List (Option UInt16 × Hook σ)) :
    weave (entries.map fun entry => (entry.1, change entry.2))
        (others.map fun entry => (entry.1, change entry.2)) =
      (weave entries others).map fun entry => (entry.1, change entry.2) := by
  induction entries generalizing others with
  | nil => rfl
  | cons entry rest ih =>
      rw [List.map_cons, weave, List.takeWhile_map, List.dropWhile_map, ih, weave,
        List.map_append, List.map_cons]
      simp only [Function.comp_def, before_change keeps]

/-- **A schedule does not change** with what hooks do. -/
theorem schedule_mapHooks (keeps : Hook.KeepsPlace change) (table : HookTable σ) (code : UInt16) :
    (table.mapHooks change).schedule code = table.schedule code := by
  have merged : (table.mapHooks change).merged code =
      (table.merged code).map fun entry => (entry.1, change entry.2) := by
    rw [HookTable.merged, HookTable.merged, ← weave_change keeps, group_mapHooks, group_mapHooks]
    simp only [List.map_map, Function.comp_def]
  rw [schedule, schedule, merged, List.map_map]
  simp only [Function.comp_def, keeps.handle]

theorem get?_mapHooks (keeps : Hook.KeepsPlace change) (table : HookTable σ)
    (code : Option UInt16) (handle : Nat) :
    (table.mapHooks change).get? code handle = (table.get? code handle).map change := by
  rw [get?, get?, group_mapHooks, List.find?_map, handle_change keeps]

/-- In a table that hook is found that was found before, changed. -/
theorem find?_mapHooks (keeps : Hook.KeepsPlace change) (table : HookTable σ) (handle : Nat) :
    (table.mapHooks change).find? handle = (table.find? handle).map change := by
  rw [find?, find?, mapHooks, List.findSome?_map, List.map_findSome?]
  congr 1
  funext group
  have found := List.find?_map (p := fun hook : Hook τ => hook.handle == handle) (f := change)
    (l := group.2)
  rw [handle_change keeps] at found
  exact found

/-- It does not matter whether a hook is removed before or after all are changed. -/
theorem remove_mapHooks (keeps : Hook.KeepsPlace change) (table : HookTable σ) (handle : Nat) :
    (table.mapHooks change).remove handle = (table.remove handle).mapHooks change := by
  rw [remove, remove, mapHooks, mapHooks]
  congr 1
  induction table.groups with
  | nil => rfl
  | cons group rest ih =>
      obtain ⟨code, hooks⟩ := group
      rw [List.map_cons, takeOut, takeOut, List.any_map, List.eraseP_map, handle_change keeps]
      split
      next => rfl
      next => rw [List.map_cons, ih]

/-- It does not matter whether some hooks are removed before or after all are changed. -/
theorem foldl_remove_mapHooks (keeps : Hook.KeepsPlace change) (handles : List Nat)
    (table : HookTable σ) : handles.foldl remove (table.mapHooks change) =
      (handles.foldl remove table).mapHooks change := by
  induction handles generalizing table with
  | nil => rfl
  | cons handle rest ih => rw [List.foldl_cons, remove_mapHooks keeps, ih, List.foldl_cons]

/-- It does not matter whether the hooks of an owner are removed before or after all are changed. -/
theorem removeOwnedBy_mapHooks (keeps : Hook.KeepsPlace change) (table : HookTable σ)
    (owner : String) : (table.mapHooks change).removeOwnedBy owner =
      (table.removeOwnedBy owner).mapHooks change := by
  rw [removeOwnedBy, removeOwnedBy, mapHooks, mapHooks, List.map_map, List.map_map]
  congr 2
  funext group
  simp only [Function.comp_apply, List.filter_map, Function.comp_def, keeps.owner]

/-- A changed hook is put where it would have been put. -/
theorem place_change (keeps : Hook.KeepsPlace change) (hook : Hook σ) (hooks : List (Hook σ)) :
    place (change hook) (hooks.map change) = (place hook hooks).map change := by
  rw [place, place, List.takeWhile_map, List.dropWhile_map, List.map_append, List.map_cons]
  simp only [Function.comp_def, before_change keeps]

/-- A changed hook is registered as it would have been, under the same handle. -/
theorem insert_mapHooks (keeps : Hook.KeepsPlace change) (table : HookTable σ)
    (code : Option UInt16) (hook : Nat → Hook σ) :
    (table.mapHooks change).insert code (fun handle => change (hook handle)) =
      ((table.insert code hook).1, (table.insert code hook).2.mapHooks change) := by
  rw [insert, insert, mapHooks, mapHooks]
  congr 2
  generalize hook (table.issued + 1) = added
  induction table.groups with
  | nil => exact congrArg (fun hooks => [(code, hooks)]) (place_change keeps added [])
  | cons group rest ih =>
      obtain ⟨other, hooks⟩ := group
      rw [List.map_cons, placeIn, placeIn]
      split
      next => rw [List.map_cons, place_change keeps]
      next => rw [List.map_cons, ih]

end HookTable

end Relay
