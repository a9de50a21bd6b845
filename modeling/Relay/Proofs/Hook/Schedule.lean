import Mathlib.Data.List.Forall2
import Mathlib.Data.List.Sort
import Relay.Hook.Table

/-! # The schedules of a table

In a table in order (`Relay.HookTable.InOrder`) every code has one group, every group is sorted, and
no two hooks have the same handle. Registering a hook keeps a table in order
(`Relay.HookTable.InOrder.insert`), and so does every removal, which leaves a part of the table
(`Relay.HookTable.Part`): all hooks but the one that is to go
(`Relay.HookTable.InOrder.registered_remove`). The schedule of a table in order lists the hooks for
a code and those for all messages, each once and in ascending order
(`Relay.HookTable.InOrder.schedules`), and without some hooks the others in the same order
(`Relay.HookTable.InOrder.schedule_keeping`). -/

namespace Relay

namespace Hook

variable {σ : Type} {hook other third : Hook σ}

/-- Whether a hook does not run after another. -/
def notAfter (hook other : Hook σ) : Bool :=
  !other.before hook

theorem before_iff : hook.before other = true ↔
    hook.order < other.order ∨ hook.order = other.order ∧ hook.handle < other.handle := by
  simp [before]

/-- Not to run after another is to run before it or to have its order and its handle. -/
theorem notAfter_iff : hook.notAfter other = true ↔
    hook.order < other.order ∨ hook.order = other.order ∧ hook.handle ≤ other.handle := by
  rw [notAfter, Bool.not_eq_true', ← Bool.not_eq_true, before_iff]
  omega

/-- Hooks that do not run after one another do so along any chain. -/
theorem notAfter_trans (first : hook.notAfter other = true) (second : other.notAfter third = true) :
    hook.notAfter third = true := by
  rw [notAfter_iff] at *
  omega

/-- Of two hooks one does not run after the other. -/
theorem notAfter_total (hook other : Hook σ) :
    hook.notAfter other = true ∨ other.notAfter hook = true := by
  simp only [notAfter_iff]
  omega

/-- Of hooks with different handles, one that does not run after the other runs before it. -/
theorem before_of_notAfter (notAfter : hook.notAfter other = true)
    (differ : hook.handle ≠ other.handle) : hook.before other = true := by
  rw [notAfter_iff] at notAfter
  rw [before_iff]
  omega

instance : IsTrans (Hook σ) fun hook other => hook.notAfter other = true :=
  ⟨fun _ _ _ => notAfter_trans⟩

instance : Std.Total fun hook other : Hook σ => hook.notAfter other = true :=
  ⟨notAfter_total⟩

end Hook

namespace HookTable

variable {σ : Type} {table part whole : HookTable σ} {groups rest : List (HookGroup σ)}
  {code : Option UInt16} {hook : Hook σ} {handle : Nat}

/-- The hooks of some groups, each with the code of its group. -/
def hooksIn (groups : List (HookGroup σ)) : List (Option UInt16 × Hook σ) :=
  groups.flatMap fun (code, hooks) => hooks.map fun hook => (code, hook)

/-- The hooks of a table, each with the code of the messages that it is for. -/
def registered (table : HookTable σ) : List (Option UInt16 × Hook σ) :=
  hooksIn table.groups

theorem hooksIn_cons (hooks : List (Hook σ)) :
    hooksIn ((code, hooks) :: rest) = hooks.map (fun hook => (code, hook)) ++ hooksIn rest :=
  List.flatMap_cons

/-- What holds of a table however it came about. -/
structure InOrder (table : HookTable σ) : Prop where
  codes : (table.groups.map Prod.fst).Nodup
  sorted : ∀ group ∈ table.groups,
    group.2.Pairwise fun hook other => hook.notAfter other = true
  handles : (table.registered.map (·.2.handle)).Nodup
  issued : ∀ entry ∈ table.registered, entry.2.handle ≤ table.issued

/-- A table without hooks is in order. -/
theorem InOrder.empty : (empty : HookTable σ).InOrder where
  codes := List.nodup_nil
  sorted _ member := absurd member List.not_mem_nil
  handles := List.nodup_nil
  issued _ member := absurd member List.not_mem_nil

/-! ## Registering -/

/-- To put a hook into a group is to insert it by order and handle. -/
theorem place_eq_orderedInsert (hook : Hook σ) (hooks : List (Hook σ)) :
    place hook hooks = hooks.orderedInsert (fun hook other => hook.notAfter other = true) hook := by
  rw [List.orderedInsert_eq_take_drop]
  simp only [place, Hook.notAfter, Bool.not_eq_true', Bool.not_eq_false, Bool.decide_eq_true]

/-- A group gains the hook that is put into it and loses none. -/
theorem place_perm (hook : Hook σ) (hooks : List (Hook σ)) :
    (place hook hooks).Perm (hook :: hooks) := by
  rw [place_eq_orderedInsert]
  exact List.perm_orderedInsert _ hook hooks

/-- A sorted group stays sorted when a hook is put into it. -/
theorem sorted_place {hooks : List (Hook σ)}
    (sorted : hooks.Pairwise fun hook other => hook.notAfter other = true) (hook : Hook σ) :
    (place hook hooks).Pairwise fun hook other => hook.notAfter other = true := by
  rw [place_eq_orderedInsert]
  exact sorted.orderedInsert hook hooks

/-- The groups gain the hook that is put into one of them and lose none. -/
theorem hooksIn_placeIn (code : Option UInt16) (hook : Hook σ) (groups : List (HookGroup σ)) :
    (hooksIn (placeIn code hook groups)).Perm ((code, hook) :: hooksIn groups) := by
  induction groups with
  | nil => exact List.Perm.refl _
  | cons group rest ih =>
      obtain ⟨other, hooks⟩ := group
      rw [placeIn, hooksIn_cons]
      split
      next same =>
        subst same
        rw [hooksIn_cons]
        exact ((place_perm hook hooks).map _).append_right _
      next =>
        rw [hooksIn_cons]
        exact (ih.append_left _).trans List.perm_middle

/-- When a hook is put in, at most a group for its code is new. -/
theorem mem_codes_placeIn (other : Option UInt16) :
    other ∈ (placeIn code hook groups).map Prod.fst ↔
      other = code ∨ other ∈ groups.map Prod.fst := by
  induction groups with
  | nil => simp [placeIn]
  | cons group rest ih =>
      rw [placeIn]
      split
      next same =>
        subst same
        simp
      next =>
        simp only [List.map_cons, List.mem_cons, ih]
        tauto

/-- When a hook is put in, no code gets a second group. -/
theorem nodup_codes_placeIn (distinct : (groups.map Prod.fst).Nodup) :
    ((placeIn code hook groups).map Prod.fst).Nodup := by
  induction groups with
  | nil => simp [placeIn]
  | cons group rest ih =>
      rw [List.map_cons, List.nodup_cons] at distinct
      rw [placeIn]
      split
      next => exact List.nodup_cons.mpr distinct
      next differs =>
        refine List.nodup_cons.mpr ⟨?_, ih distinct.2⟩
        rw [mem_codes_placeIn]
        exact not_or.mpr ⟨differs, distinct.1⟩

/-- When a hook is put in, every group stays sorted. -/
theorem sorted_placeIn (sorted : ∀ group ∈ groups,
      group.2.Pairwise fun hook other => hook.notAfter other = true) :
    ∀ group ∈ placeIn code hook groups,
      group.2.Pairwise fun hook other => hook.notAfter other = true := by
  induction groups with
  | nil =>
      intro group member
      obtain rfl := List.mem_singleton.mp member
      exact sorted_place List.Pairwise.nil hook
  | cons first rest ih =>
      rw [List.forall_mem_cons] at sorted
      rw [placeIn]
      split
      next => exact List.forall_mem_cons.mpr ⟨sorted_place sorted.1 hook, sorted.2⟩
      next => exact List.forall_mem_cons.mpr ⟨sorted.1, ih sorted.2⟩

theorem registered_insert (table : HookTable σ) (code : Option UInt16) (hook : Nat → Hook σ) :
    (table.insert code hook).2.registered.Perm
      ((code, hook (table.issued + 1)) :: table.registered) :=
  hooksIn_placeIn code _ table.groups

/-- A registered hook has a handle of its own. -/
theorem InOrder.insert (inOrder : table.InOrder) (code : Option UInt16) {hook : Nat → Hook σ}
    (named : ∀ handle, (hook handle).handle = handle) : (table.insert code hook).2.InOrder where
  codes := nodup_codes_placeIn inOrder.codes
  sorted := sorted_placeIn inOrder.sorted
  handles := by
    rw [((table.registered_insert code hook).map _).nodup_iff, List.map_cons, List.nodup_cons]
    refine ⟨fun member => ?_, inOrder.handles⟩
    obtain ⟨entry, present, same⟩ := List.mem_map.mp member
    have old := inOrder.issued entry present
    rw [same, named] at old
    exact Nat.not_succ_le_self _ old
  issued := by
    intro entry member
    rcases List.mem_cons.mp ((table.registered_insert code hook).mem_iff.mp member) with rfl | old
    · exact (named _).le
    · exact (inOrder.issued entry old).trans (Nat.le_succ _)

/-! ## Removing -/

/-- Groups from which hooks were removed. -/
abbrev GroupsPart (groups whole : List (HookGroup σ)) : Prop :=
  List.SublistForall₂ (fun group whole => group.1 = whole.1 ∧ group.2.Sublist whole.2) groups whole

namespace GroupsPart

variable {all : List (HookGroup σ)}

theorem refl (groups : List (HookGroup σ)) : GroupsPart groups groups := by
  induction groups with
  | nil => exact .nil
  | cons group rest ih => exact .cons ⟨rfl, List.Sublist.refl _⟩ ih

theorem trans (first : GroupsPart groups rest) (second : GroupsPart rest all) :
    GroupsPart groups all := by
  have transitive : IsTrans (HookGroup σ) fun group whole =>
      group.1 = whole.1 ∧ group.2.Sublist whole.2 :=
    ⟨fun _ _ _ one two => ⟨one.1.trans two.1, one.2.trans two.2⟩⟩
  exact List.SublistForall₂.is_trans.trans _ _ _ first second

/-- Of fewer groups the hooks are fewer, in the same order. -/
theorem hooksIn (isPart : GroupsPart groups all) : (hooksIn groups).Sublist (hooksIn all) := by
  induction isPart with
  | nil => exact List.nil_sublist _
  | @cons group whole _ _ within _ ih =>
      obtain ⟨code, hooks⟩ := group
      obtain ⟨other, more⟩ := whole
      obtain ⟨rfl, fewer⟩ := within
      rw [hooksIn_cons, hooksIn_cons]
      exact (fewer.map _).append ih
  | cons_right _ ih =>
      rw [hooksIn_cons]
      exact ih.trans (List.sublist_append_right _ _)

/-- Groups from which hooks were removed are for the same codes, or for fewer. -/
theorem codes (isPart : GroupsPart groups all) :
    (groups.map Prod.fst).Sublist (all.map Prod.fst) := by
  induction isPart with
  | nil => exact List.nil_sublist _
  | cons within _ ih =>
      rw [List.map_cons, List.map_cons, within.1]
      exact ih.cons_cons _
  | cons_right _ ih => exact ih.cons _

/-- What is left of a group stands in it in the same order. -/
theorem group_of_mem (isPart : GroupsPart groups all) :
    ∀ group ∈ groups, ∃ whole ∈ all, group.2.Sublist whole.2 := by
  induction isPart with
  | nil =>
      intro group member
      cases member
  | cons within _ ih =>
      refine List.forall_mem_cons.mpr ⟨⟨_, List.mem_cons_self, within.2⟩, fun group member => ?_⟩
      obtain ⟨whole, present, fewer⟩ := ih group member
      exact ⟨whole, List.mem_cons_of_mem _ present, fewer⟩
  | cons_right _ ih =>
      intro group member
      obtain ⟨whole, present, fewer⟩ := ih group member
      exact ⟨whole, List.mem_cons_of_mem _ present, fewer⟩

end GroupsPart

/-- Groups of which only some hooks are kept. -/
def keepIn (keep : Hook σ → Bool) (groups : List (HookGroup σ)) : List (HookGroup σ) :=
  groups.map fun (code, hooks) => (code, hooks.filter keep)

theorem keepIn_cons (keep : Hook σ → Bool) (hooks : List (Hook σ)) :
    keepIn keep ((code, hooks) :: rest) = (code, hooks.filter keep) :: keepIn keep rest :=
  rfl

/-- A table of which only some hooks are kept. -/
def keeping (keep : Hook σ → Bool) (table : HookTable σ) : HookTable σ :=
  { table with groups := keepIn keep table.groups }

/-- A table from which hooks were removed. -/
structure Part (part table : HookTable σ) : Prop where
  issued : part.issued = table.issued
  groups : GroupsPart part.groups table.groups

namespace Part

theorem refl (table : HookTable σ) : table.Part table :=
  ⟨rfl, .refl _⟩

theorem trans (first : part.Part whole) (second : whole.Part table) : part.Part table :=
  ⟨first.issued.trans second.issued, first.groups.trans second.groups⟩

theorem registered (isPart : part.Part table) : part.registered.Sublist table.registered :=
  isPart.groups.hooksIn

/-- **A part of a table in order is in order.** -/
theorem inOrder (isPart : part.Part table) (inOrder : table.InOrder) : part.InOrder where
  codes := inOrder.codes.sublist isPart.groups.codes
  sorted group member := by
    obtain ⟨whole, present, fewer⟩ := isPart.groups.group_of_mem group member
    exact (inOrder.sorted whole present).sublist fewer
  handles := inOrder.handles.sublist (isPart.registered.map _)
  issued entry member := by
    rw [isPart.issued]
    exact inOrder.issued entry (isPart.registered.subset member)

/-- Without one hook a part of the table is left. -/
theorem remove (table : HookTable σ) (handle : Nat) : (table.remove handle).Part table where
  issued := rfl
  groups := by
    change GroupsPart (takeOut handle table.groups) table.groups
    induction table.groups with
    | nil => exact .nil
    | cons group rest ih =>
        rw [takeOut]
        split
        next => exact .cons ⟨rfl, List.eraseP_sublist⟩ (GroupsPart.refl rest)
        next => exact .cons ⟨rfl, List.Sublist.refl _⟩ ih

/-- Without some hooks, removed one after the other, a part of the table is left. -/
theorem foldl_remove (handles : List Nat) (table : HookTable σ) :
    (handles.foldl HookTable.remove table).Part table := by
  induction handles generalizing table with
  | nil => exact refl table
  | cons handle rest ih => exact (ih (table.remove handle)).trans (remove table handle)

/-- The hooks that are kept are a part of the table. -/
theorem keeping (keep : Hook σ → Bool) (table : HookTable σ) :
    (table.keeping keep).Part table where
  issued := rfl
  groups := by
    change GroupsPart (keepIn keep table.groups) table.groups
    induction table.groups with
    | nil => exact .nil
    | cons group rest ih => exact .cons ⟨rfl, List.filter_sublist⟩ ih

theorem removeOwnedBy (table : HookTable σ) (owner : String) :
    (table.removeOwnedBy owner).Part table :=
  keeping (·.owner != some owner) table

theorem clear (table : HookTable σ) : table.clear.Part table :=
  ⟨rfl, .nil⟩

end Part

/-! ## What removals leave -/

/-- Among distinct handles, to take the first hook with a handle out is to keep all others. -/
theorem eraseP_eq_filter {hooks : List (Hook σ)} (distinct : (hooks.map (·.handle)).Nodup) :
    hooks.eraseP (·.handle == handle) = hooks.filter (·.handle != handle) := by
  induction hooks with
  | nil => rfl
  | cons hook rest ih =>
      rw [List.map_cons, List.nodup_cons] at distinct
      by_cases same : hook.handle = handle
      · subst same
        have others : ∀ other ∈ rest, other.handle ≠ hook.handle := by
          intro other member equal
          exact distinct.1 (List.mem_map.mpr ⟨other, member, equal⟩)
        simpa using (List.filter_eq_self.mpr (by simpa using others)).symm
      · simp [same, ih distinct.2]

/-- The hooks of the groups that are kept are the hooks that are kept. -/
theorem hooksIn_keepIn (keep : Hook σ → Bool) (groups : List (HookGroup σ)) :
    hooksIn (keepIn keep groups) = (hooksIn groups).filter fun entry => keep entry.2 := by
  induction groups with
  | nil => rfl
  | cons group rest ih =>
      obtain ⟨code, hooks⟩ := group
      rw [keepIn_cons, hooksIn_cons, hooksIn_cons, ih, List.filter_append, List.filter_map]
      rfl

/-- What is kept is told by what is registered. -/
theorem keepIn_congr {keep other : Hook σ → Bool}
    (same : ∀ entry ∈ hooksIn groups, keep entry.2 = other entry.2) :
    keepIn keep groups = keepIn other groups := by
  refine List.map_congr_left fun group member => Prod.ext rfl (List.filter_congr ?_)
  exact fun hook inside => same (group.1, hook)
    (List.mem_flatMap.mpr ⟨group, member, List.mem_map_of_mem inside⟩)

/-- To keep all hooks changes nothing. -/
theorem keepIn_all (groups : List (HookGroup σ)) : keepIn (fun _ => true) groups = groups := by
  refine (List.map_congr_left fun group _ => ?_).trans (List.map_id groups)
  exact Prod.ext rfl (List.filter_true group.2)

/-- Where handles are distinct, taking one out keeps all others. -/
theorem takeOut_eq_keepIn (distinct : ((hooksIn groups).map (·.2.handle)).Nodup) :
    takeOut handle groups = keepIn (·.handle != handle) groups := by
  induction groups with
  | nil => rfl
  | cons group rest ih =>
      obtain ⟨code, hooks⟩ := group
      rw [hooksIn_cons, List.map_append, List.map_map, List.nodup_append] at distinct
      obtain ⟨own, others, apart⟩ := distinct
      rw [takeOut, keepIn_cons]
      split
      next present =>
        obtain ⟨hook, member, same⟩ := List.any_eq_true.mp present
        have absent : ∀ entry ∈ hooksIn rest, (entry.2.handle != handle) = true := by
          intro entry inside
          have differ := apart hook.handle (List.mem_map.mpr ⟨hook, member, rfl⟩)
            entry.2.handle (List.mem_map.mpr ⟨entry, inside, rfl⟩)
          rw [beq_iff_eq.mp same] at differ
          exact bne_iff_ne.mpr differ.symm
        have all : keepIn (·.handle != handle) rest = keepIn (fun _ => true) rest :=
          keepIn_congr absent
        rw [eraseP_eq_filter own, all, keepIn_all]
      next absent =>
        have kept : hooks.filter (·.handle != handle) = hooks := by
          rw [List.filter_eq_self]
          simpa using absent
        rw [ih others, kept]

theorem registered_keeping (keep : Hook σ → Bool) (table : HookTable σ) :
    (table.keeping keep).registered = table.registered.filter fun entry => keep entry.2 :=
  hooksIn_keepIn keep table.groups

theorem keeping_keeping (keep other : Hook σ → Bool) (table : HookTable σ) :
    (table.keeping keep).keeping other = table.keeping fun hook => other hook && keep hook := by
  simp [keeping, keepIn, Function.comp_def, List.filter_filter]

theorem InOrder.remove_eq (inOrder : table.InOrder) (handle : Nat) :
    table.remove handle = table.keeping (·.handle != handle) := by
  rw [remove, takeOut_eq_keepIn inOrder.handles, keeping]

/-- To remove hooks one after the other from a table in order is to keep all but those. -/
theorem InOrder.foldl_remove_eq (inOrder : table.InOrder) (handles : List Nat) :
    handles.foldl remove table = table.keeping fun hook => !handles.contains hook.handle := by
  induction handles generalizing table with
  | nil =>
      rw [keeping]
      exact congrArg (HookTable.mk · table.issued) (keepIn_all table.groups).symm
  | cons handle rest ih =>
      rw [List.foldl_cons, ih ((Part.remove table handle).inOrder inOrder),
        inOrder.remove_eq, keeping_keeping]
      congr 1
      funext hook
      rw [List.contains_cons, Bool.not_or, Bool.and_comm, bne]

/-- Removing a hook removes the one with the handle and no other. -/
theorem InOrder.registered_remove (inOrder : table.InOrder) (handle : Nat) :
    (table.remove handle).registered = table.registered.filter (·.2.handle != handle) := by
  rw [inOrder.remove_eq, registered_keeping]

theorem InOrder.registered_foldl_remove (inOrder : table.InOrder) (handles : List Nat) :
    (handles.foldl HookTable.remove table).registered =
      table.registered.filter fun entry => !handles.contains entry.2.handle := by
  rw [inOrder.foldl_remove_eq, registered_keeping]

theorem registered_removeOwnedBy (table : HookTable σ) (owner : String) :
    (table.removeOwnedBy owner).registered = table.registered.filter (·.2.owner != some owner) :=
  registered_keeping (·.owner != some owner) table

/-- To look for a handle in a table is to look for it among all its hooks. -/
theorem find?_eq (table : HookTable σ) (handle : Nat) :
    table.find? handle = (table.registered.find? (·.2.handle == handle)).map Prod.snd := by
  rw [find?, registered, hooksIn, List.find?_flatMap, List.map_findSome?]
  congr 1
  funext ⟨code, hooks⟩
  simp [Function.comp_def]

/-- A hook that is removed only for its owner is the one with the handle, if it belongs to it. -/
theorem InOrder.registered_removeOwn (inOrder : table.InOrder) (owner : String) (handle : Nat) :
    (if (table.find? handle).any fun hook => hook.owner == some owner then table.remove handle
      else table).registered = table.registered.filter
        fun entry => !(entry.2.handle == handle && entry.2.owner == some owner) := by
  rw [find?_eq]
  cases found : table.registered.find? (·.2.handle == handle) with
  | none =>
      have absent := List.find?_eq_none.mp found
      refine (List.filter_eq_self.mpr fun entry member => ?_).symm
      rw [Bool.eq_false_of_not_eq_true (absent entry member), Bool.false_and, Bool.not_false]
  | some entry =>
      have member := List.mem_of_find?_eq_some found
      have named : entry.2.handle = handle := by simpa using List.find?_some found
      have alone : ∀ other ∈ table.registered, other.2.handle = handle → other = entry :=
        fun other present same =>
          List.inj_on_of_nodup_map inOrder.handles present member (same.trans named.symm)
      by_cases owned : entry.2.owner = some owner
      · rw [if_pos (by simpa using owned), inOrder.registered_remove]
        refine List.filter_congr fun other present => ?_
        by_cases same : other.2.handle = handle
        · simp [alone other present same, named, owned]
        · rw [bne, beq_eq_false_iff_ne.mpr same, Bool.false_and]
      · rw [if_neg (by simpa using owned)]
        refine (List.filter_eq_self.mpr fun other present => ?_).symm
        simp only [Bool.not_eq_true', Bool.and_eq_false_imp, beq_iff_eq, beq_eq_false_iff_ne]
        intro same
        rwa [alone other present same]

/-! ## Schedules -/

/-- Among groups of distinct codes, the group that is found for a code has the hooks for it. -/
theorem mem_lookup (distinct : (groups.map Prod.fst).Nodup) :
    hook ∈ (groups.lookup code).getD [] ↔ (code, hook) ∈ hooksIn groups := by
  induction groups with
  | nil => simp [hooksIn]
  | cons group rest ih =>
      obtain ⟨other, hooks⟩ := group
      rw [List.map_cons, List.nodup_cons] at distinct
      rw [hooksIn_cons, List.mem_append, List.lookup_cons]
      by_cases same : code = other
      · subst same
        have alone : (code, hook) ∉ hooksIn rest := by
          intro member
          obtain ⟨⟨_, _⟩, present, inside⟩ := List.mem_flatMap.mp member
          obtain ⟨_, _, named⟩ := List.mem_map.mp inside
          cases named
          exact distinct.1 (List.mem_map.mpr ⟨_, present, rfl⟩)
        simp [alone]
      · have differs : (code == other) = false := beq_eq_false_iff_ne.mpr same
        simp [differs, Ne.symm same, ih distinct.2]

/-- The hooks of a group are those that are registered for its messages. -/
theorem InOrder.mem_group (inOrder : table.InOrder) :
    hook ∈ table.group code ↔ (code, hook) ∈ table.registered :=
  mem_lookup inOrder.codes

/-- Every group of a table in order is sorted. -/
theorem InOrder.sorted_group (inOrder : table.InOrder) (code : Option UInt16) :
    (table.group code).Pairwise fun hook other => hook.notAfter other = true := by
  rw [group]
  cases found : table.groups.lookup code with
  | none => exact List.Pairwise.nil
  | some hooks =>
      obtain ⟨before, after, split, _⟩ := List.lookup_eq_some_iff.mp found
      apply inOrder.sorted (code, hooks)
      rw [split]
      exact List.mem_append_right _ List.mem_cons_self

/-- The hooks for a code are hooks of the table, in the same order. -/
theorem group_sublist (table : HookTable σ) (code : Option UInt16) :
    ((table.group code).map fun hook => (code, hook)).Sublist table.registered := by
  rw [group]
  cases found : table.groups.lookup code with
  | none => exact List.nil_sublist _
  | some hooks =>
      obtain ⟨before, after, split, _⟩ := List.lookup_eq_some_iff.mp found
      rw [registered, split, hooksIn, List.flatMap_append]
      exact (List.sublist_append_left _ (hooksIn after)).trans (List.sublist_append_right _ _)

/-- Of every group those hooks are kept that are kept of the table. -/
theorem group_keeping (keep : Hook σ → Bool) (table : HookTable σ) (code : Option UInt16) :
    (table.keeping keep).group code = (table.group code).filter keep := by
  rw [group, group, keeping]
  induction table.groups with
  | nil => rfl
  | cons group rest ih =>
      obtain ⟨other, hooks⟩ := group
      rw [keepIn_cons, List.lookup_cons, List.lookup_cons]
      cases code == other with
      | true => rfl
      | false => exact ih

/-- A hook is found as before if it is kept. -/
theorem get?_keeping {keep : Hook σ → Bool}
    (kept : ∀ hook : Hook σ, hook.handle = handle → keep hook = true)
    (table : HookTable σ) (code : Option UInt16) :
    (table.keeping keep).get? code handle = table.get? code handle := by
  rw [get?, get?, group_keeping, List.find?_filter]
  congr 1
  funext hook
  by_cases same : hook.handle = handle
  · simp [kept hook same, same]
  · simp [same]

/-- A hook is found by its group and its handle. -/
theorem InOrder.get?_of_mem (inOrder : table.InOrder) (member : (code, hook) ∈ table.registered) :
    table.get? code hook.handle = some hook := by
  rw [get?]
  have present := inOrder.mem_group.mpr member
  cases found : (table.group code).find? (·.handle == hook.handle) with
  | none =>
      have unlike := List.find?_eq_none.mp found hook present
      simp at unlike
  | some other =>
      have known := inOrder.mem_group.mp (List.mem_of_find?_eq_some found)
      have same : other.handle = hook.handle := by
        simpa using List.find?_some found
      have pair := List.inj_on_of_nodup_map inOrder.handles known member same
      rw [(Prod.mk.inj pair).2]

/-- Hooks that are woven are merged by the order in which they run. -/
theorem weave_eq_merge (entries others : List (Option UInt16 × Hook σ)) :
    weave entries others = entries.merge others fun entry other => entry.2.notAfter other.2 := by
  induction entries generalizing others with
  | nil => rw [weave, List.nil_merge]
  | cons entry rest ih =>
      induction others with
      | nil =>
          rw [weave, List.takeWhile_nil, List.dropWhile_nil, ih, List.merge_right,
            List.merge_right, List.nil_append]
      | cons other later further =>
          rw [List.cons_merge_cons, ← further, weave, weave, Hook.notAfter]
          cases before : other.2.before entry.2 with
          | true => simp [before]
          | false => simp [before, ih]

theorem merged_perm (table : HookTable σ) (code : UInt16) :
    (table.merged code).Perm ((table.group none).map (fun hook => (none, hook)) ++
      (table.group (some code)).map fun hook => (some code, hook)) := by
  rw [merged, weave_eq_merge]
  exact List.merge_perm_append _

/-- The schedule of a table in order lists what is registered for all messages or for the code. -/
theorem InOrder.mem_merged (inOrder : table.InOrder) (code : UInt16)
    (entry : Option UInt16 × Hook σ) : entry ∈ table.merged code ↔
      entry ∈ table.registered ∧ (entry.1 = none ∨ entry.1 = some code) := by
  obtain ⟨group, hook⟩ := entry
  rw [(table.merged_perm code).mem_iff, List.mem_append]
  constructor
  · rintro (all | own)
    · exact ⟨(table.group_sublist none).subset all, .inl (by grind)⟩
    · exact ⟨(table.group_sublist (some code)).subset own, .inr (by grind)⟩
  · rintro ⟨member, rfl | rfl⟩
    · exact .inl (List.mem_map.mpr ⟨hook, inOrder.mem_group.mpr member, rfl⟩)
    · exact .inr (List.mem_map.mpr ⟨hook, inOrder.mem_group.mpr member, rfl⟩)

/-- No hook stands twice in the schedule of a table in order. -/
theorem InOrder.nodup_merged (inOrder : table.InOrder) (code : UInt16) :
    ((table.merged code).map (·.2.handle)).Nodup := by
  have distinct := List.Nodup.of_map _ inOrder.handles
  have once : (table.merged code).Nodup := by
    rw [(table.merged_perm code).nodup_iff]
    refine List.Nodup.append (distinct.sublist (table.group_sublist none))
      (distinct.sublist (table.group_sublist (some code))) ?_
    intro entry all own
    obtain ⟨_, _, rfl⟩ := List.mem_map.mp all
    obtain ⟨_, _, other⟩ := List.mem_map.mp own
    cases other
  refine once.map_on fun entry member other present same => ?_
  exact List.inj_on_of_nodup_map inOrder.handles ((inOrder.mem_merged code entry).mp member).1
    ((inOrder.mem_merged code other).mp present).1 same

/-- The schedule of a table in order is sorted. -/
theorem InOrder.sorted_merged (inOrder : table.InOrder) (code : UInt16) :
    (table.merged code).Pairwise fun entry other => entry.2.notAfter other.2 = true := by
  have sorted (group : Option UInt16) :
      ((table.group group).map fun hook => (group, hook)).Pairwise fun entry other =>
        entry.2.notAfter other.2 = true :=
    List.pairwise_map.mpr (inOrder.sorted_group group)
  rw [merged, weave_eq_merge]
  apply List.pairwise_merge
  · intro entry other third
    exact Hook.notAfter_trans
  · intro entry other
    rw [Bool.or_eq_true]
    exact Hook.notAfter_total entry.2 other.2
  · exact sorted none
  · exact sorted (some code)

/-- What the schedule of a code should be: the hooks that are registered for it or for all messages,
each once, by ascending order and handle. -/
structure Schedules (table : HookTable σ) (code : UInt16)
    (hooks : List (Option UInt16 × Hook σ)) : Prop where
  schedule : table.schedule code = hooks.map fun (group, hook) => (group, hook.handle)
  complete : ∀ entry, entry ∈ hooks ↔
    entry ∈ table.registered ∧ (entry.1 = none ∨ entry.1 = some code)
  once : (hooks.map (·.2.handle)).Nodup
  ascending : hooks.Pairwise fun entry other =>
    entry.2.order < other.2.order ∨
      entry.2.order = other.2.order ∧ entry.2.handle < other.2.handle

/-- **The schedule of a table in order** is as it should be. -/
theorem InOrder.schedules (inOrder : table.InOrder) (code : UInt16) :
    table.Schedules code (table.merged code) where
  schedule := rfl
  complete := inOrder.mem_merged code
  once := inOrder.nodup_merged code
  ascending := by
    have distinct := List.pairwise_map.mp (inOrder.nodup_merged code)
    refine ((inOrder.sorted_merged code).and distinct).imp fun ⟨notAfter, differ⟩ => ?_
    exact Hook.before_iff.mp (Hook.before_of_notAfter notAfter differ)

/-- The schedule of a part of a table is a part of its schedule. -/
theorem InOrder.merged_keeping (inOrder : table.InOrder) (keep : Hook σ → Bool) (code : UInt16) :
    (table.keeping keep).merged code = (table.merged code).filter fun entry => keep entry.2 := by
  have part := (Part.keeping keep table).inOrder inOrder
  have whole := inOrder.schedules code
  have fewer := part.schedules code
  have same : ((table.keeping keep).merged code).Perm
      ((table.merged code).filter fun entry => keep entry.2) := by
    rw [List.perm_ext_iff_of_nodup fewer.once.of_map (whole.once.of_map.filter _)]
    intro entry
    rw [fewer.complete, registered_keeping, List.mem_filter, List.mem_filter, whole.complete,
      and_right_comm]
  refine same.eq_of_pairwise ?_ fewer.ascending (whole.ascending.filter _)
  intro entry other _ _ before after
  omega

/-- Without some hooks the schedule lists the others, in the same order. -/
theorem InOrder.schedule_keeping (inOrder : table.InOrder) (keep : Nat → Bool) (code : UInt16) :
    (table.keeping fun hook => keep hook.handle).schedule code =
      (table.schedule code).filter fun entry => keep entry.2 := by
  rw [schedule, inOrder.merged_keeping, schedule, List.filter_map]
  rfl

end HookTable

end Relay
