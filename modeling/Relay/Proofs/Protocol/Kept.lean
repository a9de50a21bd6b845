import Relay.Proofs.Protocol.Paired
import Relay.Protocol.Load

/-! # What every store keeps

However a store comes about, its tables are paired and its definitions stand in the order of their
names and versions, no two with the same (`Relay.Store.Made.sound`). Every operation keeps this, and
so does every step of loading, whether it goes well or not (`Relay.Store.Load.Keeps`). -/

namespace Relay.Store

variable {definition added : Definition} {definitions : List Definition} {store : Store}

/-! ## Definitions in order -/

/-- Whether a definition comes before another, by name and version. -/
def Before (definition other : Definition) : Prop :=
  definition.name < other.name ∨
    definition.name = other.name ∧ definition.version < other.version

theorem precedes_iff : precedes definition added.name added.version = true ↔
    Before definition added := by
  simp [precedes, Before]

/-- What stands before a definition stands before all that it stands before. -/
theorem Before.trans {first second third : Definition} (before : Before first second)
    (after : Before second third) : Before first third := by
  rcases before with less | ⟨same, less⟩
  · rcases after with less' | ⟨same', _⟩
    · exact .inl (String.lt_trans less less')
    · exact .inl (same' ▸ less)
  · rcases after with less' | ⟨same', less'⟩
    · exact .inl (same ▸ less')
    · exact .inr ⟨same.trans same', UInt32.lt_trans less less'⟩

/-- A definition that is neither before another nor in its place is behind it. -/
theorem before_of_not (behind : ¬ Before definition added)
    (apart : ¬ (definition.name = added.name ∧ definition.version = added.version)) :
    Before added definition := by
  have notBelow : added.name ≤ definition.name :=
    String.not_lt.mp fun less => behind (.inl less)
  by_cases same : definition.name = added.name
  · have notLess : added.version ≤ definition.version :=
      UInt32.not_lt.mp fun less => behind (.inr ⟨same, less⟩)
    exact .inr ⟨same.symm, UInt32.lt_of_le_of_ne notLess fun equal => apart ⟨same, equal.symm⟩⟩
  · refine .inl (Decidable.byContradiction fun notLess => same ?_)
    exact String.le_antisymm (String.not_lt.mp notLess) notBelow

/-- What is there after a definition is put in place is this definition or was there. -/
theorem mem_insertDefinition {other : Definition}
    (member : other ∈ insertDefinition added definitions) :
    other = added ∨ other ∈ definitions := by
  induction definitions with
  | nil => exact .inl (List.mem_singleton.mp member)
  | cons definition rest ih =>
      rw [insertDefinition] at member
      split at member
      next =>
        rcases List.mem_cons.mp member with rfl | later
        · exact .inr List.mem_cons_self
        · exact (ih later).imp_right (List.mem_cons_of_mem _)
      next =>
        split at member
        next =>
          rcases List.mem_cons.mp member with rfl | later
          · split
            next => exact .inl rfl
            next => exact .inr List.mem_cons_self
          · exact .inr (List.mem_cons_of_mem _ later)
        next => exact List.mem_cons.mp member

/-- **Definitions stay in order** when one is added. -/
theorem sorted_insertDefinition (added : Definition) (sorted : definitions.Pairwise Before) :
    (insertDefinition added definitions).Pairwise Before := by
  induction definitions with
  | nil => exact List.pairwise_singleton _ _
  | cons definition rest ih =>
      obtain ⟨first, others⟩ := List.pairwise_cons.mp sorted
      rw [insertDefinition]
      split
      next precedes =>
        refine List.pairwise_cons.mpr ⟨fun other member => ?_, ih others⟩
        rcases mem_insertDefinition member with rfl | kept
        · exact precedes_iff.mp precedes
        · exact first other kept
      next behind =>
        split
        next same =>
          refine List.pairwise_cons.mpr ⟨fun other member => ?_, others⟩
          split
          next =>
            have before := first other member
            unfold Before at before ⊢
            rwa [← same.1, ← same.2]
          next => exact first other member
        next apart =>
          have before : Before added definition :=
            before_of_not (fun before => behind (precedes_iff.mpr before)) apart
          exact List.pairwise_cons.mpr ⟨List.forall_mem_cons.mpr
            ⟨before, fun other member => before.trans (first other member)⟩, sorted⟩

/-! ## Operations -/

/-- Whether the tables of a store are sound and its definitions in order. -/
structure Sound (store : Store) : Prop where
  tables : ∀ entry ∈ store.tables, entry.2.Sound
  sorted : store.definitions.Pairwise Before

/-- All tables of a sound store are sound. -/
theorem Sound.table? (sound : Sound store) {protocol : UInt32} {table : OpcodeTable}
    (found : store.table? protocol = some table) : table.Sound := by
  obtain ⟨front, back, split, _⟩ := List.lookup_eq_some_iff.mp found
  exact sound.tables (protocol, table) (split ▸ List.mem_append_right _ List.mem_cons_self)

theorem sound_empty (platform : Platform) : Sound (empty platform) :=
  ⟨List.forall_mem_nil _, List.Pairwise.nil⟩

/-- A sound table can replace any other. -/
theorem sound_setTable (sound : Sound store) (protocol : UInt32) {table : OpcodeTable}
    (upper : table.Sound) : Sound (store.setTable protocol table) where
  tables := by
    rw [setTable, List.forall_mem_append, List.forall_mem_singleton]
    exact ⟨fun entry member => sound.tables entry (List.mem_filter.mp member).1, upper⟩
  sorted := sound.sorted

theorem sound_add (sound : Sound store) (definition : Definition) :
    Sound (store.add definition) :=
  ⟨sound.tables, sorted_insertDefinition definition sound.sorted⟩

/-- A definition that is added for a platform leaves the store sound, whether the store takes it or
not. -/
theorem sound_addForPlatform (sound : Sound store) (name : String) (version : UInt32)
    (platform : Platform) (layout : Layout) :
    Sound (store.addForPlatform name version platform layout).2 := by
  rw [addForPlatform]
  split
  next => exact sound_add sound _
  next => exact sound

theorem sound_setManifest (sound : Sound store) (manifest : Manifest) :
    Sound (store.setManifest manifest) :=
  ⟨sound.tables, sound.sorted⟩

theorem sound_purge (sound : Sound store) (protocol : UInt32) :
    Sound (store.purge protocol).2 :=
  ⟨sound.tables, sound.sorted.filter _⟩

/-! ## Loading -/

namespace Load

/-- Whether the store stays sound in a step, which may fail. -/
def Keeps {α : Type} (step : Load α) : Prop :=
  ∀ loading : Loading, Sound loading.store →
    match step loading with
    | .ok _ later => Sound later.store
    | .error _ later => Sound later.store

namespace Keeps

variable {α β : Type}

theorem pure (value : α) : Keeps (Pure.pure value) := fun _ sound => sound

theorem throw (error : StoreError) : Keeps (MonadExcept.throw error : Load α) :=
  fun _ sound => sound

/-- One step after another keeps stores sound if both do. -/
theorem bind {step : Load α} {next : α → Load β} (first : Keeps step)
    (second : ∀ value, Keeps (next value)) : Keeps (step >>= next) := by
  intro loading sound
  have kept := first loading sound
  change match EStateM.bind step next loading with
    | .ok _ later => Sound later.store
    | .error _ later => Sound later.store
  rw [EStateM.bind]
  split at kept
  next value later went =>
    rw [went]
    exact second value later kept
  next error later failed =>
    rw [failed]
    exact kept

theorem modify {change : Loading → Loading}
    (keeps : ∀ loading, Sound loading.store → Sound (change loading).store) :
    Keeps (modify change) := keeps

/-- A step may go by the store as it is. -/
theorem get_bind {next : Loading → Load β}
    (keeps : ∀ loading, Sound loading.store → Keeps (next loading)) :
    Keeps (get >>= next) := fun loading sound => keeps loading sound loading sound

theorem set {loading : Loading} (sound : Sound loading.store) : Keeps (set loading) :=
  fun _ _ => sound

/-- **To go through items keeps stores sound** if what is done with every item does. -/
theorem each {items : List α} {body : α → PUnit → Load (ForInStep PUnit)}
    (keeps : ∀ item, Keeps (body item ⟨⟩)) : Keeps (forIn items PUnit.unit body) := by
  induction items with
  | nil => exact pure _
  | cons item rest ih =>
      rw [List.forIn_cons]
      refine bind (keeps item) fun next => ?_
      cases next with
      | done => exact pure _
      | yield => exact ih

end Keeps

theorem keeps_warn (text : String) (details : List (String × String)) : Keeps (warn text details) :=
  Keeps.modify fun _ sound => sound

theorem keeps_note (remarks : Journal) : Keeps (note remarks) :=
  Keeps.modify fun _ sound => sound

theorem keeps_text (tree : Files.Tree) (path : String) : Keeps (text tree path) := by
  rw [text]
  split
  next => exact .pure _
  next => exact .throw _

theorem keeps_entries (tree : Files.Tree) (path : String) : Keeps (entries tree path) := by
  rw [entries]
  split
  next => exact .pure _
  next => exact .throw _

/-- A table that is read is sound, and so is what it makes with the one that is there. -/
theorem keeps_addTable (protocol : UInt32) {table : OpcodeTable} :
    Keeps (addTable protocol table) := by
  refine Keeps.modify fun loading sound => sound_setTable sound protocol ?_
  cases found : loading.store.table? protocol with
  | none => exact OpcodeTable.sound_overlay OpcodeTable.sound_empty table
  | some before => exact OpcodeTable.sound_overlay (sound.table? found) table

theorem keeps_tableFile (tree : Files.Tree) (directory file : String) :
    Keeps (tableFile tree directory file) := by
  rw [tableFile]
  simp only
  split
  next =>
    split
    next => exact keeps_warn _ _
    next => exact .pure _
  next =>
    exact (keeps_text _ _).bind fun _ => (keeps_note _).bind fun _ => keeps_addTable _

theorem keeps_definitionFile (tree : Files.Tree) (directory file : String) :
    Keeps (definitionFile tree directory file) := by
  have adds (name : String) (version : UInt32) (tag : Option String) (loading : Loading) :
      Keeps (if tag.all (· == loading.store.platform.name) then do
          let parsed := Layout.parse (← text tree (Files.join directory file))
            (Files.join directory file)
          note parsed.2
          modify fun loading =>
            { loading with store := loading.store.add ⟨name, version, parsed.1.layout, tag.isSome⟩ }
        else Pure.pure ⟨⟩) := by
    split
    next =>
      exact (keeps_text _ _).bind fun _ => (keeps_note _).bind fun _ =>
        .modify fun _ sound => sound_add sound _
    next => exact .pure _
  rw [definitionFile]
  simp only
  split
  next =>
    split
    next => exact keeps_warn _ _
    next => exact .pure _
  next name version tag _ =>
    refine Keeps.get_bind fun loading sound => ?_
    split
    next =>
      refine Keeps.bind (.set ?_) fun _ => adds name version tag loading
      exact sound
    next => exact adds name version tag loading

/-- The files of a directory keep stores sound if every one does. -/
theorem keeps_eachFile (tree : Files.Tree) (directory : String)
    {take : Files.Tree → String → String → Load Unit}
    (keeps : ∀ file, Keeps (take tree directory file)) :
    Keeps (eachFile tree directory take) :=
  (keeps_entries tree directory).bind fun _ =>
    (Keeps.each fun file => (keeps file).bind fun _ => .pure _).bind fun _ => .pure _

theorem keeps_remarkUnmapped : Keeps remarkUnmapped :=
  Keeps.get_bind fun _ _ =>
    (Keeps.each fun _ => (keeps_warn _ _).bind fun _ => .pure _).bind fun _ => .pure _

theorem keeps_manifestFile (tree : Files.Tree) (path : String) :
    Keeps (manifestFile tree path) := by
  rw [manifestFile]
  split
  next =>
    refine (keeps_text tree path).bind fun source => ?_
    split
    next => exact .throw _
    next manifest _ => exact .modify fun _ sound => sound_setManifest sound manifest
  next => exact .pure _

/-- **All files together keep stores sound.** -/
theorem keeps_all (tree : Files.Tree) (base : String) : Keeps (all tree base) := by
  have behind : Keeps (do
      eachFile tree (Files.join base "protocol") definitionFile
      remarkUnmapped
      manifestFile tree (Files.join base "manifest.json")) :=
    (keeps_eachFile tree _ fun _ => keeps_definitionFile _ _ _).bind fun _ =>
      keeps_remarkUnmapped.bind fun _ => keeps_manifestFile _ _
  refine (keeps_eachFile tree _ fun _ => keeps_tableFile _ _ _).bind fun _ => ?_
  split
  next => exact (keeps_eachFile tree _ fun _ => keeps_tableFile _ _ _).bind fun _ => behind
  next => exact behind

end Load

/-- A store that is loaded from files is sound. -/
theorem sound_load {tree : Files.Tree} {base : String} {platform : Platform}
    (loaded : (load tree base platform).1 = .ok store) : Sound store := by
  have kept := Load.keeps_all tree base ⟨.empty platform, [], [], #[]⟩ (sound_empty platform)
  rw [load] at loaded
  split at kept
  next went =>
    rw [went] at loaded
    cases loaded
    exact kept
  next failed =>
    rw [failed] at loaded
    cases loaded

/-- The stores that come about: from nothing by operations, and from files. -/
inductive Made : Store → Prop
  | empty (platform : Platform) : Made (empty platform)
  | setTable {store : Store} (made : Made store) (protocol : UInt32) {table : OpcodeTable}
      (upper : table.Made) : Made (store.setTable protocol table)
  | addGeneral {store : Store} (made : Made store) (name : String) (version : UInt32)
      (layout : Layout) : Made (store.addGeneral name version layout)
  | addForPlatform {store : Store} (made : Made store) (name : String) (version : UInt32)
      (platform : Platform) (layout : Layout) :
      Made (store.addForPlatform name version platform layout).2
  | setManifest {store : Store} (made : Made store) (manifest : Manifest) :
      Made (store.setManifest manifest)
  | purge {store : Store} (made : Made store) (protocol : UInt32) :
      Made (store.purge protocol).2
  | load {store : Store} {tree : Files.Tree} {base : String} {platform : Platform}
      (loaded : (load tree base platform).1 = .ok store) : Made store

/-- **Every store is sound.** -/
theorem Made.sound (made : Made store) : Sound store := by
  induction made with
  | empty platform => exact sound_empty platform
  | setTable _ protocol upper sound => exact sound_setTable sound protocol upper.sound
  | addGeneral _ name version layout sound => exact sound_add sound _
  | addForPlatform _ name version platform layout sound =>
      exact sound_addForPlatform sound name version platform layout
  | setManifest _ manifest sound => exact sound_setManifest sound manifest
  | purge _ protocol sound => exact sound_purge sound protocol
  | load loaded => exact sound_load loaded

end Relay.Store
