import Mathlib.Data.List.Induction
import Mathlib.Data.List.Sort
import Relay.Proofs.Protocol.Alike

/-! # Which definition of a version is seen

Definitions are handed to a store one after the other, general ones and such as are made for a
platform. Of each version the store shows the last one made for its own platform and, if there is
none, the first general one (`Relay.Store.definition?_insertAll`). Hence it does not matter where
general definitions stand among the others (`Relay.Store.precedence_insertAll`). -/

namespace Relay.Store

variable {store other : Store} {platform : Platform} {name : String} {version : UInt32}

/-! ## Definitions of a version -/

section Definitions

variable {definition added : Definition} {definitions : List Definition}

/-- Whether a definition is one of a version of a message. -/
def isOf (name : String) (version : UInt32) (definition : Definition) : Bool :=
  definition.name == name && definition.version == version

theorem isOf_iff : isOf name version definition = true ↔
    definition.name = name ∧ definition.version = version := by
  simp [isOf]

/-- A definition that stands before another is not one of the same version. -/
theorem Before.apart (before : Before definition added) :
    ¬ (definition.name = added.name ∧ definition.version = added.version) := by
  rintro ⟨named, numbered⟩
  rcases before with less | ⟨_, less⟩
  · exact String.lt_irrefl _ (named ▸ less)
  · exact UInt32.lt_irrefl _ (numbered ▸ less)

instance : Std.Irrefl Before :=
  ⟨fun _ before => before.apart ⟨rfl, rfl⟩⟩

instance : Std.Antisymm Before :=
  ⟨fun _ _ before after => absurd ⟨rfl, rfl⟩ (before.trans after).apart⟩

/-- The first definition of a version is the first one of all or the first of the rest. -/
theorem find?_cons_isOf (definition : Definition) (rest : List Definition) (name : String)
    (version : UInt32) : (definition :: rest).find? (isOf name version) =
      if definition.name = name ∧ definition.version = version then some definition
      else rest.find? (isOf name version) := by
  rw [List.find?_cons]
  split
  next asked => exact (if_pos (isOf_iff.mp asked)).symm
  next unasked => rw [if_neg fun own => Bool.eq_false_iff.mp unasked (isOf_iff.mpr own)]

/-- Nothing of a version stands behind its place. -/
theorem find?_of_before (behind : ∀ other ∈ definitions, Before added other) :
    definitions.find? (isOf added.name added.version) = none := by
  refine List.find?_eq_none.mpr fun other member asked => (behind other member).apart ?_
  obtain ⟨named, numbered⟩ := isOf_iff.mp asked
  exact ⟨named.symm, numbered.symm⟩

/-- An added definition is seen if it is made for the platform or the first of its version. -/
theorem find?_insertDefinition (added : Definition) (sorted : definitions.Pairwise Before)
    (name : String) (version : UInt32) :
    (insertDefinition added definitions).find? (isOf name version) =
      if added.name = name ∧ added.version = version then
        some (if added.platformSpecific then added
          else (definitions.find? (isOf name version)).getD added)
      else definitions.find? (isOf name version) := by
  induction definitions with
  | nil => rw [insertDefinition, find?_cons_isOf, List.find?_nil, Option.getD_none, ite_self]
  | cons definition rest ih =>
      obtain ⟨first, others⟩ := List.pairwise_cons.mp sorted
      rw [insertDefinition]
      split
      next precedes =>
        rw [find?_cons_isOf, find?_cons_isOf, ih others]
        by_cases asked : definition.name = name ∧ definition.version = version
        · rw [if_pos asked, if_pos asked, if_neg]
          rintro ⟨rfl, rfl⟩
          exact (precedes_iff.mp precedes).apart asked
        · rw [if_neg asked, if_neg asked]
      next behind =>
        split
        next same =>
          rw [find?_cons_isOf, find?_cons_isOf, same.1, same.2]
          have alike : (if added.platformSpecific then added else definition).name = added.name ∧
              (if added.platformSpecific then added else definition).version = added.version := by
            split
            next => exact ⟨rfl, rfl⟩
            next => exact same
          rw [alike.1, alike.2]
          by_cases own : added.name = name ∧ added.version = version
          · rw [if_pos own, if_pos own, if_pos own, Option.getD_some]
          · rw [if_neg own, if_neg own, if_neg own]
        next apart =>
          have before : Before added definition :=
            before_of_not (fun before => behind (precedes_iff.mpr before)) apart
          rw [find?_cons_isOf]
          by_cases own : added.name = name ∧ added.version = version
          · obtain ⟨rfl, rfl⟩ := own
            have behind : ∀ other ∈ definition :: rest, Before added other :=
              List.forall_mem_cons.mpr ⟨before, fun other later => before.trans (first other later)⟩
            rw [find?_of_before behind, Option.getD_none, ite_self]
          · rw [if_neg own, if_neg own]

/-- Once a definition is added its version shows it, if it is made for the platform or there was
none, and the others show what they did. -/
theorem definition?_add (sound : Sound store) (added : Definition) (name : String)
    (version : UInt32) : (store.add added).definition? name version =
      if added.name = name ∧ added.version = version then
        some (if added.platformSpecific then added
          else (store.definition? name version).getD added)
      else store.definition? name version :=
  find?_insertDefinition added sound.sorted name version

theorem of_definition?_eq_some (found : store.definition? name version = some definition) :
    definition ∈ store.definitions ∧ definition.name = name ∧ definition.version = version :=
  ⟨List.mem_of_find?_eq_some found, isOf_iff.mp (List.find?_some found)⟩

/-- The versions that have a definition, with the messages that they are of. -/
def entries (store : Store) : List (String × UInt32) :=
  store.definitions.map fun definition => (definition.name, definition.version)

/-- No two definitions of a store are of the same version. -/
theorem nodup_entries (sound : Sound store) : store.entries.Nodup := by
  refine List.pairwise_map.mpr (sound.sorted.imp fun before same => before.apart ?_)
  exact Prod.mk.inj same

/-- A version has one definition. -/
theorem mem_definitions (sound : Sound store) : definition ∈ store.definitions ↔
    store.definition? definition.name definition.version = some definition := by
  refine ⟨fun member => ?_, fun found => (of_definition?_eq_some found).1⟩
  cases found : store.definition? definition.name definition.version with
  | none =>
      have missing := List.find?_eq_none.mp found definition member
      exact absurd (isOf_iff.mpr ⟨rfl, rfl⟩) missing
  | some seen =>
      obtain ⟨present, named, numbered⟩ := of_definition?_eq_some found
      have same : (seen.name, seen.version) = (definition.name, definition.version) := by
        rw [named, numbered]
      rw [List.inj_on_of_nodup_map (nodup_entries sound) present member same]

/-- The definitions of a store are told by what it shows. -/
theorem definitions_ext (sound : Sound store) (sound' : Sound other)
    (same : ∀ name version, store.definition? name version = other.definition? name version) :
    store.definitions = other.definitions := by
  refine sound.sorted.eq_of_mem_iff sound'.sorted fun definition => ?_
  rw [mem_definitions sound, mem_definitions sound', same]

end Definitions

/-! ## One definition after the other -/

/-- A definition that is handed to a store, with the platform that it is made for, if any. -/
structure Insertion where
  name : String
  version : UInt32
  tag : Option Platform
  layout : Layout

namespace Insertion

/-- The store with what is handed to it. -/
def apply (insertion : Insertion) (store : Store) : Store :=
  match insertion.tag with
  | none => store.addGeneral insertion.name insertion.version insertion.layout
  | some platform =>
      (store.addForPlatform insertion.name insertion.version platform insertion.layout).2

/-- The definition that is handed to a store. -/
def definition (insertion : Insertion) : Definition :=
  ⟨insertion.name, insertion.version, insertion.layout, insertion.tag.isSome⟩

/-- Whether it is for a store of a platform. -/
def suits (platform : Platform) (insertion : Insertion) : Bool :=
  insertion.tag.all (· == platform)

theorem platformSpecific_definition {insertion : Insertion} :
    insertion.definition.platformSpecific = false ↔ insertion.tag = none := by
  cases tag : insertion.tag <;> simp [definition, tag]

theorem suits_iff {insertion : Insertion} :
    insertion.suits platform = true ↔ insertion.tag = none ∨ insertion.tag = some platform := by
  cases tag : insertion.tag <;> simp [suits, tag]

/-- To hand over a definition is to add it if the store takes it. -/
theorem apply_eq (insertion : Insertion) (store : Store) : insertion.apply store =
    if insertion.suits store.platform then store.add insertion.definition else store := by
  obtain ⟨name, version, tag, layout⟩ := insertion
  cases tag with
  | none => rfl
  | some platform =>
      by_cases own : platform = store.platform <;>
        simp [apply, addForPlatform, suits, own, definition]

/-- Nothing but definitions and floors changes. -/
theorem apply_eq_with (insertion : Insertion) (store : Store) : insertion.apply store =
    { store with
      definitions := (insertion.apply store).definitions
      floors := (insertion.apply store).floors } := by
  rw [apply_eq]
  split <;> rfl

/-- A store stays sound when a definition is handed to it. -/
theorem sound_apply (insertion : Insertion) (sound : Sound store) :
    Sound (insertion.apply store) := by
  rw [apply_eq]
  split
  next => exact sound_add sound _
  next => exact sound

end Insertion

/-- The store to which definitions were handed one after the other. -/
def insertAll (insertions : List Insertion) (store : Store) : Store :=
  insertions.foldl (fun store insertion => insertion.apply store) store

variable {insertion : Insertion} {insertions : List Insertion}

theorem insertAll_concat (insertions : List Insertion) (insertion : Insertion) (store : Store) :
    insertAll (insertions ++ [insertion]) store =
      insertion.apply (insertAll insertions store) :=
  List.foldl_concat ..

/-- Nothing but definitions and floors changes, however many definitions are handed over. -/
theorem insertAll_eq_with (insertions : List Insertion) (store : Store) :
    insertAll insertions store =
      { store with
        definitions := (insertAll insertions store).definitions
        floors := (insertAll insertions store).floors } := by
  induction insertions using List.reverseRecOn with
  | nil => rfl
  | append_singleton insertions last ih =>
      rw [insertAll_concat]
      refine (last.apply_eq_with _).trans ?_
      generalize (last.apply (insertAll insertions store)).definitions = definitions,
        (last.apply (insertAll insertions store)).floors = floors
      rw [ih]

theorem platform_insertAll (insertions : List Insertion) (store : Store) :
    (insertAll insertions store).platform = store.platform := by
  rw [insertAll_eq_with]

/-- **Definitions that are handed over keep a store sound.** -/
theorem sound_insertAll (sound : Sound store) (insertions : List Insertion) :
    Sound (insertAll insertions store) := by
  induction insertions using List.reverseRecOn with
  | nil => exact sound
  | append_singleton insertions last ih => rw [insertAll_concat]; exact last.sound_apply ih

/-! ## What is seen -/

/-- Whether an insertion is one of a version of a message, with a tag: general, or for a
platform. -/
def Insertion.Gives (insertion : Insertion) (tag : Option Platform) (name : String)
    (version : UInt32) : Prop :=
  insertion.tag = tag ∧ insertion.name = name ∧ insertion.version = version

instance (insertion : Insertion) (tag : Option Platform) (name : String) (version : UInt32) :
    Decidable (insertion.Gives tag name version) :=
  inferInstanceAs (Decidable (_ ∧ _))

/-- The insertions of a version of a message with a tag. -/
def given (insertions : List Insertion) (tag : Option Platform) (name : String)
    (version : UInt32) : List Insertion :=
  insertions.filter (·.Gives tag name version)

/-- The insertion that a store for a platform shows: the last one made for the platform, and if
there is none the first general one. -/
def seen (insertions : List Insertion) (platform : Platform) (name : String) (version : UInt32) :
    Option Insertion :=
  (given insertions (some platform) name version).getLast?.or
    (given insertions none name version).head?

section Given

variable {tag : Option Platform}

theorem given_nil : given [] tag name version = [] := rfl

theorem given_append (insertions others : List Insertion) :
    given (insertions ++ others) tag name version =
      given insertions tag name version ++ given others tag name version :=
  List.filter_append ..

theorem given_cons_of_gives (gives : insertion.Gives tag name version) :
    given (insertion :: insertions) tag name version =
      insertion :: given insertions tag name version := by
  simp [given, gives]

theorem given_cons_of_not (other : ¬ insertion.Gives tag name version) :
    given (insertion :: insertions) tag name version = given insertions tag name version := by
  simp [given, other]

theorem given_eq_nil : given insertions tag name version = [] ↔
    ∀ insertion ∈ insertions, ¬ insertion.Gives tag name version := by
  simp [given]

theorem given_ne_nil : given insertions tag name version ≠ [] ↔
    ∃ insertion ∈ insertions, insertion.Gives tag name version := by
  simp [given]

end Given

/-- A general definition is seen if there is none of its version. -/
theorem definition?_apply_general (sound : Sound store)
    (gives : insertion.Gives none name version) :
    (insertion.apply store).definition? name version =
      some ((store.definition? name version).getD insertion.definition) := by
  obtain ⟨tag, own⟩ := gives
  have suits : insertion.suits store.platform = true := Insertion.suits_iff.mpr (.inl tag)
  have general := Insertion.platformSpecific_definition.mpr tag
  rw [insertion.apply_eq, if_pos suits, definition?_add sound]
  exact (if_pos own).trans (by rw [general]; rfl)

/-- A definition for the platform of the store is seen. -/
theorem definition?_apply_made (sound : Sound store)
    (gives : insertion.Gives (some store.platform) name version) :
    (insertion.apply store).definition? name version = some insertion.definition := by
  obtain ⟨tag, own⟩ := gives
  have suits := Insertion.suits_iff.mpr (.inr tag)
  have made : insertion.definition.platformSpecific = true := by
    rw [Insertion.definition, tag]
    rfl
  rw [insertion.apply_eq, if_pos suits, definition?_add sound]
  exact (if_pos own).trans (by rw [made]; rfl)

/-- No other definition shows. -/
theorem definition?_apply_other (sound : Sound store)
    (ungeneral : ¬ insertion.Gives none name version)
    (unmade : ¬ insertion.Gives (some store.platform) name version) :
    (insertion.apply store).definition? name version = store.definition? name version := by
  rw [insertion.apply_eq]
  split
  next suits =>
    refine (definition?_add sound _ _ _).trans (if_neg fun own => ?_)
    rcases Insertion.suits_iff.mp suits with tag | tag
    · exact ungeneral ⟨tag, own⟩
    · exact unmade ⟨tag, own⟩
  next => rfl

/-- **The last definition for the platform is seen, or else the first general one.** -/
theorem definition?_insertAll (insertions : List Insertion) (platform : Platform) (name : String)
    (version : UInt32) : (insertAll insertions (empty platform)).definition? name version =
      (seen insertions platform name version).map Insertion.definition := by
  induction insertions using List.reverseRecOn with
  | nil => rfl
  | append_singleton insertions last ih =>
      have sound := sound_insertAll (sound_empty platform) insertions
      have here : (insertAll insertions (empty platform)).platform = platform :=
        platform_insertAll insertions _
      rw [insertAll_concat, seen, given_append, given_append]
      by_cases made : last.Gives (some platform) name version
      · rw [definition?_apply_made sound (by rwa [here]), given_cons_of_gives made, given_nil,
          List.getLast?_concat]
        rfl
      rw [given_cons_of_not made, given_nil, List.append_nil]
      by_cases general : last.Gives none name version
      · rw [definition?_apply_general sound general, ih, seen, given_cons_of_gives general,
          given_nil, List.head?_append]
        cases (given insertions (some platform) name version).getLast? with
        | some _ => rfl
        | none => cases (given insertions none name version).head? <;> rfl
      · rw [definition?_apply_other sound general (by rwa [here]), given_cons_of_not general,
          given_nil, List.append_nil]
        exact ih

/-- A version has a definition if and only if one was handed in that suits the store. -/
theorem mem_versions_insertAll : version ∈ (insertAll insertions (empty platform)).versions name ↔
    ∃ insertion ∈ insertions, insertion.suits platform = true ∧ insertion.name = name ∧
      insertion.version = version := by
  rw [mem_versions, ← Option.isSome_iff_exists, definition?_insertAll, Option.isSome_map, seen,
    Option.isSome_or, Bool.or_eq_true, List.getLast?_isSome, List.isSome_head?, given_ne_nil,
    given_ne_nil]
  constructor
  · rintro (⟨insertion, member, tag, own⟩ | ⟨insertion, member, tag, own⟩)
    · exact ⟨insertion, member, Insertion.suits_iff.mpr (.inr tag), own⟩
    · exact ⟨insertion, member, Insertion.suits_iff.mpr (.inl tag), own⟩
  · rintro ⟨insertion, member, suits, own⟩
    rcases Insertion.suits_iff.mp suits with tag | tag
    · exact .inr ⟨insertion, member, tag, own⟩
    · exact .inl ⟨insertion, member, tag, own⟩

/-! ## Floors -/

/-- If every floor changes by its name, so does the one that is found. -/
theorem lookup_map_floor (floors : List (String × UInt32)) (change : String → UInt32 → UInt32)
    (name : String) : (floors.map fun entry => (entry.1, change entry.1 entry.2)).lookup name =
      (floors.lookup name).map (change name) := by
  induction floors with
  | nil => rfl
  | cons entry rest ih =>
      rw [List.map_cons, List.lookup_cons, List.lookup_cons]
      split
      next same => rw [eq_of_beq same]; rfl
      next => exact ih

/-- The floor of a name becomes the version if it is lower or there was none, and other floors
stay. -/
theorem lookup_lowerFloor (floors : List (String × UInt32)) (name : String) (version : UInt32)
    (other : String) : (lowerFloor floors name version).lookup other =
      if other = name then
        some ((floors.lookup name).elim version fun floor =>
          if version < floor then version else floor)
      else floors.lookup other := by
  rw [lowerFloor]
  split
  next none =>
    rw [List.lookup_append, none, List.lookup_cons]
    by_cases own : other = name
    · rw [own, none, beq_self_eq_true, if_pos rfl]
      rfl
    · rw [beq_eq_false_iff_ne.mpr own, if_neg own]
      exact Option.or_none
  next floor found =>
    refine (lookup_map_floor floors (fun other floor =>
      if other == name ∧ version < floor then version else floor) other).trans ?_
    by_cases own : other = name
    · subst own
      simp [found]
    · simp [own]

/-- A general definition lowers the floor of its name to its version, and no other definition
does. -/
theorem lookup_floors_apply (insertion : Insertion) (store : Store) (name : String) :
    (insertion.apply store).floors.lookup name =
      if insertion.tag = none ∧ insertion.name = name then
        some ((store.floors.lookup name).elim insertion.version fun floor =>
          if insertion.version < floor then insertion.version else floor)
      else store.floors.lookup name := by
  obtain ⟨own, version, tag, layout⟩ := insertion
  cases tag with
  | none =>
      refine (lookup_lowerFloor store.floors own version name).trans ?_
      by_cases same : own = name
      · subst same
        simp
      · simp [same, Ne.symm same]
  | some platform =>
      rw [if_neg (fun both => nomatch both.1), Insertion.apply_eq]
      split <;> rfl

/-- Whether a version is the lowest general one of a message that was handed in. -/
structure Lowest (insertions : List Insertion) (name : String) (floor : UInt32) : Prop where
  given : ∃ insertion ∈ insertions, insertion.Gives none name floor
  below : ∀ insertion ∈ insertions, insertion.tag = none → insertion.name = name →
    floor ≤ insertion.version

/-- There is one lowest version only. -/
theorem Lowest.unique {floor floor' : UInt32} (lowest : Lowest insertions name floor)
    (lowest' : Lowest insertions name floor') : floor = floor' := by
  obtain ⟨first, listed, tag, own, rfl⟩ := lowest.given
  obtain ⟨second, listed', tag', own', rfl⟩ := lowest'.given
  exact UInt32.le_antisymm (lowest.below second listed' tag' own')
    (lowest'.below first listed tag own)

/-- The lowest version does not depend on the order of the definitions. -/
theorem Lowest.of_perm {others : List Insertion} {floor : UInt32}
    (lowest : Lowest insertions name floor) (perm : insertions.Perm others) :
    Lowest others name floor where
  given := lowest.given.imp fun _ => And.imp_left perm.mem_iff.mp
  below other listed := lowest.below other (perm.mem_iff.mpr listed)

/-- Definitions of another name or for a platform do not change the lowest version. -/
theorem lowest_concat_of_not {floor : UInt32} (lowest : Lowest insertions name floor)
    (other : ¬ (insertion.tag = none ∧ insertion.name = name)) :
    Lowest (insertions ++ [insertion]) name floor where
  given := lowest.given.imp fun _ => And.imp_left (List.mem_append_left _)
  below := List.forall_mem_append.mpr ⟨lowest.below,
    List.forall_mem_singleton.mpr fun tag own => absurd ⟨tag, own⟩ other⟩

/-- With one more general definition the lowest version is the lower of both. -/
theorem lowest_concat {floor : UInt32} (lowest : Lowest insertions name floor)
    (tag : insertion.tag = none) (own : insertion.name = name) :
    Lowest (insertions ++ [insertion]) name
      (if insertion.version < floor then insertion.version else floor) := by
  have last : insertion ∈ insertions ++ [insertion] := by simp
  by_cases lower : insertion.version < floor
  · rw [if_pos lower]
    refine ⟨⟨insertion, last, tag, own, rfl⟩, List.forall_mem_append.mpr
      ⟨fun other listed tag own => ?_, List.forall_mem_singleton.mpr fun _ _ => UInt32.le_refl _⟩⟩
    exact UInt32.le_of_lt (UInt32.lt_of_lt_of_le lower (lowest.below other listed tag own))
  · rw [if_neg lower]
    exact ⟨lowest.given.imp fun _ => And.imp_left (List.mem_append_left _),
      List.forall_mem_append.mpr ⟨lowest.below, List.forall_mem_singleton.mpr fun _ _ =>
        UInt32.not_lt.mp lower⟩⟩

/-- A message has no floor if no general definition of it was handed in. -/
theorem floor_insertAll (insertions : List Insertion) (platform : Platform) (name : String) :
    ((insertAll insertions (empty platform)).floors.lookup name = none ∧
        ∀ insertion ∈ insertions, ¬ (insertion.tag = none ∧ insertion.name = name)) ∨
      ∃ floor, (insertAll insertions (empty platform)).floors.lookup name = some floor ∧
        Lowest insertions name floor := by
  induction insertions using List.reverseRecOn with
  | nil => exact .inl ⟨rfl, List.forall_mem_nil _⟩
  | append_singleton insertions last ih =>
      rw [insertAll_concat, lookup_floors_apply]
      by_cases general : last.tag = none ∧ last.name = name
      · rw [if_pos general]
        rcases ih with ⟨none, others⟩ | ⟨floor, found, lowest⟩
        · rw [none]
          refine .inr ⟨_, rfl, ⟨last, by simp, general.1, general.2, rfl⟩,
            List.forall_mem_append.mpr ⟨fun other listed tag own => absurd ⟨tag, own⟩
              (others other listed), List.forall_mem_singleton.mpr fun _ _ => UInt32.le_refl _⟩⟩
        · rw [found]
          exact .inr ⟨_, rfl, lowest_concat lowest general.1 general.2⟩
      · rw [if_neg general]
        refine ih.imp (And.imp_right fun others => ?_) fun ⟨floor, found, lowest⟩ =>
          ⟨floor, found, lowest_concat_of_not lowest general⟩
        exact List.forall_mem_append.mpr ⟨others, List.forall_mem_singleton.mpr general⟩

/-- **The floor of a message is the lowest of its general versions.** -/
theorem floor_insertAll_eq_some {floor : UInt32} :
    (insertAll insertions (empty platform)).floors.lookup name = some floor ↔
      Lowest insertions name floor := by
  rcases floor_insertAll insertions platform name with ⟨none, others⟩ | ⟨own, found, lowest⟩
  · rw [none]
    refine ⟨nofun, fun lowest => ?_⟩
    obtain ⟨insertion, listed, tag, own, _⟩ := lowest.given
    exact absurd ⟨tag, own⟩ (others insertion listed)
  · rw [found, Option.some.injEq]
    exact ⟨fun same => same ▸ lowest, lowest.unique⟩

/-! ## Moving general definitions -/

/-- Whether two stores answer alike: the same definitions and floors, whatever is asked for, and
whatever is dropped. -/
structure Alike (store other : Store) : Prop where
  definitions : store.definitions = other.definitions
  floors : ∀ name, store.floors.lookup name = other.floors.lookup name
  resolve : ∀ protocol key request,
    store.resolve protocol key request = other.resolve protocol key request
  purge : ∀ protocol, (store.purge protocol).1 = (other.purge protocol).1 ∧
    (store.purge protocol).2.definitions = (other.purge protocol).2.definitions

/-- Stores that differ in the order of their floors answer alike. -/
theorem Alike.of_floors {floors : List (String × UInt32)}
    (same : ∀ name, store.floors.lookup name = floors.lookup name) :
    Alike store { store with floors := floors } := by
  refine ⟨rfl, same, fun _ _ _ => rfl, fun protocol => ?_⟩
  have current : store.isCurrent protocol = isCurrent { store with floors := floors } protocol := by
    funext definition
    rw [isCurrent, isCurrent, same]
  rw [Store.purge, Store.purge, current]
  exact ⟨rfl, rfl⟩

/-- Of the same insertions in another order, what is seen is all that may differ. -/
theorem alike_insertAll {others : List Insertion}
    (seen : ∀ name version, seen insertions platform name version =
      seen others platform name version)
    (perm : insertions.Perm others) :
    Alike (insertAll insertions (empty platform)) (insertAll others (empty platform)) := by
  have sound (insertions : List Insertion) : Sound (insertAll insertions (empty platform)) :=
    sound_insertAll (sound_empty platform) insertions
  have definitions := definitions_ext (sound insertions) (sound others) fun name version => by
    rw [definition?_insertAll, definition?_insertAll, seen]
  have floors (name : String) : (insertAll insertions (empty platform)).floors.lookup name =
      (insertAll others (empty platform)).floors.lookup name := by
    refine Option.ext fun floor => ?_
    rw [floor_insertAll_eq_some, floor_insertAll_eq_some]
    exact ⟨(·.of_perm perm), (·.of_perm perm.symm)⟩
  rw [insertAll_eq_with others, ← definitions]
  have alike := Alike.of_floors floors
  rwa [insertAll_eq_with insertions] at alike ⊢

/-- Whether a general insertion may be moved across others without being noticed: there is one for
the platform of the same version, or none of the others is a general one of the same version. -/
def Passes (platform : Platform) (all crossed : List Insertion) (general : Insertion) : Prop :=
  (∃ other ∈ all, other.Gives (some platform) general.name general.version) ∨
    ∀ other ∈ crossed, ¬ other.Gives none general.name general.version

/-- A general definition that is moved behind those that it may pass leaves every version as it is
seen. -/
theorem seen_moved {front crossed back : List Insertion} {general : Insertion}
    (tag : general.tag = none)
    (passes : Passes platform (front ++ general :: (crossed ++ back)) crossed general)
    (name : String) (version : UInt32) :
    seen (front ++ general :: (crossed ++ back)) platform name version =
      seen (front ++ crossed ++ general :: back) platform name version := by
  have unmade : ¬ general.Gives (some platform) name version := by simp [Insertion.Gives, tag]
  have made : given (front ++ general :: (crossed ++ back)) (some platform) name version =
      given (front ++ crossed ++ general :: back) (some platform) name version := by
    simp only [given_append, given_cons_of_not unmade, List.append_assoc]
  rw [seen, seen, made]
  by_cases own : general.Gives none name version
  · obtain ⟨-, rfl, rfl⟩ := id own
    rcases passes with shown | others
    · -- what is made for the platform hides all general ones
      rw [← given_ne_nil, made, ← List.getLast?_isSome, Option.isSome_iff_exists] at shown
      obtain ⟨last, shown⟩ := shown
      rw [shown, Option.some_or, Option.some_or]
    · simp only [given_append, given_cons_of_gives own, given_eq_nil.mpr others, List.append_nil,
        List.nil_append]
  · simp only [given_append, given_cons_of_not own, List.append_assoc]

/-! ## All insertions -/

/-- What a store for a platform knows after insertions. -/
structure Precedence (platform : Platform) (insertions : List Insertion) (store : Store) :
    Prop where
  visible : ∀ name version, store.definition? name version =
    (seen insertions platform name version).map Insertion.definition
  heeded : ∀ name version layout, (store.addForPlatform name version platform layout).1 = true
  foreign : ∀ name version other layout, other ≠ platform →
    store.addForPlatform name version other layout = (false, store)
  unheeded : insertAll (insertions.filter (·.suits platform)) (empty platform) = store
  ascending : ∀ name, (store.versions name).Pairwise (· < ·)
  versions : ∀ name version, version ∈ store.versions name ↔ ∃ insertion ∈ insertions,
    insertion.suits platform = true ∧ insertion.name = name ∧ insertion.version = version
  latest : ∀ name version, store.latest? name = some version ↔
    (∃ insertion ∈ insertions, insertion.suits platform = true ∧ insertion.name = name ∧
      insertion.version = version) ∧
    ∀ insertion ∈ insertions, insertion.suits platform = true → insertion.name = name →
      insertion.version ≤ version
  floor : ∀ name version, store.floors.lookup name = some version ↔ Lowest insertions name version

/-- What is made for other platforms may be left out. -/
theorem insertAll_suits (insertions : List Insertion) (platform : Platform) :
    insertAll (insertions.filter (·.suits platform)) (empty platform) =
      insertAll insertions (empty platform) := by
  induction insertions using List.reverseRecOn with
  | nil => rfl
  | append_singleton insertions last ih =>
      rw [List.filter_append, insertAll_concat]
      by_cases suits : last.suits platform = true
      · rw [List.filter_cons_of_pos suits, List.filter_nil, insertAll_concat, ih]
      · rw [List.filter_cons_of_neg suits, List.filter_nil, List.append_nil, ih, last.apply_eq,
          platform_insertAll]
        exact (if_neg suits).symm

/-- **What a store shows is decided by precedence**, whatever definitions are handed to it in
whatever order. -/
theorem precedence (insertions : List Insertion) (platform : Platform) :
    Precedence platform insertions (insertAll insertions (empty platform)) := by
  have sound := sound_insertAll (sound_empty platform) insertions
  have here : (insertAll insertions (empty platform)).platform = platform :=
    platform_insertAll insertions _
  constructor
  case visible => exact definition?_insertAll insertions platform
  case heeded =>
    intro name version layout
    rw [addForPlatform, if_pos here.symm]
  case foreign =>
    intro name version other layout differs
    rw [addForPlatform, here, if_neg differs]
  case unheeded => exact insertAll_suits insertions platform
  case ascending => exact sorted_versions sound
  case versions => exact fun _ _ => mem_versions_insertAll
  case latest =>
    intro name version
    rw [← mem_versions_insertAll]
    have greatest : (∀ insertion ∈ insertions, insertion.suits platform = true →
        insertion.name = name → insertion.version ≤ version) ↔
        ∀ other ∈ (insertAll insertions (empty platform)).versions name, other ≤ version := by
      simp only [mem_versions_insertAll]
      refine ⟨fun above other shown => ?_, fun above insertion listed suits own =>
        above _ ⟨insertion, listed, suits, own, rfl⟩⟩
      obtain ⟨insertion, listed, suits, own, rfl⟩ := shown
      exact above insertion listed suits own
    rw [greatest]
    exact ⟨latest?_greatest sound, fun both => latest?_of_greatest sound both.1 both.2⟩
  case floor => exact fun _ _ => floor_insertAll_eq_some

/-- **Platforms take precedence, in whatever order definitions come.** A store for a platform shows
of each version the last definition made for the platform and, if there is none, the first general
one; it takes no notice of what is made for other platforms. Moving a general insertion across
others, in either direction, changes no answer unless it passes a general one of the same version
while nothing of this version is made for the platform. -/
theorem precedence_insertAll (platform : Platform) :
    (∀ insertions, Precedence platform insertions (insertAll insertions (empty platform))) ∧
      ∀ front crossed back general, general.tag = none →
        Passes platform (front ++ general :: (crossed ++ back)) crossed general →
        Alike (insertAll (front ++ general :: (crossed ++ back)) (empty platform))
          (insertAll (front ++ crossed ++ general :: back) (empty platform)) := by
  refine ⟨fun insertions => precedence insertions platform,
    fun front crossed back general tag passes => ?_⟩
  refine alike_insertAll (seen_moved tag passes) ?_
  rw [List.append_assoc]
  exact List.perm_middle.symm.append_left front

/-- Four definitions of one version: the one made for the platform of the store is seen, and the
first general one may come behind it. -/
theorem precedence_insertAll_console :
    let first : Insertion := ⟨"S_CHAT", 1, none, ⟨[.scalar "id" .uint32]⟩⟩
    let made : Insertion := ⟨"S_CHAT", 1, some .console, ⟨[.scalar "id" .uint16]⟩⟩
    let foreign : Insertion := ⟨"S_CHAT", 1, some .pc, ⟨[.scalar "id" .byte]⟩⟩
    let late : Insertion := ⟨"S_CHAT", 1, none, ⟨[.scalar "id" .uint64]⟩⟩
    let store := insertAll [first, made, foreign, late] (empty .console)
    store.definition? "S_CHAT" 1 = some made.definition ∧
      Alike store (insertAll [made, foreign, first, late] (empty .console)) := by
  intro first made foreign late store
  obtain ⟨knows, moved⟩ := precedence_insertAll .console
  refine ⟨(knows _).visible "S_CHAT" 1, ?_⟩
  have shown : Passes .console [first, made, foreign, late] [made, foreign] first :=
    .inl ⟨made, by simp, rfl, rfl, rfl⟩
  exact moved [] [made, foreign] [late] first rfl shown

end Relay.Store
