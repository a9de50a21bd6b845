import Mathlib.Data.Finset.Card
import Relay.Proofs.Protocol.Answered
import Relay.Proofs.Protocol.Precedence

/-! # What is left when useless definitions are dropped

Dropping what is of no use on one protocol and then on another comes to the same as dropping what is
of no use on the later of the two, and what may be read there answers as before
(`Relay.Store.purge_composes`). A definition made for the platform goes by the lowest general
version that was ever added, whether or not this one may still be read
(`Relay.Store.purge_insertAll`). -/

namespace Relay

namespace Deprecation

/-- What may be used on the later of two protocols may be used on both. -/
theorem isReadable_max (bounds : Deprecation) (protocol other : UInt32) :
    bounds.isReadable (max protocol other) =
      (bounds.isReadable protocol && bounds.isReadable other) := by
  rw [isReadable, isReadable, isReadable, within, within, within]
  cases bounds.readUntil with
  | none => rfl
  | some last =>
      rw [Bool.eq_iff_iff]
      simp [UInt32.le_iff_toNat_le, UInt32.toNat_max]

/-- What may be read may be read on every earlier protocol. -/
theorem isReadable_of_le {bounds : Deprecation} {protocol later : UInt32}
    (older : protocol ≤ later) (readable : bounds.isReadable later = true) :
    bounds.isReadable protocol = true := by
  have same : max protocol later = later := (UInt32.max_def ..).trans (if_pos older)
  rw [← same, isReadable_max, Bool.and_eq_true] at readable
  exact readable.1

end Deprecation

namespace Store

variable {store : Store} {definition : Definition} {protocol later : UInt32} {key : MessageKey}
  {name : String} {code : UInt16} {version : UInt32}

/-- Whether a definition is made for the platform and below all general versions. -/
def Stale (store : Store) (definition : Definition) : Prop :=
  definition.platformSpecific = true ∧
    ∃ floor, store.floors.lookup definition.name = some floor ∧ definition.version < floor

/-- A definition is current if it is not stale and the manifest lets it be read on the protocol. -/
theorem isCurrent_iff : store.isCurrent protocol definition = true ↔
    ¬ Stale store definition ∧
      (store.manifest.deprecation definition.name definition.version).isReadable protocol =
        true := by
  have stale : (definition.platformSpecific && (store.floors.lookup definition.name).any
      fun floor => definition.version < floor) = true ↔ Stale store definition := by
    simp [Stale, Option.any_eq_true]
  rw [isCurrent, Bool.and_eq_true, Bool.not_eq_true', ← stale, Bool.not_eq_true]

/-! ## One purge after another -/

/-- What is current on the later of two protocols is current on both. -/
theorem isCurrent_max (store : Store) (protocol other : UInt32) (definition : Definition) :
    store.isCurrent (max protocol other) definition =
      (store.isCurrent other definition && store.isCurrent protocol definition) := by
  rw [Bool.eq_iff_iff, Bool.and_eq_true, isCurrent_iff, isCurrent_iff, isCurrent_iff,
    Deprecation.isReadable_max, Bool.and_eq_true]
  tauto

/-- **Purges compose** to that on the later protocol. -/
theorem purge_purge (store : Store) (protocol other : UInt32) :
    ((store.purge protocol).2.purge other).2 = (store.purge (max protocol other)).2 := by
  have definitions : (store.definitions.filter (store.isCurrent protocol)).filter
        (store.isCurrent other) =
      store.definitions.filter (store.isCurrent (max protocol other)) := by
    rw [List.filter_filter]
    exact List.filter_congr fun definition _ => (isCurrent_max ..).symm
  exact congrArg (fun kept => { store with definitions := kept }) definitions

/-- What a purge counts and what it leaves are all that was there. -/
theorem purge_fst_add (store : Store) (protocol : UInt32) :
    (store.purge protocol).1 + (store.purge protocol).2.definitions.length =
      store.definitions.length :=
  Nat.sub_add_cancel (List.length_filter_le ..)

/-- The counts of purges add up. -/
theorem purge_fst_purge (store : Store) (protocol other : UInt32) :
    (store.purge protocol).1 + ((store.purge protocol).2.purge other).1 =
      (store.purge (max protocol other)).1 := by
  have first := purge_fst_add store protocol
  have second := purge_fst_add (store.purge protocol).2 other
  have both := purge_fst_add store (max protocol other)
  rw [purge_purge] at second
  omega

/-- To purge again changes nothing and counts nothing. -/
theorem purge_self (store : Store) (protocol : UInt32) :
    (store.purge protocol).2.purge protocol = (0, (store.purge protocol).2) := by
  have same : max protocol protocol = protocol := ite_self protocol
  have count := purge_fst_purge store protocol protocol
  have rest := purge_purge store protocol protocol
  rw [same] at count rest
  exact Prod.ext (Nat.add_eq_left.mp count) rest

/-- It does not matter which of two purges is the first. -/
theorem purge_comm (store : Store) (protocol other : UInt32) :
    ((store.purge protocol).2.purge other).2 = ((store.purge other).2.purge protocol).2 := by
  have same : max protocol other = max other protocol :=
    UInt32.toNat_inj.mp (by rw [UInt32.toNat_max, UInt32.toNat_max, Nat.max_comm])
  rw [purge_purge, purge_purge, same]

/-! ## What stays -/

/-- A purge counts the entries that it drops. -/
theorem purge_fst_eq_card (sound : Sound store) (protocol : UInt32) : (store.purge protocol).1 =
    (store.entries.toFinset \ (store.purge protocol).2.entries.toFinset).card := by
  have within : (store.purge protocol).2.entries.toFinset ⊆ store.entries.toFinset :=
    fun entry kept => List.mem_toFinset.mpr
      (List.map_subset _ List.filter_sublist.subset (List.mem_toFinset.mp kept))
  have count := purge_fst_add store protocol
  rw [Finset.card_sdiff_of_subset within, List.toFinset_card_of_nodup (nodup_entries sound),
    List.toFinset_card_of_nodup (nodup_entries (sound_purge sound protocol)), entries, entries,
    List.length_map, List.length_map]
  omega

/-- The names of a store are those of its definitions. -/
theorem mem_names : name ∈ store.names ↔ ∃ definition ∈ store.definitions,
    definition.name = name := by
  rw [names]
  induction store.definitions with
  | nil => simp
  | cons definition rest ih =>
      rw [List.foldr_cons, List.exists_mem_cons_iff]
      split
      next same =>
        rw [ih]
        refine ⟨.inr, fun either => either.elim (fun own => ?_) id⟩
        subst own
        exact ih.mp (List.mem_of_head? (eq_of_beq same))
      next => rw [List.mem_cons, ih, eq_comm]

theorem versions_ne_nil : store.versions name ≠ [] ↔ ∃ definition ∈ store.definitions,
    definition.name = name := by
  simp [versions, definitionsOf]

/-- A purge leaves a version that may be read on a later protocol and is not stale. -/
theorem definition?_purge (sound : Sound store)
    (found : store.definition? name version = some definition) (older : protocol ≤ later)
    (readable : (store.manifest.deprecation name version).isReadable later = true)
    (fresh : ¬ Stale store definition) :
    (store.purge protocol).2.definition? name version = some definition := by
  obtain ⟨member, rfl, rfl⟩ := of_definition?_eq_some found
  refine (mem_definitions (sound_purge sound protocol)).mp (List.mem_filter.mpr ⟨member, ?_⟩)
  exact isCurrent_iff.mpr ⟨fresh, Deprecation.isReadable_of_le older readable⟩

/-- A version that is there is what a request for it comes to. -/
theorem resolve_exact (known : store.lookup protocol key = .ok (name, code))
    (found : store.definition? name version = some definition) :
    ∃ latest, store.resolve protocol key (.exact version) = .ok ⟨name, code, version, latest,
      definition.layout, store.manifest.deprecation name version⟩ := by
  have some : store.versions name ≠ [] :=
    List.ne_nil_of_mem (mem_versions.mpr ⟨definition, found⟩)
  obtain ⟨latest, newest⟩ := Option.isSome_iff_exists.mp (List.getLast?_isSome.mpr some)
  refine ⟨latest, ?_⟩
  have newest : store.latest? name = .some latest := newest
  simp only [resolve, known, newest, found, bind, Except.bind]
  rfl

/-- What a definition that stays answers on a protocol, before and after. Nothing but what is said
of the latest version may change. -/
structure Stays (store purged : Store) (protocol : UInt32) (name : String) (version : UInt32)
    (definition : Definition) : Prop where
  present : purged.definition? name version = some definition
  resolves : ∀ key code, store.lookup protocol key = .ok (name, code) → ∃ latest latest',
    store.resolve protocol key (.exact version) = .ok ⟨name, code, version, latest,
      definition.layout, store.manifest.deprecation name version⟩ ∧
    purged.resolve protocol key (.exact version) = .ok ⟨name, code, version, latest',
      definition.layout, store.manifest.deprecation name version⟩
  reads : ∀ key, (∀ other code, store.lookup protocol key = .ok (other, code) → other = name) →
    ∀ message, purged.read protocol key (.exact version) message =
      store.read protocol key (.exact version) message

/-- What may be read on a later protocol and is not stale stays as it was. -/
theorem stays_purge (sound : Sound store)
    (found : store.definition? name version = some definition) (older : protocol ≤ later)
    (readable : (store.manifest.deprecation name version).isReadable later = true)
    (fresh : ¬ Stale store definition) :
    Stays store (store.purge protocol).2 later name version definition := by
  have present := definition?_purge sound found older readable fresh
  have resolves (key : MessageKey) (code : UInt16)
      (known : store.lookup later key = .ok (name, code)) : ∃ latest latest',
      store.resolve later key (.exact version) = .ok ⟨name, code, version, latest,
        definition.layout, store.manifest.deprecation name version⟩ ∧
      (store.purge protocol).2.resolve later key (.exact version) = .ok ⟨name, code, version,
        latest', definition.layout, store.manifest.deprecation name version⟩ := by
    obtain ⟨latest, before⟩ := resolve_exact known found
    have known' : (store.purge protocol).2.lookup later key = .ok (name, code) := known
    obtain ⟨latest', after⟩ := resolve_exact known' present
    exact ⟨latest, latest', before, after⟩
  refine ⟨present, resolves, fun key named message => ?_⟩
  cases known : store.lookup later key with
  | error error =>
      have known' : (store.purge protocol).2.lookup later key = .error error := known
      simp only [read, resolve_eq_error known, resolve_eq_error known', bind, Except.bind]
  | ok row =>
      obtain ⟨other, code⟩ := row
      obtain rfl := named other code known
      obtain ⟨latest, latest', before, after⟩ := resolves key code known
      rw [read_eq_decode before (Resolved.ensure_eq_ok.mpr readable),
        read_eq_decode after (Resolved.ensure_eq_ok.mpr readable)]
      rfl

/-- What a purge on a protocol does: it counts the entries that it drops (`count`), leaves no
message without versions (`named`), and does not touch what may still be read on a later protocol,
unless it is made for the platform and below all general versions (`stays`). -/
structure Purges (store : Store) (protocol : UInt32) : Prop where
  count : (store.purge protocol).1 =
    (store.entries.toFinset \ (store.purge protocol).2.entries.toFinset).card
  named : ∀ name, name ∈ (store.purge protocol).2.names ↔
    (store.purge protocol).2.versions name ≠ []
  stays : ∀ later name version definition, protocol ≤ later →
    store.definition? name version = some definition →
    (store.manifest.deprecation name version).isReadable later = true →
    ¬ Stale store definition →
    Stays store (store.purge protocol).2 later name version definition

/-- **A purge removes what is not current and nothing else**, and what stays is found as before. -/
theorem purges (sound : Sound store) (protocol : UInt32) : Purges store protocol where
  count := purge_fst_eq_card sound protocol
  named _ := mem_names.trans versions_ne_nil.symm
  stays _ _ _ _ older found readable fresh := stays_purge sound found older readable fresh

/-- **Purges compose.** Dropping what is of no use on one protocol and then on another drops the
same, and counts as many, as on the later of the two at once; so the order does not matter and a
second time nothing is left to drop. What may still be read on a later protocol stays as it is. -/
theorem purge_composes (made : store.Made) (protocol other : UInt32) :
    ((store.purge protocol).2.purge other).2 = (store.purge (max protocol other)).2 ∧
      (store.purge protocol).1 + ((store.purge protocol).2.purge other).1 =
        (store.purge (max protocol other)).1 ∧
      (store.purge protocol).2.purge protocol = (0, (store.purge protocol).2) ∧
      ((store.purge protocol).2.purge other).2 = ((store.purge other).2.purge protocol).2 ∧
      Purges store protocol :=
  ⟨purge_purge store protocol other, purge_fst_purge store protocol other,
    purge_self store protocol, purge_comm store protocol other, purges made.sound protocol⟩

/-- A store with a message of which one version may be read up to protocol 10, and an older one was
made for the platform. -/
def agedStore : Store :=
  let tabled := (empty .classic).setTable 20 (OpcodeTable.empty.insert "S_CHAT" 10)
  let general := (tabled.addGeneral "S_CHAT" 4 ⟨[.scalar "id" .uint32]⟩).addGeneral "S_CHAT" 5
    ⟨[.scalar "id" .uint64]⟩
  let forked := (general.addForPlatform "S_CHAT" 2 .classic ⟨[.scalar "id" .uint16]⟩).2
  forked.setManifest ⟨[("S_CHAT", [(4, ⟨none, some 10⟩)])], []⟩

theorem purge_composes_aged : agedStore.Made ∧
    ((agedStore.purge 5).2.purge 20).2 = (agedStore.purge 20).2 ∧
      (agedStore.purge 5).1 = 1 ∧ ((agedStore.purge 5).2.purge 20).1 = 1 ∧
      Stays agedStore (agedStore.purge 5).2 20 "S_CHAT" 5
        ⟨"S_CHAT", 5, ⟨[.scalar "id" .uint64]⟩, false⟩ := by
  have tabled : ((empty .classic).setTable 20 (OpcodeTable.empty.insert "S_CHAT" 10)).Made :=
    .setTable (.empty .classic) 20 (.insert .empty _ _)
  have made : agedStore.Made :=
    .setManifest (.addForPlatform (.addGeneral (.addGeneral tabled _ _ _) _ _ _) _ _ _ _) _
  obtain ⟨composed, _, _, _, purges⟩ := purge_composes made 5 20
  refine ⟨made, composed, rfl, rfl, purges.stays 20 "S_CHAT" 5 _ (by decide) rfl rfl ?_⟩
  rintro ⟨⟨⟩, _⟩

/-! ## Definitions made for the platform -/

/-- Which definitions a purge leaves of those that were handed in: the ones that may be read, and of
those for the platform none below the lowest general version that was handed in (`stays`). Hence one
for the platform that is left below all general versions that are left goes back to a general one
that is not (`below`). -/
structure Spares (insertions : List Insertion) (store : Store) (protocol : UInt32) : Prop where
  stays : ∀ definition, definition ∈ (store.purge protocol).2.definitions ↔
    definition ∈ store.definitions ∧
      (store.manifest.deprecation definition.name definition.version).isReadable protocol = true ∧
      (definition.platformSpecific = true →
        ∀ floor, Lowest insertions definition.name floor → floor ≤ definition.version)
  below : ∀ general ∈ (store.purge protocol).2.definitions, general.platformSpecific = false →
    (∀ other ∈ (store.purge protocol).2.definitions, other.platformSpecific = false →
      other.name = general.name → general.version ≤ other.version) →
    ∀ fork ∈ (store.purge protocol).2.definitions, fork.platformSpecific = true →
      fork.name = general.name → general.version ≤ fork.version ∨
        ∃ floor, Lowest insertions general.name floor ∧ floor ≤ fork.version ∧
          ∀ definition ∈ (store.purge protocol).2.definitions, definition.name = general.name →
            definition.version = floor → definition.platformSpecific = true

section Spared

variable {insertions : List Insertion} {platform : Platform} {manifest : Manifest}

/-- Insertions take no notice of the manifest. -/
theorem insertAll_setManifest (insertions : List Insertion) (store : Store) (manifest : Manifest) :
    insertAll insertions (store.setManifest manifest) =
      (insertAll insertions store).setManifest manifest := by
  induction insertions using List.reverseRecOn with
  | nil => rfl
  | append_singleton insertions last ih =>
      rw [insertAll_concat, insertAll_concat, ih, last.apply_eq, last.apply_eq]
      change (if last.suits (insertAll insertions store).platform = true then _ else _) = _
      split <;> rfl

/-- Every definition was handed in. -/
theorem exists_of_mem_definitions
    (member : definition ∈ (insertAll insertions (empty platform)).definitions) :
    ∃ insertion ∈ insertions, insertion.definition = definition := by
  induction insertions using List.reverseRecOn with
  | nil => cases member
  | append_singleton insertions last ih =>
      have earlier (old : definition ∈ (insertAll insertions (empty platform)).definitions) :
          ∃ insertion ∈ insertions ++ [last], insertion.definition = definition :=
        (ih old).imp fun _ => And.imp_left (List.mem_append_left _)
      rw [insertAll_concat, last.apply_eq] at member
      split at member
      next =>
        rcases mem_insertDefinition member with rfl | old
        · exact ⟨last, List.mem_append_right _ List.mem_cons_self, rfl⟩
        · exact earlier old
      next => exact earlier member

/-- A message with a general definition has a lowest one that was handed in. -/
theorem exists_lowest (member : definition ∈ (insertAll insertions (empty platform)).definitions)
    (general : definition.platformSpecific = false) :
    ∃ floor, Lowest insertions definition.name floor := by
  obtain ⟨insertion, listed, rfl⟩ := exists_of_mem_definitions member
  rcases floor_insertAll insertions platform insertion.name with ⟨_, none⟩ | ⟨floor, _, lowest⟩
  · exact absurd ⟨Insertion.platformSpecific_definition.mp general, rfl⟩ (none _ listed)
  · exact ⟨floor, lowest⟩

theorem stale_iff (floors : store.floors = (insertAll insertions (empty platform)).floors) :
    Stale store definition ↔ definition.platformSpecific = true ∧
      ∃ floor, Lowest insertions definition.name floor ∧ definition.version < floor := by
  simp only [Stale, floors, floor_insertAll_eq_some]

/-- A purge spares what was handed over and is neither past its bounds nor below the lowest general
version. -/
theorem spares (definitions : store.definitions =
      (insertAll insertions (empty platform)).definitions)
    (floors : store.floors = (insertAll insertions (empty platform)).floors)
    (protocol : UInt32) : Spares insertions store protocol := by
  have stays (definition : Definition) : definition ∈ (store.purge protocol).2.definitions ↔
      definition ∈ store.definitions ∧
        (store.manifest.deprecation definition.name definition.version).isReadable protocol = true ∧
        (definition.platformSpecific = true →
          ∀ floor, Lowest insertions definition.name floor → floor ≤ definition.version) := by
    refine List.mem_filter.trans (and_congr_right fun _ => ?_)
    rw [isCurrent_iff, stale_iff floors, and_comm]
    simp
  refine ⟨stays, fun general present isGeneral lowest fork left made named => ?_⟩
  by_cases above : general.version ≤ fork.version
  · exact .inl above
  · obtain ⟨listed, _⟩ := (stays general).mp present
    rw [definitions] at listed
    obtain ⟨floor, floored⟩ := exists_lowest listed isGeneral
    have within := ((stays fork).mp left).2.2 made floor (named ▸ floored)
    refine .inr ⟨floor, floored, within, fun definition there own same => ?_⟩
    -- a general definition at the floor would be below the lowest one that is left
    by_contra notMade
    have least := lowest definition there (Bool.eq_false_of_not_eq_true notMade) own
    exact above (UInt32.le_trans least (same ▸ within))

/-- **A definition for the platform goes by the lowest general version that was handed in**, with a
manifest set at any time. -/
theorem purge_insertAll (platform : Platform) (earlier later : List Insertion) (manifest : Manifest)
    (protocol : UInt32) : Spares (earlier ++ later)
      (insertAll later ((insertAll earlier (empty platform)).setManifest manifest)) protocol := by
  have joined : insertAll later (insertAll earlier (empty platform)) =
      insertAll (earlier ++ later) (empty platform) :=
    List.foldl_append.symm
  rw [insertAll_setManifest, joined]
  have definitions : ((insertAll (earlier ++ later) (empty platform)).setManifest
      manifest).definitions = (insertAll (earlier ++ later) (empty platform)).definitions := rfl
  exact spares definitions rfl protocol

end Spared

/-- Two general versions of a message, and one between them that is made for a platform. -/
def enclosing : List Insertion :=
  [⟨"S_CHAT", 1, none, ⟨[.scalar "id" .uint32]⟩⟩, ⟨"S_CHAT", 5, none, ⟨[.scalar "id" .uint32]⟩⟩,
    ⟨"S_CHAT", 3, some .classic, ⟨[.scalar "id" .uint16]⟩⟩]

/-- The first version may be read up to protocol 10. -/
def firstUntilTen : Manifest :=
  ⟨[("S_CHAT", [(1, ⟨none, some 10⟩)])], []⟩

/-- A definition for the platform is left below all general versions that may be read, because of
one that may not. -/
theorem purge_enclosing : ¬ ∀ (platform : Platform) (earlier later : List Insertion)
    (manifest : Manifest) (protocol : UInt32),
    let store := insertAll later ((insertAll earlier (empty platform)).setManifest manifest)
    ∀ general ∈ (store.purge protocol).2.definitions, general.platformSpecific = false →
      (∀ other ∈ (store.purge protocol).2.definitions, other.platformSpecific = false →
        other.name = general.name → general.version ≤ other.version) →
      ∀ fork ∈ (store.purge protocol).2.definitions, fork.platformSpecific = true →
        fork.name = general.name → general.version ≤ fork.version := by
  intro all
  let fork : Definition := ⟨"S_CHAT", 3, ⟨[.scalar "id" .uint16]⟩, true⟩
  let general : Definition := ⟨"S_CHAT", 5, ⟨[.scalar "id" .uint32]⟩, false⟩
  have left : ((insertAll [] ((insertAll enclosing (empty .classic)).setManifest
      firstUntilTen)).purge 20).2.definitions = [fork, general] := rfl
  have claimed := all .classic enclosing [] firstUntilTen 20
  dsimp only at claimed
  rw [left] at claimed
  have least : ∀ other ∈ [fork, general], other.platformSpecific = false →
      other.name = general.name → general.version ≤ other.version := by
    decide
  have below := claimed general (by simp) rfl least fork (by simp) rfl rfl
  exact absurd below (by decide)

end Store

end Relay
