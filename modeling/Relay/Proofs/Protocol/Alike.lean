import Relay.Proofs.Protocol.Kept
import Relay.Protocol.Resolve

/-! # Names and codes resolve alike

A message comes to the same definition by its name and by its code, and a request for the latest
version comes to the greatest one there is (`Relay.Store.resolve_alike`). For this the tables must
be paired and the definitions in order, as they are in every store
(`Relay.Store.Made.sound`). -/

namespace Relay.Store

variable {store : Store} {protocol : UInt32} {key : MessageKey} {request other : VersionRequest}
  {resolved again : Resolved} {name : String} {code : UInt16} {version : UInt32}

/-! ## One definition for every version -/

/-- What a message resolves to is what the table, the definitions and the manifest say of it. -/
theorem resolve_eq_ok (found : store.resolve protocol key request = .ok resolved) :
    store.lookup protocol key = .ok (resolved.name, resolved.code) ∧
      store.latest? resolved.name = some resolved.latest ∧
      ∃ definition, store.definition? resolved.name resolved.version = some definition ∧
        resolved.layout = definition.layout ∧
        resolved.bounds = store.manifest.deprecation resolved.name resolved.version := by
  obtain ⟨⟨name, code⟩, known, rest⟩ := Layout.except_bind_eq_ok.mp found
  dsimp only at rest
  split at rest
  next => cases rest
  next latest newest =>
    split at rest
    next definition present =>
      cases rest
      exact ⟨known, newest, definition, present, rfl, rfl⟩
    next =>
      rcases ite_eq_iff.mp rest with ⟨_, refused⟩ | ⟨_, refused⟩ <;> cases refused

/-- A request for a version comes to this version, and a request for the latest to the latest. -/
theorem version_of_resolve (found : store.resolve protocol key request = .ok resolved) :
    resolved.version = match request with
      | .latest => resolved.latest
      | .exact wanted => wanted := by
  obtain ⟨⟨name, code⟩, _, rest⟩ := Layout.except_bind_eq_ok.mp found
  dsimp only at rest
  split at rest
  next => cases rest
  next =>
    split at rest
    next =>
      cases rest
      cases request <;> rfl
    next =>
      rcases ite_eq_iff.mp rest with ⟨_, refused⟩ | ⟨_, refused⟩ <;> cases refused

/-- Requests for the same version of a message come to the same definition. -/
theorem resolve_unique (first : store.resolve protocol key request = .ok resolved)
    (second : store.resolve protocol key other = .ok again)
    (same : resolved.version = again.version) : resolved = again := by
  obtain ⟨known, newest, definition, present, layout, bounds⟩ := resolve_eq_ok first
  obtain ⟨known', newest', definition', present', layout', bounds'⟩ := resolve_eq_ok second
  obtain ⟨name, code⟩ := Prod.mk.inj (Except.ok.inj (known.symm.trans known'))
  rw [← name] at newest'
  rw [← name, ← same] at present' bounds'
  obtain rfl := Option.some.inj (present.symm.trans present')
  cases resolved
  cases again
  congr
  · exact Option.some.inj (newest.symm.trans newest')
  · exact layout.trans layout'.symm
  · exact bounds.trans bounds'.symm

/-! ## Names and codes -/

/-- What a message resolves to depends on its name and code alone. -/
theorem resolve_congr {key' : MessageKey}
    (same : store.lookup protocol key = store.lookup protocol key') :
    store.resolve protocol key request = store.resolve protocol key' request := by
  rw [resolve, same, resolve]

/-- A message that is not found does not resolve. -/
theorem resolve_eq_error {error : StoreError}
    (unknown : store.lookup protocol key = .error error) :
    store.resolve protocol key request = .error error := by
  rw [resolve, unknown]
  rfl

/-- A name is found if the table of the protocol has a code for it. -/
theorem lookup_name_eq_ok {own : String} :
    store.lookup protocol (.name own) = .ok (name, code) ↔
      name = own ∧ ∃ table, store.table? protocol = some table ∧ table.code? own = some code := by
  rw [lookup]
  cases store.table? protocol with
  | none => exact ⟨nofun, nofun⟩
  | some table =>
      cases found : table.code? own with
      | none => simp [found]
      | some held => simp [found, eq_comm]

/-- A code is found if the table of the protocol has a name for it. -/
theorem lookup_code_eq_ok {own : UInt16} :
    store.lookup protocol (.code own) = .ok (name, code) ↔
      code = own ∧ ∃ table, store.table? protocol = some table ∧ table.name? own = some name := by
  rw [lookup]
  cases store.table? protocol with
  | none => exact ⟨nofun, nofun⟩
  | some table =>
      cases found : table.name? own with
      | none => simp [found]
      | some held => simp [found, eq_comm, and_comm]

/-- The code of a name has this name, and the name of a code has this code. -/
theorem lookup_alike (sound : Sound store) : store.lookup protocol (.name name) = .ok (name, code) ↔
    store.lookup protocol (.code code) = .ok (name, code) := by
  rw [lookup_name_eq_ok, lookup_code_eq_ok]
  refine ⟨fun ⟨_, table, known, found⟩ => ⟨rfl, table, known, ?_⟩,
    fun ⟨_, table, known, found⟩ => ⟨rfl, table, known, ?_⟩⟩
  · exact ((sound.table? known).paired name code).mp found
  · exact ((sound.table? known).paired name code).mpr found

/-! ## Versions -/

/-- The versions of a name are those that have a definition. -/
theorem mem_versions : version ∈ store.versions name ↔
    ∃ definition, store.definition? name version = some definition := by
  rw [versions, List.mem_map, definition?, ← Option.isSome_iff_exists, List.find?_isSome]
  constructor
  · rintro ⟨definition, member, rfl⟩
    obtain ⟨present, named⟩ := List.mem_filter.mp member
    exact ⟨definition, present, by rw [named, beq_self_eq_true]; rfl⟩
  · rintro ⟨definition, present, same⟩
    obtain ⟨named, numbered⟩ := Bool.and_eq_true_iff.mp same
    exact ⟨definition, List.mem_filter.mpr ⟨present, named⟩, eq_of_beq numbered⟩

/-- The versions of a name stand in ascending order. -/
theorem sorted_versions (sound : Sound store) (name : String) :
    (store.versions name).Pairwise (· < ·) := by
  refine List.pairwise_map.mpr ((sound.sorted.filter _).imp_of_mem ?_)
  rintro definition other first second (less | ⟨_, less⟩)
  · rw [eq_of_beq (List.mem_filter.mp first).2, eq_of_beq (List.mem_filter.mp second).2] at less
    exact absurd less (String.lt_irrefl name)
  · exact less

/-- The latest version is the greatest one that there is. -/
theorem latest?_greatest (sound : Sound store) (newest : store.latest? name = some version) :
    version ∈ store.versions name ∧ ∀ other ∈ store.versions name, other ≤ version := by
  obtain ⟨front, ends⟩ := List.getLast?_eq_some_iff.mp newest
  have ascending := sorted_versions sound name
  rw [ends] at ascending ⊢
  refine ⟨List.mem_append_right _ List.mem_cons_self, ?_⟩
  rw [List.forall_mem_append, List.forall_mem_singleton]
  exact ⟨fun other member => UInt32.le_of_lt
    ((List.pairwise_append.mp ascending).2.2 other member version List.mem_cons_self),
    UInt32.le_refl version⟩

/-- The greatest version is the latest. -/
theorem latest?_of_greatest (sound : Sound store) (member : version ∈ store.versions name)
    (greatest : ∀ other ∈ store.versions name, other ≤ version) :
    store.latest? name = some version := by
  cases newest : store.latest? name with
  | none =>
      rw [latest?, List.getLast?_eq_none_iff] at newest
      rw [newest] at member
      cases member
  | some latest =>
      obtain ⟨present, above⟩ := latest?_greatest sound newest
      rw [UInt32.le_antisymm (greatest latest present) (above version member)]

/-- A request for the latest version comes to what a request for the greatest one comes to. -/
theorem resolve_latest (sound : Sound store)
    (known : store.lookup protocol key = .ok (name, code)) (member : version ∈ store.versions name)
    (greatest : ∀ other ∈ store.versions name, other ≤ version) :
    ∃ resolved, store.resolve protocol key .latest = .ok resolved ∧
      store.resolve protocol key (.exact version) = .ok resolved ∧ resolved.version = version := by
  obtain ⟨definition, present⟩ := mem_versions.mp member
  have newest := latest?_of_greatest sound member greatest
  refine ⟨⟨name, code, version, version, definition.layout,
    store.manifest.deprecation name version⟩, ?_, ?_, rfl⟩
  · simp only [resolve, known, newest, present, bind, Except.bind]
    rfl
  · simp only [resolve, known, newest, present, bind, Except.bind]
    rfl

/-- A message without versions does not resolve, whatever is requested. -/
theorem resolve_nothing (known : store.lookup protocol key = .ok (name, code))
    (none : store.versions name = []) :
    store.resolve protocol key request = .error (.noDefinition name request) := by
  have nothing : store.latest? name = .none := by
    rw [latest?, none]
    rfl
  simp only [resolve, known, nothing, bind, Except.bind]
  rfl

/-- What holds of a store when it does not matter how a message is asked for. -/
structure Coherent (store : Store) (protocol : UInt32) : Prop where
  byName : ∀ {name request resolved},
    store.resolve protocol (.name name) request = .ok resolved →
      resolved.name = name ∧ store.resolve protocol (.code resolved.code) request = .ok resolved
  byCode : ∀ {code request resolved},
    store.resolve protocol (.code code) request = .ok resolved →
      resolved.code = code ∧ store.resolve protocol (.name resolved.name) request = .ok resolved
  latest : ∀ {key name code version}, store.lookup protocol key = .ok (name, code) →
    version ∈ store.versions name → (∀ other ∈ store.versions name, other ≤ version) →
      ∃ resolved, store.resolve protocol key .latest = .ok resolved ∧
        store.resolve protocol key (.exact version) = .ok resolved ∧ resolved.version = version
  nothing : ∀ {key name code request}, store.lookup protocol key = .ok (name, code) →
    store.versions name = [] →
      store.resolve protocol key request = .error (.noDefinition name request)
  unknown : ∀ {key error request}, store.lookup protocol key = .error error →
    store.resolve protocol key request = .error error
  version : ∀ {key request resolved}, store.resolve protocol key request = .ok resolved →
    resolved.version ∈ store.versions resolved.name

/-- **In a sound store names, codes and versions cohere.** -/
theorem coherent_of_sound (sound : Sound store) (protocol : UInt32) :
    Coherent store protocol where
  byName found := by
    have known := (resolve_eq_ok found).1
    obtain ⟨named, _⟩ := lookup_name_eq_ok.mp known
    refine ⟨named, ?_⟩
    rw [← named] at known found
    rwa [← resolve_congr (known.trans ((lookup_alike sound).mp known).symm)]
  byCode found := by
    have known := (resolve_eq_ok found).1
    obtain ⟨coded, _⟩ := lookup_code_eq_ok.mp known
    refine ⟨coded, ?_⟩
    rw [← coded] at known found
    rwa [resolve_congr (((lookup_alike sound).mpr known).trans known.symm)]
  latest := resolve_latest sound
  nothing := resolve_nothing
  unknown := resolve_eq_error
  version found := by
    obtain ⟨_, _, definition, present, _⟩ := resolve_eq_ok found
    exact mem_versions.mpr ⟨definition, present⟩

/-- **Tables are paired, and names and codes resolve alike**, whatever was done to a table or a
store. -/
theorem resolve_alike {table : OpcodeTable} (made : table.Made) {store : Store}
    (stored : store.Made) (protocol : UInt32) :
    (∀ name code, table.code? name = some code ↔ table.name? code = some name) ∧
      Coherent store protocol :=
  ⟨made.sound.paired, coherent_of_sound stored.sound protocol⟩

/-- A table in which a name took the code of another and left its own. -/
def crossedTable : OpcodeTable :=
  let old := (OpcodeTable.parse "C_ASK 10\nS_TELL = 11\nC_ASK 11 # moved\n" "old").1
  (old.insert "S_TELL" 12).insert "S_LATE" 10

/-- A store with the crossed table and two versions of a message. -/
def crossedStore : Store :=
  let tabled := (Store.empty .pc).setTable 7 crossedTable
  (tabled.addGeneral "C_ASK" 3 ⟨[]⟩).addGeneral "C_ASK" 1 ⟨[]⟩

theorem resolve_alike_crossed :
    (∀ name code, crossedTable.code? name = some code ↔ crossedTable.name? code = some name) ∧
      crossedStore.resolve 7 (.code 11) .latest = .ok ⟨"C_ASK", 11, 3, 3, ⟨[]⟩, .never⟩ ∧
      crossedStore.resolve 7 (.name "C_ASK") .latest = .ok ⟨"C_ASK", 11, 3, 3, ⟨[]⟩, .never⟩ := by
  have made : crossedTable.Made := .insert (.insert (.parse _ _) _ _) _ _
  have tabled := Made.setTable (.empty .pc) 7 made
  have stored : crossedStore.Made := .addGeneral (.addGeneral tabled _ _ _) _ _ _
  obtain ⟨paired, coherent⟩ := resolve_alike made stored 7
  have found : crossedStore.resolve 7 (.code 11) .latest =
      .ok ⟨"C_ASK", 11, 3, 3, ⟨[]⟩, .never⟩ := rfl
  exact ⟨paired, found, (coherent.byCode found).2⟩

end Relay.Store
