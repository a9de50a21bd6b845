import Relay.Extension.Discovery
import Relay.Proofs.Extension.Settled
import Relay.Proofs.Json.Gives
import Relay.Proofs.Layout.Names

/-! # The names of extensions that are found

Whatever lies below a directory, the extensions that are found there are told apart by their names,
which are in small letters (`Relay.Discovery.named_run`), and they are in the order of their
directories (`Relay.Discovery.sublist_run`). -/

namespace Relay

open Json

namespace ExtensionInfo

/-- Whether a name is written in small letters. -/
def IsSmall (info : ExtensionInfo) : Prop := Text.toSmall info.name = info.name

theorem isSmall_ofName (rawName : String) : (ofName rawName).IsSmall :=
  Text.toSmall_toSmall rawName

/-- A member that may be missing keeps what its value keeps, whatever it is. -/
theorem gives_maybe {α ρ : Type} {keeps : ρ → Prop} {name : String} {value : Reader α}
    {put : ρ → α → ρ} (kept : ∀ record, keeps record → ∀ given, keeps (put record given)) :
    ∀ record, keeps record → ((Member.maybe name value put).take record).Gives keeps :=
  fun record holds => .map (fun _ _ _ _ => trivial) fun given (_ : True) => kept record holds given

/-- Whatever an extension says of itself, its name is in small letters. -/
theorem gives_reader (directory : String) : (reader directory).Gives IsSmall := by
  refine .record ?_ _ (isSmall_ofName directory)
  simp only [List.forall_mem_cons]
  refine ⟨gives_maybe fun _ _ _ => Text.toSmall_toSmall _, gives_maybe fun _ small _ => small,
    gives_maybe fun _ small _ => small, gives_maybe fun _ small _ => small,
    gives_maybe fun _ small _ => small, gives_maybe fun _ small _ => small,
    gives_maybe fun _ small _ => small, gives_maybe fun _ small _ => small,
    gives_maybe fun _ small _ => small, gives_maybe fun _ small _ => small,
    gives_maybe fun _ small _ => small, List.forall_mem_nil _⟩

/-- The definitions that an extension uses do not change its name. -/
theorem isSmall_of_usage {tree : Files.Tree} {path used : String} {known info : ExtensionInfo}
    (small : known.IsSmall)
    (found : (optionalText tree used >>= fun text => match text with
      | none => pure { known with path := path }
      | some source =>
        match parseUsage source with
        | .ok usage => pure { known with path := path, usage := usage }
        | .error cause => throw (.invalid used cause)) = .ok info) : info.IsSmall := by
  obtain ⟨text, _, found⟩ := Layout.except_bind_eq_ok.mp found
  split at found
  next =>
    cases found
    exact small
  next =>
    split at found
    next =>
      cases found
      exact small
    next => cases found

/-- An extension that is read from its directory has a name in small letters. -/
theorem isSmall_load {tree : Files.Tree} {root directory : String} {info : ExtensionInfo}
    (found : load tree root directory = .ok info) : info.IsSmall := by
  unfold load at found
  obtain ⟨text, _, found⟩ := Layout.except_bind_eq_ok.mp found
  dsimp only at found
  split at found
  next =>
    obtain ⟨known, same, found⟩ := Layout.except_bind_eq_ok.mp found
    cases same
    exact isSmall_of_usage (isSmall_ofName directory) found
  next source =>
    split at found
    next said parsed =>
      obtain ⟨known, same, found⟩ := Layout.except_bind_eq_ok.mp found
      cases same
      exact isSmall_of_usage ((gives_reader directory).run parsed) found
    next => cases found

/-- Directories are looked at by ascending names. -/
theorem ascending_directories {tree : Files.Tree} {root : String} {names : List String}
    (listed : directories tree root = .ok names) : names.Pairwise (· ≤ ·) := by
  unfold directories at listed
  split at listed
  next => cases listed
  next entries found =>
    cases listed
    unfold Files.Tree.list at found
    obtain ⟨node, _, found⟩ := Layout.except_bind_eq_ok.mp found
    split at found
    next => cases found
    next unordered _ =>
      cases found
      have transitive (first second third : String × Files.Node)
          (below : decide (first.1 ≤ second.1) = true)
          (above : decide (second.1 ≤ third.1) = true) : decide (first.1 ≤ third.1) = true :=
        decide_eq_true (String.le_trans (of_decide_eq_true below) (of_decide_eq_true above))
      have total (first second : String × Files.Node) :
          (decide (first.1 ≤ second.1) || decide (second.1 ≤ first.1)) = true := by
        simpa using String.le_total first.1 second.1
      have ascending := List.pairwise_mergeSort transitive total unordered
      exact List.pairwise_map.mpr ((ascending.sublist List.filter_sublist).imp of_decide_eq_true)

end ExtensionInfo

namespace Discovery

/-- Extensions that are told apart by their names, which are in small letters. -/
structure Named (infos : List ExtensionInfo) : Prop where
  distinct : (infos.map (·.name)).Nodup
  small : ∀ info ∈ infos, info.IsSmall

/-- Of extensions with names of their own each part has names of its own. -/
theorem Named.sublist {infos others : List ExtensionInfo} (named : Named others)
    (within : infos.Sublist others) : Named infos :=
  ⟨named.distinct.sublist (within.map _),
    fun info member => named.small info (within.subset member)⟩

/-- Of a directory that is looked at nothing is kept but an extension with a name of its own. -/
theorem found_look (tree : Files.Tree) (root : String) (store : Option Store)
    (supportUrl : Option String) (draft : Draft) (directory : String) :
    (look tree root store supportUrl draft directory).found = draft.found ∨
      ∃ info, ExtensionInfo.load tree root directory = .ok info ∧
        (∀ other ∈ draft.found, other.name ≠ info.name) ∧
        (look tree root store supportUrl draft directory).found = draft.found ++ [info] := by
  unfold look
  cases ExtensionInfo.load tree root directory with
  | error error => exact .inl rfl
  | ok info =>
      dsimp only
      by_cases disabled : info.disabled = true
      · rw [if_pos disabled]
        exact .inl rfl
      rw [if_neg disabled]
      by_cases known : (draft.found.any fun other => other.name == info.name) = true
      · rw [if_pos known]
        exact .inl rfl
      rw [if_neg known]
      by_cases lacking : (!(store.elim [] (·.missing info.usage)).isEmpty) = true
      · rw [if_pos lacking]
        exact .inl rfl
      rw [if_neg lacking]
      exact .inr ⟨info, rfl, by simpa using known, rfl⟩

/-- Looking at one more directory keeps the names apart. -/
theorem named_look {draft : Draft} (named : Named draft.found) (tree : Files.Tree) (root : String)
    (store : Option Store) (supportUrl : Option String) (directory : String) :
    Named (look tree root store supportUrl draft directory).found := by
  obtain same | ⟨info, loaded, apart, more⟩ := found_look tree root store supportUrl draft directory
  · rw [same]
    exact named
  rw [more]
  refine ⟨?_, List.forall_mem_append.mpr ⟨named.small, ?_⟩⟩
  · rw [List.map_append, List.nodup_append]
    refine ⟨named.distinct, List.nodup_singleton _, ?_⟩
    intro name member other same
    obtain ⟨known, listed, rfl⟩ := List.mem_map.mp member
    rw [List.map_singleton, List.mem_singleton] at same
    rw [same]
    exact apart known listed
  · exact List.forall_mem_singleton.mpr (ExtensionInfo.isSmall_load loaded)

/-- Whatever directories are looked at, what is found has names of its own in small letters. -/
theorem named_foldl_look (tree : Files.Tree) (root : String) (store : Option Store)
    (supportUrl : Option String) (directories : List String) (draft : Draft)
    (named : Named draft.found) :
    Named (directories.foldl (look tree root store supportUrl) draft).found := by
  induction directories generalizing draft with
  | nil => exact named
  | cons directory rest ih => exact ih _ (named_look named tree root store supportUrl directory)

/-- What the directories say of themselves, in order, but for those that cannot be read. -/
def described (tree : Files.Tree) (root : String) (directories : List String) :
    List ExtensionInfo :=
  directories.filterMap fun directory => (ExtensionInfo.load tree root directory).toOption

/-- What is found stands in the order of the directories. -/
theorem sublist_foldl_look (tree : Files.Tree) (root : String) (store : Option Store)
    (supportUrl : Option String) (directories : List String) (draft : Draft) :
    (directories.foldl (look tree root store supportUrl) draft).found.Sublist
      (draft.found ++ described tree root directories) := by
  induction directories generalizing draft with
  | nil => exact List.sublist_append_left _ _
  | cons directory rest ih =>
      refine (ih _).trans ?_
      obtain same | ⟨info, loaded, _, more⟩ :=
        found_look tree root store supportUrl draft directory
      · rw [same]
        exact List.Sublist.append_left (((List.sublist_cons_self _ _).filterMap _)) _
      · have first : described tree root (directory :: rest) = info :: described tree root rest :=
          List.filterMap_cons_some (by rw [loaded]; rfl)
        rw [more, first, List.append_assoc]
        exact List.Sublist.refl _

/-- **The extensions that are found** have names in small letters, of which none is another's. -/
theorem named_run {tree : Files.Tree} {root : String} {store : Option Store}
    {supportUrl : Option String} {discovery : Discovery} {remarks : Journal}
    (found : run tree root store supportUrl = .ok (discovery, remarks)) :
    Named discovery.installed := by
  rw [run] at found
  cases listed : ExtensionInfo.directories tree root with
  | error error =>
      rw [listed] at found
      cases found
  | ok directories =>
      rw [listed] at found
      have looked := named_foldl_look tree root store supportUrl directories ⟨[], [], #[]⟩
        ⟨List.nodup_nil, List.forall_mem_nil _⟩
      cases found
      exact looked.sublist (List.filter_sublist.trans
        (Constraints.sublist_of_steps (Constraints.steps_resolve _)))

/-- **The extensions that are found** are in the order of their directories, which ascend. -/
theorem sublist_run {tree : Files.Tree} {root : String} {store : Option Store}
    {supportUrl : Option String} {discovery : Discovery} {remarks : Journal}
    (found : run tree root store supportUrl = .ok (discovery, remarks)) :
    ∃ directories, ExtensionInfo.directories tree root = .ok directories ∧
      directories.Pairwise (· ≤ ·) ∧
      discovery.installed.Sublist (described tree root directories) := by
  rw [run] at found
  cases listed : ExtensionInfo.directories tree root with
  | error error =>
      rw [listed] at found
      cases found
  | ok directories =>
      rw [listed] at found
      have looked := sublist_foldl_look tree root store supportUrl directories ⟨[], [], #[]⟩
      cases found
      exact ⟨directories, rfl, ExtensionInfo.ascending_directories listed,
        (List.filter_sublist.trans
          (Constraints.sublist_of_steps (Constraints.steps_resolve _))).trans looked⟩

end Discovery

end Relay
