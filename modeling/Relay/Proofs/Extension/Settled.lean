import Mathlib.Data.List.Nodup
import Mathlib.Logic.Function.Iterate
import Mathlib.Logic.Relation
import Relay.Extension.Constraints
import Relay.Proofs.Text.Case

/-! # Extensions that can be loaded together

Extensions are left out one at a time, each for a rule that it breaks among those that are still
there (`Relay.Constraints.Expels`). What is left when no rule is broken any more has all that it
depends on and no conflict (`Relay.Constraints.pass_eq_self_iff`); without conflicts it is the
greatest selection that has all that it depends on, in whatever order the extensions came
(`Relay.Constraints.settles_resolve`). -/

namespace Relay.Constraints

variable {infos others : List ExtensionInfo} {info : ExtensionInfo} {name : String}
  {before after selection : Selection}

/-! ## What the rules ask for -/

/-- Whether there is an extension of a name. Extensions are told by their names, which are in small
letters; others may write them as they like. -/
def Present (infos : List ExtensionInfo) (name : String) : Prop :=
  ∃ info ∈ infos, info.name = Text.toSmall name

/-- Whether all that extensions depend on is there. -/
def Supplied (infos : List ExtensionInfo) : Prop :=
  ∀ info ∈ infos, ∀ name ∈ info.dependencies, Present infos name

/-- Whether no extension is there that another one conflicts with. -/
def Peaceful (infos : List ExtensionInfo) : Prop :=
  ∀ info ∈ infos, ∀ name ∈ info.conflicts, Present infos name → Text.toSmall name = info.name

theorem Present.mono (present : Present infos name) (within : infos ⊆ others) :
    Present others name :=
  present.imp fun _ => And.imp_left (within ·)

/-- Where nothing conflicts, nothing does among fewer extensions. -/
theorem Peaceful.mono (peaceful : Peaceful others) (within : infos ⊆ others) : Peaceful infos :=
  fun info member name conflicts present =>
    peaceful info (within member) name conflicts (present.mono within)

theorem isInstalled_iff : isInstalled infos name = true ↔ Present infos name := by
  simp [isInstalled, Present]

theorem missingDependency?_eq_none : missingDependency? infos info = none ↔
    ∀ name ∈ info.dependencies, Present infos name := by
  simp [missingDependency?, isInstalled_iff]

/-- A dependency that is missing is one of those that are declared and not there. -/
theorem of_missingDependency? (missing : missingDependency? infos info = some name) :
    name ∈ info.dependencies ∧ ¬ Present infos name := by
  refine ⟨List.mem_of_find?_eq_some missing, ?_⟩
  rw [← isInstalled_iff, Bool.not_eq_true]
  simpa using List.find?_some missing

/-- There is no conflict if no other extension is there that one is declared with. -/
theorem presentConflict?_eq_none : presentConflict? infos info = none ↔
    ∀ name ∈ info.conflicts, Present infos name → Text.toSmall name = info.name := by
  simp only [presentConflict?, List.find?_eq_none, Bool.and_eq_true, isInstalled_iff]
  grind

/-- A conflict is with another extension that is declared and there. -/
theorem of_presentConflict? (conflict : presentConflict? infos info = some name) :
    name ∈ info.conflicts ∧ Text.toSmall name ≠ info.name ∧ Present infos name := by
  refine ⟨List.mem_of_find?_eq_some conflict, ?_⟩
  simpa [isInstalled_iff] using List.find?_some conflict

/-! ## One extension left out -/

/-- One extension is left out, because it breaks a rule among those that are there. -/
inductive Expels : Selection → Selection → Prop
  | dependency {front back : List ExtensionInfo} {info : ExtensionInfo} {name : String}
      (removed : List HostError) (remarks : Journal)
      (missing : missingDependency? (front ++ info :: back) info = some name) :
      Expels ⟨front ++ info :: back, removed, remarks⟩
        ⟨front ++ back, removed ++ [.dependencyMissing info.name name],
          remarks.push (dependencyRemark info name)⟩
  | conflict {front back : List ExtensionInfo} {info : ExtensionInfo} {name : String}
      (removed : List HostError) (remarks : Journal)
      (present : presentConflict? (front ++ info :: back) info = some name) :
      Expels ⟨front ++ info :: back, removed, remarks⟩
        ⟨front ++ back, removed ++ [.conflict info.name name],
          remarks.push (conflictRemark info name)⟩

/-- Extensions are left out one after the other. -/
abbrev Steps : Selection → Selection → Prop :=
  Relation.ReflTransGen Expels

/-- Those that are left stand in the order in which they stood. -/
theorem Expels.sublist (step : Expels before after) : after.infos.Sublist before.infos := by
  cases step with
  | dependency => exact (List.sublist_cons_self _ _).append_left _
  | conflict => exact (List.sublist_cons_self _ _).append_left _

theorem Expels.length (step : Expels before after) :
    after.infos.length < before.infos.length := by
  cases step <;> simp

/-- Whatever is left out, the others stand in the order in which they stood. -/
theorem sublist_of_steps (steps : Steps before after) : after.infos.Sublist before.infos := by
  induction steps with
  | refl => exact List.Sublist.refl _
  | tail _ step ih => exact step.sublist.trans ih

/-- What loses nothing stays as it is. -/
theorem eq_of_steps (steps : Steps before after)
    (whole : before.infos.length ≤ after.infos.length) : after = before := by
  rcases Relation.ReflTransGen.cases_head_iff.mp steps with rfl | ⟨next, step, rest⟩
  · rfl
  · have shorter := step.length
    have fewer := (sublist_of_steps rest).length_le
    omega

/-! ## Passes -/

/-- Whether a rule leaves out extensions for what they break. -/
def Justified (rule : List ExtensionInfo → ExtensionInfo → Option (HostError × Entry)) : Prop :=
  ∀ (front back : List ExtensionInfo) (info : ExtensionInfo) (error : HostError) (remark : Entry)
    (removed : List HostError) (remarks : Journal),
    rule (front ++ info :: back) info = some (error, remark) →
      Expels ⟨front ++ info :: back, removed, remarks⟩
        ⟨front ++ back, removed ++ [error], remarks.push remark⟩

/-- What lacks a dependency may be left out. -/
theorem justified_dependencyRule : Justified dependencyRule := by
  intro front back info error remark removed remarks broken
  obtain ⟨name, missing, same⟩ := Option.map_eq_some_iff.mp broken
  cases same
  exact .dependency removed remarks missing

/-- What conflicts with another may be left out. -/
theorem justified_conflictRule : Justified conflictRule := by
  intro front back info error remark removed remarks broken
  obtain ⟨name, present, same⟩ := Option.map_eq_some_iff.mp broken
  cases same
  exact .conflict removed remarks present

section Sweep

variable {rule : List ExtensionInfo → ExtensionInfo → Option (HostError × Entry)}

/-- A sweep leaves out one extension after the other for what they break. -/
theorem steps_sweep (justified : Justified rule) (kept : List ExtensionInfo)
    (removed : List HostError) (remarks : Journal) (rest : List ExtensionInfo) :
    Steps ⟨kept ++ rest, removed, remarks⟩ (sweep rule kept removed remarks rest) := by
  induction rest generalizing kept removed remarks with
  | nil => rw [List.append_nil]; exact .refl
  | cons info rest ih =>
      rw [sweep]
      split
      next error remark broken =>
        exact .head (justified kept rest info error remark removed remarks broken) (ih ..)
      next =>
        have later := ih (kept ++ [info]) removed remarks
        rwa [List.append_assoc, List.singleton_append] at later

/-- A sweep over extensions that keep the rule changes nothing. -/
theorem sweep_of_kept {kept rest : List ExtensionInfo} {removed : List HostError}
    {remarks : Journal} (keeps : ∀ info ∈ rest, rule (kept ++ rest) info = none) :
    sweep rule kept removed remarks rest = ⟨kept ++ rest, removed, remarks⟩ := by
  induction rest generalizing kept with
  | nil => rw [List.append_nil]; rfl
  | cons info rest ih =>
      obtain ⟨first, others⟩ := List.forall_mem_cons.mp keeps
      have joined : kept ++ info :: rest = kept ++ [info] ++ rest := by simp
      rw [sweep, first, joined]
      exact ih (joined ▸ others)

/-- A sweep that leaves nothing out was over extensions that keep the rule. -/
theorem kept_of_sweep (justified : Justified rule) {kept rest : List ExtensionInfo}
    {removed : List HostError} {remarks : Journal}
    (whole : (kept ++ rest).length ≤ (sweep rule kept removed remarks rest).infos.length) :
    ∀ info ∈ rest, rule (kept ++ rest) info = none := by
  induction rest generalizing kept removed remarks with
  | nil => exact List.forall_mem_nil _
  | cons info rest ih =>
      rw [sweep] at whole
      split at whole
      next error remark _ =>
        have fewer := (sublist_of_steps (steps_sweep justified kept (removed ++ [error])
          (remarks.push remark) rest)).length_le
        simp only [List.length_append, List.length_cons] at whole fewer
        omega
      next keeps =>
        have joined : kept ++ info :: rest = kept ++ [info] ++ rest := by simp
        refine List.forall_mem_cons.mpr ⟨keeps, ?_⟩
        rw [joined] at whole ⊢
        exact ih whole

end Sweep

theorem steps_pass (selection : Selection) : Steps selection (pass selection) :=
  (steps_sweep justified_dependencyRule [] ..).trans (steps_sweep justified_conflictRule [] ..)

/-- All that extensions depend on is there if no rule leaves one out for it. -/
theorem supplied_iff : Supplied infos ↔ ∀ info ∈ infos, dependencyRule infos info = none := by
  simp only [Supplied, dependencyRule, Option.map_eq_none_iff, missingDependency?_eq_none]

/-- No extensions conflict if no rule leaves one out for it. -/
theorem peaceful_iff : Peaceful infos ↔ ∀ info ∈ infos, conflictRule infos info = none := by
  simp only [Peaceful, conflictRule, Option.map_eq_none_iff, presentConflict?_eq_none]

/-- **A pass changes nothing if and only if all rules are kept.** -/
theorem pass_eq_self_iff : pass selection = selection ↔
    Supplied selection.infos ∧ Peaceful selection.infos := by
  have steps : Steps selection (sweep dependencyRule [] selection.removed selection.remarks
      selection.infos) := steps_sweep justified_dependencyRule [] ..
  have steps' : Steps _ (pass selection) := steps_sweep justified_conflictRule [] ..
  rw [supplied_iff, peaceful_iff]
  constructor
  · intro same
    have fewer := (sublist_of_steps steps').length_le
    rw [same] at fewer
    have first := eq_of_steps steps fewer
    have second : sweep conflictRule [] selection.removed selection.remarks selection.infos =
        selection := by
      rwa [pass, first] at same
    have whole {later : Selection} (unchanged : later = selection) :
        ([] ++ selection.infos).length ≤ later.infos.length :=
      Nat.le_of_eq (congrArg (fun selection => selection.infos.length) unchanged.symm)
    exact ⟨kept_of_sweep justified_dependencyRule (whole first),
      kept_of_sweep justified_conflictRule (whole second)⟩
  · rintro ⟨supplied, peaceful⟩
    have first : sweep dependencyRule [] selection.removed selection.remarks selection.infos =
        selection := sweep_of_kept supplied
    rw [pass, first]
    exact sweep_of_kept peaceful

/-- Passes leave out one extension after the other for what they break. -/
theorem steps_passes (fuel : Nat) (selection : Selection) :
    Steps selection (passes fuel selection) := by
  induction fuel generalizing selection with
  | zero => exact .refl
  | succ fuel ih =>
      rw [passes]
      split
      next => exact (steps_pass selection).trans (ih _)
      next => exact steps_pass selection

/-- As many passes as there are extensions are enough. -/
theorem pass_passes {fuel : Nat} (enough : selection.infos.length ≤ fuel) :
    pass (passes fuel selection) = passes fuel selection := by
  induction fuel generalizing selection with
  | zero =>
      have none : selection.infos = [] := List.eq_nil_of_length_eq_zero (Nat.le_zero.mp enough)
      rw [passes, pass_eq_self_iff, none]
      exact ⟨List.forall_mem_nil _, List.forall_mem_nil _⟩
  | succ fuel ih =>
      rw [passes]
      split
      next fewer => exact ih (Nat.le_of_lt_succ (Nat.lt_of_lt_of_le fewer enough))
      next whole =>
        have same := eq_of_steps (steps_pass selection) (Nat.not_lt.mp whole)
        rw [same, same]

/-- The passes are one pass after another. -/
theorem passes_eq_iterate (fuel : Nat) (selection : Selection) :
    ∃ rounds ≤ fuel, passes fuel selection = pass^[rounds] selection := by
  induction fuel generalizing selection with
  | zero => exact ⟨0, Nat.le_refl 0, rfl⟩
  | succ fuel ih =>
      rw [passes]
      split
      next =>
        obtain ⟨rounds, few, same⟩ := ih (pass selection)
        exact ⟨rounds + 1, Nat.succ_le_succ few, same⟩
      next => exact ⟨1, Nat.succ_le_succ (Nat.zero_le fuel), rfl⟩

/-! ## What is left out -/

/-- Why an extension is left out: something that it depends on is not among those that are left, or
there was one that it conflicts with. -/
inductive Blames (infos left : List ExtensionInfo) (info : ExtensionInfo) : HostError → Prop
  | dependency {name : String} (needed : name ∈ info.dependencies)
      (missing : ¬ Present left name) : Blames infos left info (.dependencyMissing info.name name)
  | conflict {name : String} (declared : name ∈ info.conflicts)
      (apart : Text.toSmall name ≠ info.name) (present : Present infos name) :
      Blames infos left info (.conflict info.name name)

/-- The blame stays when there were more before and fewer are left. -/
theorem Blames.mono {start left earlier later : List ExtensionInfo} {error : HostError}
    (blames : Blames start left info error) (before : start ⊆ earlier) (after : later ⊆ left) :
    Blames earlier later info error := by
  cases blames with
  | dependency needed missing =>
      exact .dependency needed fun present => missing (present.mono after)
  | conflict declared apart present => exact .conflict declared apart (present.mono before)

/-- With every step one extension is left out, and blamed for it. -/
theorem Expels.blames (step : Expels before after) : ∃ front info back error,
    before.infos = front ++ info :: back ∧ after.infos = front ++ back ∧
      after.removed = before.removed ++ [error] ∧
      Blames before.infos after.infos info error := by
  have within := step.sublist.subset
  cases step with
  | @dependency front back info name _ _ missing =>
      obtain ⟨needed, missing⟩ := of_missingDependency? missing
      exact ⟨front, info, back, _, rfl, rfl, rfl,
        .dependency needed fun present => missing (present.mono within)⟩
  | @conflict front back info name _ _ present =>
      obtain ⟨declared, apart, present⟩ := of_presentConflict? present
      exact ⟨front, info, back, _, rfl, rfl, rfl, .conflict declared apart present⟩

/-- What is left out is all that is not left, and for each extension there is one error. -/
theorem exists_gone (steps : Steps before after) : ∃ gone errors,
    after.removed = before.removed ++ errors ∧ (after.infos ++ gone).Perm before.infos ∧
      List.Forall₂ (Blames before.infos after.infos) gone errors := by
  induction steps with
  | refl => exact ⟨[], [], (List.append_nil _).symm, by rw [List.append_nil], .nil⟩
  | tail steps step ih =>
      obtain ⟨gone, errors, removed, perm, blamed⟩ := ih
      obtain ⟨front, info, back, error, was, is, added, blames⟩ := step.blames
      refine ⟨gone ++ [info], errors ++ [error], ?_, ?_, ?_⟩
      · rw [added, removed, List.append_assoc]
      · refine .trans ?_ perm
        rw [was, is]
        simpa using (List.perm_append_singleton info (front ++ (back ++ gone))).trans
          List.perm_middle.symm
      · have earlier := (sublist_of_steps steps).subset
        exact List.rel_append
          (blamed.imp fun _ _ blames => blames.mono (List.Subset.refl _) step.sublist.subset)
          (.cons (blames.mono earlier (List.Subset.refl _)) .nil)

/-! ## What is left -/

/-- What has all that it depends on is not left out, as long as there is no conflict. -/
theorem Expels.filter (step : Expels before after) (peaceful : Peaceful before.infos)
    (within : others ⊆ before.infos) (supplied : Supplied others) :
    after.infos.filter (· ∈ others) = before.infos.filter (· ∈ others) := by
  cases step with
  | @dependency front back info name _ _ missing =>
      obtain ⟨needed, missing⟩ := of_missingDependency? missing
      have outside : info ∉ others := fun member =>
        missing ((supplied info member name needed).mono within)
      rw [List.filter_append, List.filter_append, List.filter_cons_of_neg (by simpa using outside)]
  | @conflict front back info name _ _ present =>
      obtain ⟨declared, apart, present⟩ := of_presentConflict? present
      have member : info ∈ front ++ info :: back := List.mem_append_right _ List.mem_cons_self
      exact absurd (peaceful info member name declared present) apart

/-- **Extensions that need no other are never left out**, as long as none of all conflict. -/
theorem filter_of_steps (steps : Steps before after) (peaceful : Peaceful before.infos)
    (within : others ⊆ before.infos) (supplied : Supplied others) :
    after.infos.filter (· ∈ others) = before.infos.filter (· ∈ others) := by
  induction steps with
  | refl => rfl
  | @tail middle _ steps step ih =>
      have still : others ⊆ middle.infos := fun info member => by
        have kept : info ∈ before.infos.filter (· ∈ others) :=
          List.mem_filter.mpr ⟨within member, decide_eq_true member⟩
        rw [← ih] at kept
        exact (List.mem_filter.mp kept).1
      rw [step.filter (peaceful.mono (sublist_of_steps steps).subset) still supplied, ih]

/-- What is settled is reached by leaving out one extension after the other. -/
theorem steps_resolve (infos : List ExtensionInfo) : Steps ⟨infos, [], #[]⟩ (resolve infos) :=
  steps_passes infos.length _

/-- Another pass changes nothing of what is settled. -/
theorem pass_resolve (infos : List ExtensionInfo) : pass (resolve infos) = resolve infos :=
  pass_passes (Nat.le_refl infos.length)

/-- Extensions that break no rule are all kept. -/
theorem resolve_of_kept (supplied : Supplied infos) (peaceful : Peaceful infos) :
    resolve infos = ⟨infos, [], #[]⟩ := by
  obtain ⟨rounds, _, same⟩ := passes_eq_iterate infos.length ⟨infos, [], #[]⟩
  rw [resolve, same]
  exact Function.iterate_fixed (pass_eq_self_iff.mpr ⟨supplied, peaceful⟩) rounds

/-- What is kept breaks no rule. -/
theorem kept_resolve (infos : List ExtensionInfo) :
    Supplied (resolve infos).infos ∧ Peaceful (resolve infos).infos :=
  pass_eq_self_iff.mp (pass_resolve infos)

/-- **The greatest selection.** Without conflicts all that has what it depends on is left. -/
theorem subset_resolve (peaceful : Peaceful infos) (within : others ⊆ infos)
    (supplied : Supplied others) : others ⊆ (resolve infos).infos := by
  intro info member
  have kept : info ∈ infos.filter (· ∈ others) :=
    List.mem_filter.mpr ⟨within member, decide_eq_true member⟩
  rw [← filter_of_steps (steps_resolve infos) peaceful within supplied] at kept
  exact (List.mem_filter.mp kept).1

/-- Without conflicts the same extensions are left of those that came in another order. -/
theorem resolve_of_perm (peaceful : Peaceful infos) (perm : others.Perm infos) :
    (resolve others).infos = others.filter (· ∈ (resolve infos).infos) := by
  have within : (resolve infos).infos ⊆ others :=
    fun info member => perm.mem_iff.mpr ((sublist_of_steps (steps_resolve infos)).subset member)
  have left : (resolve others).infos ⊆ (resolve infos).infos := by
    refine subset_resolve peaceful (fun info member => ?_) (kept_resolve others).1
    exact perm.subset ((sublist_of_steps (steps_resolve others)).subset member)
  rw [← filter_of_steps (steps_resolve others) (peaceful.mono perm.subset) within
    (kept_resolve infos).1]
  exact (List.filter_eq_self.mpr fun info member => decide_eq_true (left member)).symm

/-! ## Every list of extensions -/

/-- What is left of extensions, and what is said of the others. One pass after another is made, at
most as many as there are extensions, until one changes nothing (`rounds`). If the names are in
small letters it does not matter how others write them (`written`), and if no two are the same no
extension is left that another one conflicts with (`apart`). -/
structure Settles (infos : List ExtensionInfo) (selection : Selection) : Prop where
  rounds : ∃ rounds ≤ infos.length, selection = pass^[rounds] ⟨infos, [], #[]⟩ ∧
    pass selection = selection
  sublist : selection.infos.Sublist infos
  accounted : ∃ gone, (selection.infos ++ gone).Perm infos ∧
    List.Forall₂ (Blames infos selection.infos) gone selection.removed
  supplied : Supplied selection.infos
  peaceful : Peaceful selection.infos
  again : resolve selection.infos = ⟨selection.infos, [], #[]⟩
  written : (∀ info ∈ infos, Text.toSmall info.name = info.name) → ∀ name,
    Present selection.infos name ↔
      ∃ info ∈ selection.infos, Text.toSmall info.name = Text.toSmall name
  apart : (infos.map (·.name)).Nodup → ∀ info ∈ selection.infos, ∀ name ∈ info.conflicts,
    ∀ other ∈ selection.infos, other ≠ info → other.name ≠ Text.toSmall name

/-- **Constraints are settled.** Whatever the extensions are, what is kept of them and what is said
of the others is as it should be. -/
theorem settles (infos : List ExtensionInfo) : Settles infos (resolve infos) := by
  have sublist := sublist_of_steps (steps_resolve infos)
  obtain ⟨supplied, peaceful⟩ := kept_resolve infos
  obtain ⟨gone, errors, removed, perm, blamed⟩ := exists_gone (steps_resolve infos)
  obtain ⟨rounds, few, same⟩ := passes_eq_iterate infos.length ⟨infos, [], #[]⟩
  constructor
  case rounds => exact ⟨rounds, few, same, pass_resolve infos⟩
  case sublist => exact sublist
  case accounted => exact ⟨gone, perm, removed ▸ blamed⟩
  case supplied => exact supplied
  case peaceful => exact peaceful
  case again => exact resolve_of_kept supplied peaceful
  case written =>
    intro small name
    refine exists_congr fun info => and_congr_right fun member => ?_
    rw [small info (sublist.subset member)]
  case apart =>
    intro distinct info member name declared other member' differs named
    have own := peaceful info member name declared ⟨other, member', named⟩
    exact differs (List.inj_on_of_nodup_map (distinct.sublist (sublist.map _)) member' member
      (named.trans own))

/-- **Extensions are left out until all rules are kept.** What is left of any extensions has all
that it depends on and no conflict, and what keeps the rules is left as it is. If there is no
conflict to begin with, what is left is all that can have what it depends on, and the same of the
extensions in any other order. -/
theorem settles_resolve (infos : List ExtensionInfo) : Settles infos (resolve infos) ∧
    (Supplied infos → Peaceful infos → resolve infos = ⟨infos, [], #[]⟩) ∧
    (Peaceful infos →
      (∀ others, others ⊆ infos → Supplied others → others ⊆ (resolve infos).infos) ∧
      ∀ others, others.Perm infos →
        (resolve others).infos = others.filter (· ∈ (resolve infos).infos)) :=
  ⟨settles infos, resolve_of_kept, fun peaceful =>
    ⟨fun _ => subset_resolve peaceful, fun _ => resolve_of_perm peaceful⟩⟩

/-- An extension that depends on others. -/
def needing (name : String) (dependencies : List String) : ExtensionInfo :=
  { ExtensionInfo.ofName name with dependencies := dependencies }

/-- Two extensions that depend on each other. -/
def interlocked : List ExtensionInfo :=
  [needing "Ring" ["Knot"], needing "Knot" ["ring"]]

/-- A chain whose end is missing, and two that depend on each other. -/
def chainAndRing : List ExtensionInfo :=
  [needing "Chain" ["link"], needing "Ring" ["Knot"], needing "Link" ["gone"],
    needing "Knot" ["ring"]]

/-- Of a chain and a ring the ring is kept, in either order. -/
theorem settles_resolve_ring : Peaceful chainAndRing ∧
    (resolve chainAndRing).infos = interlocked ∧
    (resolve chainAndRing.reverse).infos = interlocked.reverse ∧
    resolve interlocked = ⟨interlocked, [], #[]⟩ := by
  have peaceful : Peaceful chainAndRing := by
    intro info member name declared
    have none : ∀ info ∈ chainAndRing, info.conflicts = [] := by
      simp [chainAndRing, needing, ExtensionInfo.ofName]
    rw [none info member] at declared
    exact absurd declared List.not_mem_nil
  have left : (resolve chainAndRing).infos = interlocked := by decide +kernel
  obtain ⟨settled, _, greatest⟩ := settles_resolve chainAndRing
  refine ⟨peaceful, left, ?_, ?_⟩
  · rw [(greatest peaceful).2 _ (List.reverse_perm _), left]
    decide +kernel
  · have supplied : Supplied interlocked := left ▸ settled.supplied
    have calm : Peaceful interlocked := left ▸ settled.peaceful
    exact (settles_resolve interlocked).2.1 supplied calm

end Relay.Constraints
