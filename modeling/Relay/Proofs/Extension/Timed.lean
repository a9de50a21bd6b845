import Mathlib.Data.List.Nodup
import Mathlib.Tactic.Tauto
import Relay.Proofs.Extension.Traced

/-! # What extensions do with their timers

A routine sets timers, clears one of them and clears them all (`Relay.Timers.Mark`). From the marks
it leaves it is known which timers there are when it ends, and nothing that has ended comes back
(`Relay.Routine.change_marks`). When a timer fires, the same is known of the timers afterwards, of
which the timer itself is gone or was set again (`Relay.Timers.fired_of_take`). -/

namespace Relay

variable {σ : Type}

/-- What a timer is when it is set again at `now`, if it repeats. -/
def Timer.Again (now : Nat) (timer other : Timer σ) : Prop :=
  ∃ period, timer.period = some period ∧ other = { timer with due := now + period }

namespace Timers

variable {timers before middle after : Timers σ} {timer : Timer σ} {id : Nat}

/-! ## The timers -/

/-- What holds of the timers of an extension: their numbers were given, to none of them twice, and
the one that runs is not among those that wait. -/
structure Sound (timers : Timers σ) : Prop where
  distinct : timers.ids.Nodup
  issued : ∀ id ∈ timers.ids, id ≤ timers.issued
  running : ∀ id cleared, timers.running = some (id, cleared) →
    id ≤ timers.issued ∧ id ∉ timers.ids

/-- What holds of the timers of an extension while none of them runs. -/
structure Settled (timers : Timers σ) : Prop extends timers.Sound where
  idle : timers.running = none

/-- A timer that was set and does neither wait nor run, or that runs for the last time. -/
structure Past (timers : Timers σ) (id : Nat) : Prop where
  issued : id ≤ timers.issued
  waits : id ∉ timers.ids
  runs : timers.running ≠ some (id, false)

/-- The timers that wait, and the one that runs. -/
def existing (timers : Timers σ) : List Nat :=
  timers.ids ++ (timers.running.map Prod.fst).toList

theorem settled_empty : (empty : Timers σ).Settled :=
  ⟨⟨List.nodup_nil, List.forall_mem_nil _, fun _ _ runs => by cases runs⟩, rfl⟩

theorem mem_ids : id ∈ timers.ids ↔ ∃ timer ∈ timers.entries, timer.id = id :=
  List.mem_map

/-- The timers gain the one that is put among them and lose none. -/
theorem put_perm (timer : Timer σ) (entries : List (Timer σ)) :
    (put timer entries).Perm (timer :: entries) := by
  induction entries with
  | nil => exact .refl _
  | cons other rest ih =>
      rw [put]
      split
      next => exact (ih.cons other).trans (.swap timer other rest)
      next => exact .refl _

theorem mem_put {other : Timer σ} {entries : List (Timer σ)} :
    other ∈ put timer entries ↔ other = timer ∨ other ∈ entries :=
  (put_perm timer entries).mem_iff.trans List.mem_cons

theorem mem_ids_put {entries : List (Timer σ)} :
    id ∈ (put timer entries).map (·.id) ↔ id = timer.id ∨ id ∈ entries.map (·.id) :=
  ((put_perm timer entries).map _).mem_iff.trans List.mem_cons

theorem nodup_put {entries : List (Timer σ)} (distinct : (entries.map (·.id)).Nodup)
    (absent : timer.id ∉ entries.map (·.id)) : ((put timer entries).map (·.id)).Nodup :=
  ((put_perm timer entries).map _).nodup_iff.mpr (List.nodup_cons.mpr ⟨absent, distinct⟩)

theorem Sound.eq_of_id (sound : timers.Sound) {other : Timer σ} (member : timer ∈ timers.entries)
    (found : other ∈ timers.entries) (same : timer.id = other.id) : timer = other :=
  List.inj_on_of_nodup_map sound.distinct member found same

/-! ## Marks -/

/-- What a routine does with the timers of its extension. To clear a timer tells whether there was
something to clear; to clear all is marked with those that exist. -/
inductive Mark (σ : Type) where
  | set (timer : Timer σ)
  | clear (id : Nat) (cleared : Bool)
  | clearAll (ids : List Nat)

/-- Whether a timer is cleared. -/
def Mark.ends (id : Nat) : Mark σ → Bool
  | .set _ => false
  | .clear other cleared => other == id && cleared
  | .clearAll ids => ids.contains id

/-- Whether a timer is cleared by one of some marks. -/
def ended (marks : List (Mark σ)) (id : Nat) : Bool :=
  marks.any (·.ends id)

/-- How timers change along some marks. -/
structure Change (before : Timers σ) (marks : List (Mark σ)) (after : Timers σ) : Prop where
  sound : after.Sound
  issued : before.issued ≤ after.issued
  mem : ∀ timer, timer ∈ after.entries ↔
    (timer ∈ before.entries ∨ .set timer ∈ marks) ∧ ended marks timer.id = false
  fresh : ∀ timer, .set timer ∈ marks → before.issued < timer.id ∧ timer.id ≤ after.issued
  running : after.running =
    before.running.map fun (id, cleared) => (id, cleared || ended marks id)
  past : ∀ id, before.Past id → after.Past id ∧ .clear id true ∉ marks
  ended : ∀ mark ∈ marks, ∀ id, mark.ends id = true → after.Past id
  heeded : marks.Pairwise fun mark later => ∀ id, mark.ends id = true → later ≠ .clear id true

/-- Without marks nothing changes. -/
theorem Change.refl (sound : timers.Sound) : Change timers [] timers where
  sound := sound
  issued := Nat.le_refl _
  mem timer := by simp [Timers.ended]
  fresh := by simp
  running := by simp [Timers.ended]
  past id past := ⟨past, List.not_mem_nil⟩
  ended := List.forall_mem_nil _
  heeded := .nil

theorem ended_append (marks more : List (Mark σ)) (id : Nat) :
    ended (marks ++ more) id = (ended marks id || ended more id) :=
  List.any_append

/-- **Changes one after the other are a change along both their marks.** What the first ones clear
the others do not bring back. -/
theorem Change.trans {marks more : List (Mark σ)} (first : Change before marks middle)
    (second : Change middle more after) : Change before (marks ++ more) after where
  sound := second.sound
  issued := Nat.le_trans first.issued second.issued
  mem timer := by
    -- what is set later was not there yet when something was cleared before
    have late : .set timer ∈ more → Timers.ended marks timer.id = false := by
      intro set
      rw [Timers.ended, List.any_eq_false]
      intro mark member ends
      have known := (first.ended mark member timer.id ends).issued
      have new := (second.fresh timer set).1
      omega
    rw [second.mem, first.mem, List.mem_append, ended_append, Bool.or_eq_false_iff]
    tauto
  fresh timer set := by
    rcases List.mem_append.mp set with early | late
    · have new := first.fresh timer early
      exact ⟨new.1, Nat.le_trans new.2 second.issued⟩
    · have new := second.fresh timer late
      exact ⟨Nat.lt_of_le_of_lt first.issued new.1, new.2⟩
  running := by
    rw [second.running, first.running, Option.map_map]
    refine congrArg (Option.map · _) (funext fun (id, cleared) => ?_)
    simp only [Function.comp_apply, ended_append, Bool.or_assoc]
  past id past := by
    have early := first.past id past
    have late := second.past id early.1
    exact ⟨late.1, by simp [early.2, late.2]⟩
  ended := List.forall_mem_append.mpr
    ⟨fun mark member id ends => (second.past id (first.ended mark member id ends)).1, second.ended⟩
  heeded := by
    refine List.pairwise_append.mpr ⟨first.heeded, second.heeded, ?_⟩
    rintro mark member later follows id ends rfl
    exact (second.past id (first.ended mark member id ends)).2 follows

/-! ## One mark -/

/-- A timer that is set gets a new number, and the others stay as they are. -/
theorem change_insert (sound : timers.Sound) (due : Nat) (period : Option Nat)
    (callback : Routine σ) :
    Change timers [.set ⟨timers.issued + 1, due, period, callback⟩]
      (timers.insert due period callback).2 where
  sound := by
    have absent : timers.issued + 1 ∉ timers.ids :=
      fun member => Nat.not_succ_le_self _ (sound.issued _ member)
    refine ⟨nodup_put sound.distinct absent, fun id member => ?_, fun id cleared runs => ?_⟩
    · rcases mem_ids_put.mp member with rfl | old
      · exact Nat.le_refl _
      · exact Nat.le_succ_of_le (sound.issued id old)
    · have old := sound.running id cleared runs
      refine ⟨Nat.le_succ_of_le old.1, fun member => (mem_ids_put.mp member).elim ?_ old.2⟩
      exact fun same => absurd (same ▸ old.1) (Nat.not_succ_le_self _)
  issued := Nat.le_succ _
  mem timer := by
    simp [insert, mem_put, Timers.ended, Mark.ends, or_comm]
  fresh timer set := by
    rw [List.mem_singleton] at set
    cases set
    exact ⟨Nat.lt_succ_self _, Nat.le_refl _⟩
  running := by
    cases runs : timers.running <;> simp [insert, Timers.ended, Mark.ends, runs]
  past id past := by
    refine ⟨⟨Nat.le_succ_of_le past.issued, fun member => ?_, past.runs⟩, by simp⟩
    rcases mem_ids_put.mp member with rfl | old
    · exact Nat.not_succ_le_self _ past.issued
    · exact past.waits old
  ended := by simp [Mark.ends]
  heeded := List.pairwise_singleton _ _

/-- Without a timer all other numbers are left. -/
theorem mem_ids_filter {other : Nat} :
    other ∈ (timers.entries.filter (·.id != id)).map (·.id) ↔ other ∈ timers.ids ∧ other ≠ id := by
  rw [List.mem_map, mem_ids]
  constructor
  · rintro ⟨timer, kept, rfl⟩
    have kept := List.mem_filter.mp kept
    exact ⟨⟨timer, kept.1, rfl⟩, bne_iff_ne.mp kept.2⟩
  · rintro ⟨⟨timer, member, rfl⟩, differs⟩
    exact ⟨timer, List.mem_filter.mpr ⟨member, bne_iff_ne.mpr differs⟩, rfl⟩

/-- A timer that waits is cleared. -/
theorem change_clear_of_mem (sound : timers.Sound) (member : id ∈ timers.ids) :
    Change timers [.clear id true]
      { timers with entries := timers.entries.filter (·.id != id) } where
  sound := by
    refine ⟨sound.distinct.sublist (List.filter_sublist.map _), fun other kept => ?_,
      fun other cleared runs => ?_⟩
    · exact sound.issued other (mem_ids_filter.mp kept).1
    · have old := sound.running other cleared runs
      exact ⟨old.1, fun kept => old.2 (mem_ids_filter.mp kept).1⟩
  issued := Nat.le_refl _
  mem timer := by
    rw [List.mem_filter, bne_iff_ne, ne_comm]
    simp [Timers.ended, Mark.ends]
  fresh := by simp
  running := by
    rcases runs : timers.running with _ | ⟨other, cleared⟩
    · rfl
    · have differs : id ≠ other := fun same => (sound.running other cleared runs).2 (same ▸ member)
      simp [Timers.ended, Mark.ends, differs]
  past other past := by
    refine ⟨⟨past.issued, fun kept => past.waits (mem_ids_filter.mp kept).1, past.runs⟩, ?_⟩
    have differs : other ≠ id := fun same => past.waits (same ▸ member)
    simp [differs]
  ended := by
    simp only [List.forall_mem_singleton, Mark.ends, Bool.and_true, beq_iff_eq]
    rintro _ rfl
    exact ⟨sound.issued id member, fun kept => (mem_ids_filter.mp kept).2 rfl,
      fun runs => (sound.running id false runs).2 member⟩
  heeded := List.pairwise_singleton _ _

/-- A timer that runs is cleared, so that it is not set again. -/
theorem change_clear_of_running (sound : timers.Sound) (runs : timers.running = some (id, false)) :
    Change timers [.clear id true] { timers with running := some (id, true) } := by
  have old := sound.running id false runs
  exact {
    sound := ⟨sound.distinct, sound.issued, fun other cleared same => by
      cases same
      exact old⟩
    issued := Nat.le_refl _
    mem := fun timer => by
      have differs : timer ∈ timers.entries → id ≠ timer.id :=
        fun member same => old.2 (mem_ids.mpr ⟨timer, member, same.symm⟩)
      simpa [Timers.ended, Mark.ends] using differs
    fresh := by simp
    running := by simp [runs, Timers.ended, Mark.ends]
    past := fun other past => by
      have differs : other ≠ id := fun same => past.runs (same ▸ runs)
      exact ⟨⟨past.issued, past.waits, by simp⟩, by simp [differs]⟩
    ended := by
      simp only [List.forall_mem_singleton, Mark.ends, Bool.and_true, beq_iff_eq]
      rintro _ rfl
      exact ⟨old.1, old.2, by simp⟩
    heeded := List.pairwise_singleton _ _ }

/-- To clear what is not there changes nothing. -/
theorem change_clear_of_neither (sound : timers.Sound) (id : Nat) :
    Change timers [.clear id false] timers where
  sound := sound
  issued := Nat.le_refl _
  mem timer := by simp [Timers.ended, Mark.ends]
  fresh := by simp
  running := by simp [Timers.ended, Mark.ends]
  past other past := ⟨past, by simp⟩
  ended := by simp [Mark.ends]
  heeded := List.pairwise_singleton _ _

/-- To clear a timer is marked with whether there was one to clear. -/
theorem change_clear (sound : timers.Sound) (id : Nat) :
    Change timers [.clear id (timers.clear id).1] (timers.clear id).2 := by
  rw [clear]
  split
  next found =>
    simp only [List.any_eq_true, beq_iff_eq] at found
    exact change_clear_of_mem sound (mem_ids.mpr found)
  next =>
    split
    next runs => exact change_clear_of_running sound (by simpa using runs)
    next => exact change_clear_of_neither sound id

/-- To clear all is marked with all timers that wait and the one that runs. -/
theorem change_clearAll (sound : timers.Sound) :
    Change timers [.clearAll timers.existing] timers.clearAll.2 where
  sound := by
    refine ⟨List.nodup_nil, List.forall_mem_nil _, fun id cleared runs => ⟨?_, List.not_mem_nil⟩⟩
    obtain ⟨entry, old, same⟩ := Option.map_eq_some_iff.mp runs
    cases same
    exact (sound.running entry.1 entry.2 old).1
  issued := Nat.le_refl _
  mem timer := by
    have known : timer ∈ timers.entries → timer.id ∈ timers.existing :=
      fun member => List.mem_append_left _ (mem_ids.mpr ⟨timer, member, rfl⟩)
    simpa [clearAll, Timers.ended, Mark.ends] using known
  fresh := by simp
  running := by
    cases runs : timers.running with
    | none => simp [clearAll, runs]
    | some entry =>
        have known : entry.1 ∈ timers.existing := List.mem_append_right _ (by simp [runs])
        simp [clearAll, runs, Timers.ended, Mark.ends, known]
  past id past := by
    refine ⟨⟨past.issued, List.not_mem_nil, ?_⟩, by simp⟩
    cases runs : timers.running <;> simp [clearAll, runs]
  ended := by
    simp only [List.forall_mem_singleton, Mark.ends, List.contains_iff_mem]
    intro id member
    refine ⟨?_, List.not_mem_nil, ?_⟩
    · rcases List.mem_append.mp member with waits | runs
      · exact sound.issued id waits
      · obtain ⟨entry, old, rfl⟩ := Option.map_eq_some_iff.mp (Option.mem_toList.mp runs)
        exact (sound.running entry.1 entry.2 old).1
    · cases runs : timers.running <;> simp [clearAll, runs]
  heeded := List.pairwise_singleton _ _

/-! ## A timer that fires -/

/-- What holds when a timer has fired at `now` and its routine has left some marks. -/
structure Fired (now : Nat) (before : Timers σ) (timer : Timer σ) (marks : List (Mark σ))
    (after : Timers σ) : Prop where
  settled : after.Settled
  issued : before.issued ≤ after.issued
  waited : timer ∈ before.entries
  mem : ∀ other, other ∈ after.entries ↔
    (other ∈ before.entries ∧ other.id ≠ timer.id ∨ .set other ∈ marks ∨
      timer.Again now other) ∧ ended marks other.id = false
  fresh : ∀ other, .set other ∈ marks → before.issued < other.id ∧ other.id ≤ after.issued
  past : ∀ id, before.Past id → after.Past id ∧ id ≠ timer.id ∧ .clear id true ∉ marks
  ended : ∀ mark ∈ marks, ∀ id, mark.ends id = true → after.Past id

/-- What it says that a timer is taken out. -/
theorem take_eq_some {taken : Timers σ} (takes : before.take id = some (timer, taken)) :
    timer ∈ before.entries ∧ timer.id = id ∧
      taken = ⟨before.entries.filter (·.id != id), before.issued, some (id, false)⟩ := by
  rw [take, Option.map_eq_some_iff] at takes
  obtain ⟨found, finds, same⟩ := takes
  cases same
  exact ⟨List.mem_of_find?_eq_some finds, by simpa using List.find?_some finds, rfl⟩

/-- When a timer is taken out to run, the others are sound. -/
theorem sound_take {taken : Timers σ} (settled : before.Settled)
    (takes : before.take id = some (timer, taken)) : taken.Sound := by
  obtain ⟨member, rfl, rfl⟩ := take_eq_some takes
  refine ⟨settled.distinct.sublist (List.filter_sublist.map _), fun other kept => ?_,
    fun other cleared runs => ?_⟩
  · exact settled.issued other (mem_ids_filter.mp kept).1
  · cases runs
    exact ⟨settled.issued timer.id (mem_ids.mpr ⟨timer, member, rfl⟩),
      fun kept => (mem_ids_filter.mp kept).2 rfl⟩

/-- The timers that there are after one has run: it is set again if it repeats and was not
cleared. -/
theorem mem_finish {cleared : Bool} (runs : timers.running = some (timer.id, cleared)) (now : Nat)
    (other : Timer σ) :
    other ∈ (timers.finish timer now).entries ↔
      other ∈ timers.entries ∨ cleared = false ∧ timer.Again now other := by
  rw [finish, runs, Timer.Again]
  cases timer.period <;> cases cleared <;> simp [mem_put, or_comm]

/-- When a timer has run, none runs any more. -/
theorem settled_finish {cleared : Bool} (sound : timers.Sound)
    (runs : timers.running = some (timer.id, cleared)) (now : Nat) :
    (timers.finish timer now).Settled := by
  obtain ⟨issued, absent⟩ := sound.running timer.id cleared runs
  have settled (entries : List (Timer σ)) (distinct : (entries.map Timer.id).Nodup)
      (known : ∀ id ∈ entries.map Timer.id, id ≤ timers.issued) :
      Settled { timers with entries := entries, running := none } :=
    ⟨⟨distinct, known, fun _ _ runs => by cases runs⟩, rfl⟩
  rw [finish, runs]
  cases timer.period with
  | none => exact settled _ sound.distinct sound.issued
  | some period =>
      dsimp only
      split
      next => exact settled _ sound.distinct sound.issued
      next =>
        refine settled _ (nodup_put sound.distinct absent) fun id member => ?_
        rcases mem_ids_put.mp member with rfl | old
        · exact issued
        · exact sound.issued id old

/-- No number is given out when a timer has run. -/
theorem issued_finish (timers : Timers σ) (timer : Timer σ) (now : Nat) :
    (timers.finish timer now).issued = timers.issued := by
  rw [finish]
  dsimp only
  split
  next => split <;> rfl
  next => rfl

/-- **What has fired is gone or was set again**, and what was cleared meanwhile does not come
back. -/
theorem fired_of_take {taken ran : Timers σ} {marks : List (Mark σ)}
    (takes : before.take id = some (timer, taken)) (change : Change taken marks ran) (now : Nat) :
    Fired now before timer marks (ran.finish timer now) := by
  obtain ⟨member, rfl, rfl⟩ := take_eq_some takes
  have runs : ran.running = some (timer.id, Timers.ended marks timer.id) := change.running
  -- what is over while the timer runs is over when it has run
  have stays (id : Nat) (past : ran.Past id) : (ran.finish timer now).Past id := by
    refine ⟨(issued_finish ran timer now).symm ▸ past.issued, fun waits => ?_, ?_⟩
    · obtain ⟨other, found, rfl⟩ := mem_ids.mp waits
      rcases (mem_finish runs now other).mp found with old | ⟨kept, period, _, rfl⟩
      · exact past.waits (mem_ids.mpr ⟨other, old, rfl⟩)
      · rw [kept] at runs
        exact past.runs runs
    · rw [(settled_finish change.sound runs now).idle]
      exact fun runs => by cases runs
  constructor
  case settled => exact settled_finish change.sound runs now
  case issued =>
    rw [issued_finish]
    exact change.issued
  case waited => exact member
  case mem =>
    intro other
    rw [mem_finish runs, change.mem, List.mem_filter, bne_iff_ne]
    constructor
    · rintro (⟨old, kept⟩ | ⟨kept, period, repeats, rfl⟩)
      · exact ⟨old.elim .inl fun set => .inr (.inl set), kept⟩
      · exact ⟨.inr (.inr ⟨period, repeats, rfl⟩), kept⟩
    · rintro ⟨old | set | ⟨period, repeats, rfl⟩, kept⟩
      · exact .inl ⟨.inl old, kept⟩
      · exact .inl ⟨.inr set, kept⟩
      · exact .inr ⟨kept, period, repeats, rfl⟩
  case fresh =>
    intro other set
    rw [issued_finish]
    exact change.fresh other set
  case past =>
    intro id past
    have differs : id ≠ timer.id :=
      fun same => past.waits (mem_ids.mpr ⟨timer, member, same.symm⟩)
    have meanwhile : Past ⟨before.entries.filter (·.id != timer.id), before.issued,
        some (timer.id, false)⟩ id :=
      ⟨past.issued, fun kept => past.waits (mem_ids_filter.mp kept).1, by simp [differs.symm]⟩
    have later := change.past id meanwhile
    exact ⟨stays id later.1, differs, later.2⟩
  case ended => exact fun mark marked id ends => stays id (change.ended mark marked id ends)

end Timers

namespace Moment

open Timers

variable {name : String} {now : Nat} {moments : List (Moment σ)} {start finish : Stage σ}

/-- What a request does with the timers. -/
def marks (now : Nat) : Moment σ → List (Mark σ)
  | ⟨.setTimer delay repeats callback _, stage⟩ =>
    let due := now + delay
    let period := if repeats then some delay else none
    [.set ⟨(stage.timers.insert due period callback).1, due, period, callback⟩]
  | ⟨.clearTimer id _, stage⟩ => [.clear id (stage.timers.clear id).1]
  | ⟨.clearTimers _, stage⟩ => [.clearAll stage.timers.existing]
  | _ => []

/-- A request changes timers along its marks only. -/
theorem change_marks (name : String) (now : Nat) (moment : Moment σ)
    (sound : moment.stage.timers.Sound) :
    Change moment.stage.timers (moment.marks now) (moment.after name now).timers := by
  obtain ⟨routine, stage⟩ := moment
  cases routine with
  | setTimer => exact change_insert sound _ _ _
  | clearTimer id => exact change_clear sound id
  | clearTimers => exact change_clearAll sound
  | _ => exact .refl sound

/-- Requests one after the other change timers along their marks only. -/
theorem Leads.change_marks (leads : Leads name now start moments finish)
    (sound : start.timers.Sound) :
    Change start.timers (moments.flatMap (·.marks now)) finish.timers := by
  induction moments generalizing start with
  | nil =>
      obtain rfl := leads
      exact .refl sound
  | cons moment rest ih =>
      obtain ⟨rfl, later⟩ := leads
      have first := moment.change_marks name now sound
      exact first.trans (ih later first.sound)

end Moment

namespace Routine

variable {name : String} {now : Nat} {peers : List (Loaded σ)}

/-- What a routine does with the timers of its extension, in order. -/
def marks (name : String) (now : Nat) (peers : List (Loaded σ)) (routine : Routine σ)
    (stage : Stage σ) : List (Timers.Mark σ) :=
  (routine.trace name now peers stage).flatMap (·.marks now)

/-- **A routine changes the timers of its extension along its marks only**, and what it has cleared
does not come back. -/
theorem change_marks (routine : Routine σ) (stage : Stage σ) (sound : stage.timers.Sound) :
    Timers.Change stage.timers (routine.marks name now peers stage)
      (routine.run name now peers stage).2.timers :=
  (routine.leads_trace stage).change_marks sound

end Routine

end Relay
