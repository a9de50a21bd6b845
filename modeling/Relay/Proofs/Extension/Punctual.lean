import Mathlib.Data.List.Forall2
import Relay.Proofs.Extension.Cleared

/-! # When timers fire

When the timers that are due are to fire, extensions have their turns in load order. In its turn
those timers of an extension fire that were due at first and were not cleared by others of them that
fired before, the one that has waited longest first (`Relay.Turn`). No timer that was cleared comes
back, over a whole history (`Relay.Host.punctual_run`). -/

namespace Relay

variable {σ : Type}

/-- Whether a timer is to fire before another. -/
def Timer.Before (timer other : Timer σ) : Prop :=
  timer.due < other.due ∨ timer.due = other.due ∧ timer.id < other.id

/-- No timer is to fire before itself. -/
theorem Timer.Before.irrefl (timer : Timer σ) : ¬ timer.Before timer := by
  rintro (earlier | ⟨_, older⟩)
  · exact Nat.lt_irrefl _ earlier
  · exact Nat.lt_irrefl _ older

/-- Of two timers only one is to fire before the other. -/
theorem Timer.Before.asymm {timer other : Timer σ} (before : timer.Before other) :
    ¬ other.Before timer := by
  unfold Before at *
  omega

/-- A timer that fires, and the call of its routine. -/
structure Firing (σ : Type) where
  timer : Timer σ
  call : Call σ

namespace Firing

/-- Whether a timer is cleared while this one runs. -/
def ends (firing : Firing σ) (id : Nat) : Bool :=
  Timers.ended firing.call.marks id

/-- The timers that are left at `now`. -/
def left (now : Nat) (firing : Firing σ) : Timers σ :=
  firing.call.ended.2.timers.finish firing.timer now

/-- Whether it is the timer of an extension that fires. -/
structure Of (name : String) (now : Nat) (firing : Firing σ) : Prop where
  name : firing.call.name = name
  occasion : firing.call.occasion = .timer firing.timer.id
  routine : firing.call.routine = firing.timer.callback
  now : firing.call.now = now

end Firing

namespace Timers

variable {timers after : Timers σ} {name : String} {now id : Nat} {dues : List (Timer σ)}
  {firings : List (Firing σ)}

/-- The timers that are due, in the order in which they are to fire. -/
def queue (timers : Timers σ) (now : Nat) : List (Timer σ) :=
  (timers.entries.filter fun timer => timer.due ≤ now).mergeSort fun timer other =>
    decide (timer.due < other.due) || (timer.due == other.due && timer.id ≤ other.id)

theorem queue_perm (timers : Timers σ) (now : Nat) :
    (timers.queue now).Perm (timers.entries.filter fun timer => timer.due ≤ now) :=
  List.mergeSort_perm _ _

/-- The timers that are due have numbers of their own. -/
theorem Sound.nodup_queue (sound : timers.Sound) (now : Nat) :
    ((timers.queue now).map (·.id)).Nodup :=
  (((timers.queue_perm now).map _).nodup_iff).mpr
    (sound.distinct.sublist (List.filter_sublist.map _))

theorem mem_queue {timer : Timer σ} :
    timer ∈ timers.queue now ↔ timer ∈ timers.entries ∧ timer.due ≤ now := by
  rw [(timers.queue_perm now).mem_iff, List.mem_filter, decide_eq_true_iff]

/-- The timers that are due stand in the order in which they are to fire. -/
theorem Sound.pairwise_queue (sound : timers.Sound) (now : Nat) :
    (timers.queue now).Pairwise Timer.Before := by
  have transitive (first second third : Timer σ)
      (early : (decide (first.due < second.due) ||
        (first.due == second.due && first.id ≤ second.id)) = true)
      (late : (decide (second.due < third.due) ||
        (second.due == third.due && second.id ≤ third.id)) = true) :
      (decide (first.due < third.due) ||
        (first.due == third.due && first.id ≤ third.id)) = true := by
    simp only [Bool.or_eq_true, Bool.and_eq_true, decide_eq_true_eq, beq_iff_eq] at *
    omega
  have total (first second : Timer σ) :
      ((decide (first.due < second.due) || (first.due == second.due && first.id ≤ second.id)) ||
        (decide (second.due < first.due) ||
          (second.due == first.due && second.id ≤ first.id))) = true := by
    simp only [Bool.or_eq_true, Bool.and_eq_true, decide_eq_true_eq, beq_iff_eq]
    omega
  have sorted := List.pairwise_mergeSort transitive total
    (timers.entries.filter fun timer => timer.due ≤ now)
  have distinct := List.pairwise_map.mp (sound.nodup_queue now)
  refine (sorted.and distinct).imp fun {first second} both => ?_
  simp only [Bool.or_eq_true, Bool.and_eq_true, decide_eq_true_eq, beq_iff_eq] at both
  unfold Timer.Before
  omega

/-- A timer cannot be taken out if it does not wait. -/
theorem take_eq_none : timers.take id = none ↔ id ∉ timers.ids := by
  rw [take, Option.map_eq_none_iff, List.find?_eq_none, ids, List.mem_map]
  simp only [beq_iff_eq, not_exists, not_and]

/-- The timers of the extension `name` that are due fire one after the other, but for those that
are not there any more. -/
inductive Fires (name : String) (now : Nat) :
    Timers σ → List (Timer σ) → List (Firing σ) → Timers σ → Prop where
  | nil (timers : Timers σ) : Fires name now timers [] [] timers
  | pass {timers after : Timers σ} {due : Timer σ} {dues : List (Timer σ)}
    {firings : List (Firing σ)} (gone : timers.take due.id = none)
    (later : Fires name now timers dues firings after) :
    Fires name now timers (due :: dues) firings after
  | fire {timers after : Timers σ} {due : Timer σ} {dues : List (Timer σ)}
    {firings : List (Firing σ)} (firing : Firing σ) (calls : firing.Of name now)
    (takes : timers.take due.id = some (firing.timer, firing.call.stage.timers))
    (later : Fires name now (firing.left now) dues firings after) :
    Fires name now timers (due :: dues) (firing :: firings) after

/-- What holds when the timers `dues` were to fire. -/
structure Turned (now : Nat) (before : Timers σ) (dues : List (Timer σ))
    (firings : List (Firing σ)) (after : Timers σ) : Prop where
  settled : after.Settled
  issued : before.issued ≤ after.issued
  within : (firings.map (·.timer)).Sublist dues
  fired : ∀ due ∈ dues, due ∈ firings.map (·.timer) ↔ due ∈ before.entries ∧
    ∀ firing ∈ firings, firing.timer.Before due → firing.ends due.id = false
  past : ∀ id, before.Past id → after.Past id ∧ ∀ firing ∈ firings, firing.timer.id ≠ id
  fresh : ∀ firing ∈ firings, ∀ timer, .set timer ∈ firing.call.marks →
    before.issued < timer.id
  mem : ∀ timer, timer ∈ after.entries ↔
    (timer ∈ before.entries ∧ (∀ firing ∈ firings, firing.timer.id ≠ timer.id) ∨
      (∃ firing ∈ firings, firing.timer.Again now timer) ∨
      ∃ firing ∈ firings, .set timer ∈ firing.call.marks) ∧
        ∀ firing ∈ firings, firing.ends timer.id = false

/-- What is due waits, if it was not cleared or fired meanwhile. -/
def Waits (timers : Timers σ) (due : Timer σ) : Prop :=
  due ∈ timers.entries ∨ timers.Past due.id

theorem Waits.issued {due : Timer σ} (waits : timers.Waits due) (sound : timers.Sound) :
    due.id ≤ timers.issued :=
  waits.elim (fun member => sound.issued due.id (mem_ids.mpr ⟨due, member, rfl⟩)) (·.issued)

/-- Where nothing is due nothing fires. -/
theorem turned_nil (settled : timers.Settled) (now : Nat) : Turned now timers [] [] timers where
  settled := settled
  issued := Nat.le_refl _
  within := .slnil
  fired := List.forall_mem_nil _
  past id past := ⟨past, List.forall_mem_nil _⟩
  fresh := List.forall_mem_nil _
  mem timer := by simp

/-- A timer that is not there any more is skipped, and the others fire as they would. -/
theorem Turned.pass {due : Timer σ} (turned : Turned now timers dues firings after)
    (gone : timers.take due.id = none) (differs : due.id ∉ dues.map (·.id)) :
    Turned now timers (due :: dues) firings after where
  settled := turned.settled
  issued := turned.issued
  within := turned.within.trans (List.sublist_cons_self _ _)
  fired := by
    refine List.forall_mem_cons.mpr ⟨?_, turned.fired⟩
    have absent := take_eq_none.mp gone
    constructor
    · exact fun fired => absurd (List.mem_map_of_mem (turned.within.subset fired)) differs
    · exact fun waits => absurd (mem_ids.mpr ⟨due, waits.1, rfl⟩) absent
  past := turned.past
  fresh := turned.fresh
  mem := turned.mem

section Fire

variable {due : Timer σ} {firing : Firing σ}

/-- What is cleared while a timer runs is over when it has run. -/
theorem Fired.past_of_ends
    (fired : Fired now timers firing.timer firing.call.marks (firing.left now))
    (ends : firing.ends id = true) : (firing.left now).Past id := by
  obtain ⟨mark, member, ends⟩ := List.any_eq_true.mp ends
  exact fired.ended mark member id ends

/-- Another timer that is due waits still, if it was not cleared. -/
theorem Fired.mem_left (fired : Fired now timers firing.timer firing.call.marks (firing.left now))
    {other : Timer σ} (issued : other.id ≤ timers.issued) (differs : other.id ≠ firing.timer.id) :
    other ∈ (firing.left now).entries ↔ other ∈ timers.entries ∧ firing.ends other.id = false := by
  have notSet : .set other ∉ firing.call.marks := fun set =>
    Nat.lt_irrefl _ (Nat.lt_of_lt_of_le (fired.fresh other set).1 issued)
  have notAgain : ¬ firing.timer.Again now other := by
    rintro ⟨period, _, rfl⟩
    exact differs rfl
  rw [fired.mem, Firing.ends]
  tauto

/-- While a timer runs, another that is due waits on or is cleared. -/
theorem Fired.waits (fired : Fired now timers firing.timer firing.call.marks (firing.left now))
    (settled : timers.Settled) {other : Timer σ} (waits : timers.Waits other)
    (differs : other.id ≠ firing.timer.id) : (firing.left now).Waits other := by
  have issued := waits.issued settled.toSound
  obtain member | past := waits
  · cases ends : firing.ends other.id with
    | true => exact .inr (fired.past_of_ends ends)
    | false => exact .inl ((fired.mem_left issued differs).mpr ⟨member, ends⟩)
  · exact .inr (fired.past other.id past).1

/-- The timer that is taken out is the one that was due. -/
theorem eq_due_of_take {taken : Timers σ} {timer : Timer σ} (settled : timers.Settled)
    (waits : timers.Waits due) (takes : timers.take due.id = some (timer, taken)) :
    timer = due := by
  obtain ⟨member, same, _⟩ := take_eq_some takes
  obtain found | past := waits
  · exact settled.eq_of_id member found same
  · exact absurd (mem_ids.mpr ⟨timer, member, same⟩) past.waits

/-- **A timer that is due and still waits fires**, and then the others as they are to fire behind
it. -/
theorem Turned.fire (turned : Turned now (firing.left now) dues firings after)
    (fired : Fired now timers firing.timer firing.call.marks (firing.left now))
    (settled : timers.Settled) (waits : ∀ other ∈ firing.timer :: dues, timers.Waits other)
    (distinct : ((firing.timer :: dues).map (·.id)).Nodup)
    (ordered : (firing.timer :: dues).Pairwise Timer.Before) :
    Turned now timers (firing.timer :: dues) (firing :: firings) after := by
  rw [List.map_cons, List.nodup_cons] at distinct
  rw [List.pairwise_cons] at ordered
  rw [List.forall_mem_cons] at waits
  have differs : ∀ other ∈ dues, other.id ≠ firing.timer.id :=
    fun other member same => distinct.1 (same ▸ List.mem_map_of_mem member)
  have later : ∀ other ∈ firings, other.timer ∈ dues :=
    fun other member => turned.within.subset (List.mem_map_of_mem member)
  constructor
  case settled => exact turned.settled
  case issued => exact Nat.le_trans fired.issued turned.issued
  case within => exact turned.within.cons_cons _
  case fired =>
    refine List.forall_mem_cons.mpr ⟨?_, fun other member => ?_⟩
    · refine iff_of_true List.mem_cons_self ⟨fired.waited, List.forall_mem_cons.mpr ⟨?_, ?_⟩⟩
      · exact fun before => absurd before (Timer.Before.irrefl _)
      · exact fun next listed before => absurd before (ordered.1 _ (later next listed)).asymm
    · have issued := (waits.2 other member).issued settled.toSound
      have own : other ≠ firing.timer := fun same => differs other member (congrArg Timer.id same)
      have before := ordered.1 other member
      rw [List.map_cons, List.mem_cons, or_iff_right own, turned.fired other member,
        fired.mem_left issued (differs other member), List.forall_mem_cons]
      tauto
  case past =>
    intro id past
    obtain ⟨left, own, _⟩ := fired.past id past
    have next := turned.past id left
    exact ⟨next.1, List.forall_mem_cons.mpr ⟨Ne.symm own, next.2⟩⟩
  case fresh =>
    refine List.forall_mem_cons.mpr ⟨fun timer set => (fired.fresh timer set).1, ?_⟩
    exact fun next member timer set =>
      Nat.lt_of_le_of_lt fired.issued (turned.fresh next member timer set)
  case mem =>
    intro timer
    -- what fires or is set afterwards was not cleared before
    have quiet {id : Nat} (kept : ¬ (firing.left now).Past id) : firing.ends id = false :=
      Bool.eq_false_of_not_eq_true fun ends => kept (fired.past_of_ends ends)
    have again : (∃ next ∈ firings, next.timer.Again now timer) → firing.ends timer.id = false := by
      rintro ⟨next, member, period, _, rfl⟩
      exact quiet fun past => (turned.past _ past).2 next member rfl
    have set : (∃ next ∈ firings, .set timer ∈ next.call.marks) →
        firing.ends timer.id = false := by
      rintro ⟨next, member, set⟩
      exact quiet fun past =>
        Nat.lt_irrefl _ (Nat.lt_of_lt_of_le (turned.fresh next member timer set) past.issued)
    -- and what is set while this timer runs does not fire
    have own : firing.timer.Again now timer → ∀ next ∈ firings, next.timer.id ≠ timer.id := by
      rintro ⟨period, _, rfl⟩ next member
      exact differs _ (later next member)
    have new : .set timer ∈ firing.call.marks → ∀ next ∈ firings, next.timer.id ≠ timer.id := by
      intro set next member same
      have issued := (waits.2 _ (later next member)).issued settled.toSound
      have fresh := (fired.fresh timer set).1
      omega
    have here : Timers.ended firing.call.marks timer.id = firing.ends timer.id := rfl
    rw [turned.mem, fired.mem, here]
    simp only [List.forall_mem_cons, List.exists_mem_cons_iff]
    constructor
    · rintro ⟨⟨⟨old | sets | back, kept⟩, others⟩ | back | sets, rest⟩
      · exact ⟨.inl ⟨old.1, Ne.symm old.2, others⟩, kept, rest⟩
      · exact ⟨.inr (.inr (.inl sets)), kept, rest⟩
      · exact ⟨.inr (.inl (.inl back)), kept, rest⟩
      · exact ⟨.inr (.inl (.inr back)), again back, rest⟩
      · exact ⟨.inr (.inr (.inr sets)), set sets, rest⟩
    · rintro ⟨⟨old, other, others⟩ | (back | back) | sets | sets, kept, rest⟩
      · exact ⟨.inl ⟨⟨.inl ⟨old, Ne.symm other⟩, kept⟩, others⟩, rest⟩
      · exact ⟨.inl ⟨⟨.inr (.inr back), kept⟩, own back⟩, rest⟩
      · exact ⟨.inr (.inl back), rest⟩
      · exact ⟨.inl ⟨⟨.inr (.inl sets), kept⟩, new sets⟩, rest⟩
      · exact ⟨.inr (.inr sets), rest⟩

end Fire

/-- The timers that are due fire as they are to, in order. -/
theorem Fires.turned (fires : Fires name now timers dues firings after)
    (settled : timers.Settled) (waits : ∀ other ∈ dues, timers.Waits other)
    (distinct : (dues.map (·.id)).Nodup) (ordered : dues.Pairwise Timer.Before) :
    Turned now timers dues firings after := by
  induction fires with
  | nil timers => exact turned_nil settled now
  | pass gone later ih =>
      have fresh := List.nodup_cons.mp distinct
      exact (ih settled (List.forall_mem_cons.mp waits).2 fresh.2
        (List.pairwise_cons.mp ordered).2).pass gone fresh.1
  | @fire timers after due dues firings firing calls takes later ih =>
      obtain rfl := eq_due_of_take settled (List.forall_mem_cons.mp waits).1 takes
      have fresh := List.nodup_cons.mp distinct
      have fired := fired_of_take takes
        (firing.call.change_marks (sound_take settled takes)) now
      refine (ih fired.settled (fun other member => ?_) fresh.2
        (List.pairwise_cons.mp ordered).2).fire fired settled waits distinct ordered
      refine fired.waits settled ((List.forall_mem_cons.mp waits).2 other member) fun same => ?_
      exact fresh.1 (List.mem_map.mpr ⟨other, member, same⟩)

end Timers

/-- The turn of the extension `name` at `now`, with its timers before and after it. Those fire that
are due and are not cleared by one that fires before, in order; what is set meanwhile does not fire.
Afterwards what fires once or was cleared is gone, what repeats is due again after its period, and
all else is as it was. -/
structure Turn (name : String) (now : Nat) (before : Timers σ) (firings : List (Firing σ))
    (after : Timers σ) : Prop where
  calls : ∀ firing ∈ firings, firing.Of name now
  ascending : (firings.map (·.timer)).Pairwise Timer.Before
  fired : ∀ timer, timer ∈ firings.map (·.timer) ↔
    timer ∈ before.entries ∧ timer.due ≤ now ∧
      ∀ firing ∈ firings, firing.timer.Before timer → firing.ends timer.id = false
  fresh : ∀ firing ∈ firings, ∀ timer, .set timer ∈ firing.call.marks →
    ∀ other ∈ firings, other.timer.id ≠ timer.id
  gone : ∀ firing ∈ firings,
    firing.timer.period = none ∨ (∃ other ∈ firings, other.ends firing.timer.id = true) →
      firing.timer.id ∉ after.ids
  again : ∀ firing ∈ firings, ∀ period, firing.timer.period = some period →
    (∀ other ∈ firings, other.ends firing.timer.id = false) →
      { firing.timer with due := now + period } ∈ after.entries
  mem : ∀ timer, timer ∈ after.entries ↔
    (timer ∈ before.entries ∧ (∀ firing ∈ firings, firing.timer.id ≠ timer.id) ∨
      (∃ firing ∈ firings, firing.timer.Again now timer) ∨
      ∃ firing ∈ firings, .set timer ∈ firing.call.marks) ∧
        ∀ firing ∈ firings, firing.ends timer.id = false

namespace Timers

variable {timers after : Timers σ} {name : String} {now : Nat} {firings : List (Firing σ)}

/-- All timers that fire are of the extension whose turn it is. -/
theorem Fires.calls {dues : List (Timer σ)} (fires : Fires name now timers dues firings after) :
    ∀ firing ∈ firings, firing.Of name now := by
  induction fires with
  | nil timers => exact List.forall_mem_nil _
  | pass gone later ih => exact ih
  | fire firing calls takes later ih => exact List.forall_mem_cons.mpr ⟨calls, ih⟩

/-- **When the timers that are due fire one after the other** it is the turn of the extension. -/
theorem Fires.turn (fires : Fires name now timers (timers.queue now) firings after)
    (settled : timers.Settled) : Turn name now timers firings after := by
  have turned := fires.turned settled (fun due member => .inl (mem_queue.mp member).1)
    (settled.nodup_queue now) (settled.pairwise_queue now)
  have within : ∀ firing ∈ firings, firing.timer ∈ timers.entries := fun firing member =>
    (mem_queue.mp (turned.within.subset (List.mem_map_of_mem member))).1
  have fresh : ∀ firing ∈ firings, ∀ timer, .set timer ∈ firing.call.marks →
      ∀ other ∈ firings, other.timer.id ≠ timer.id := by
    intro firing member timer set other listed same
    have new := turned.fresh firing member timer set
    have old := settled.issued other.timer.id (mem_ids.mpr ⟨_, within other listed, rfl⟩)
    omega
  constructor
  case calls => exact fires.calls
  case ascending => exact (settled.pairwise_queue now).sublist turned.within
  case fired =>
    intro timer
    by_cases due : timer ∈ timers.queue now
    · have waits := mem_queue.mp due
      rw [turned.fired timer due]
      exact ⟨fun fired => ⟨fired.1, waits.2, fired.2⟩, fun fired => ⟨fired.1, fired.2.2⟩⟩
    · exact iff_of_false (fun fired => due (turned.within.subset fired))
        fun fired => due (mem_queue.mpr ⟨fired.1, fired.2.1⟩)
  case fresh => exact fresh
  case gone =>
    intro firing member ended waits
    obtain ⟨timer, left, same⟩ := mem_ids.mp waits
    obtain ⟨origin, kept⟩ := (turned.mem timer).mp left
    obtain ⟨_, others⟩ | ⟨other, listed, period, repeats, rfl⟩ | ⟨other, listed, set⟩ := origin
    · exact others firing member same.symm
    · have one := settled.eq_of_id (within other listed) (within firing member) same
      rw [one] at repeats kept
      obtain once | ⟨clearing, found, ends⟩ := ended
      · rw [once] at repeats
        cases repeats
      · rw [kept clearing found] at ends
        cases ends
    · exact fresh other listed timer set firing member same.symm
  case again =>
    intro firing member period repeats kept
    exact (turned.mem _).mpr ⟨.inr (.inl ⟨firing, member, period, repeats, rfl⟩), kept⟩
  case mem => exact turned.mem

end Timers

namespace Host

open Occurrence Timers

variable {host start : Host σ} {name : String} {timers : Timers σ}

/-! ## The turn of an extension -/

/-- What holds when some timers of the extension `name` have fired: they are counted, nothing else
occurs, and all that changes are the timers of the extension. -/
structure Served (name : String) (state : Nat × Host σ) (occurrences : List (Occurrence σ))
    (next : Nat × Host σ) (firings : List (Firing σ)) (left : Timers σ) : Prop where
  calls : occurrences = firings.map fun firing => .call firing.call
  count : next.1 = state.1 + firings.length
  now : next.2.now = state.2.now
  own : next.2.timers? name = some left
  others : ∀ other, other ≠ name → next.2.timers? other = state.2.timers? other

/-- Timers of an extension that fire one after the other are counted together. -/
theorem Served.trans {state middle next : Nat × Host σ} {occurrences more : List (Occurrence σ)}
    {firings later : List (Firing σ)} {left last : Timers σ}
    (first : Served name state occurrences middle firings left)
    (second : Served name middle more next later last) :
    Served name state (occurrences ++ more) next (firings ++ later) last where
  calls := by rw [first.calls, second.calls, List.map_append]
  count := by rw [second.count, first.count, List.length_append, Nat.add_assoc]
  now := second.now.trans first.now
  own := second.own
  others other differs := (second.others other differs).trans (first.others other differs)

/-- What there is to do when a timer is to fire: nothing if it is not there any more, and otherwise
its routine is called, and what is left is put back. -/
theorem fire_cases (small : Text.toSmall name = name) (state : Nat × Host σ)
    (found : state.2.timers? name = some timers) (id : Nat) :
    timers.take id = none ∧ state.2.firing name id = [] ∧ fire name state id = state ∨
      ∃ firing : Firing σ, firing.Of name state.2.now ∧
        timers.take id = some (firing.timer, firing.call.stage.timers) ∧
        Served name state (state.2.firing name id) (fire name state id) [firing]
          (firing.left state.2.now) := by
  obtain ⟨count, host⟩ := state
  obtain ⟨module, known, rfl⟩ := Option.map_eq_some_iff.mp found
  have known : host.loaded? name = some module := by rwa [loaded?, small]
  have named := (loaded?_eq_some known).2.1
  rw [small] at named
  rw [fire, firing]
  dsimp only
  rw [known]
  dsimp only
  cases takes : module.timers.take id with
  | none => exact .inl ⟨rfl, rfl, rfl⟩
  | some taken =>
      obtain ⟨timer, rest⟩ := taken
      obtain ⟨_, rfl, _⟩ := take_eq_some takes
      dsimp only
      refine .inr ⟨⟨timer, host.callOf module rest (.timer timer.id) timer.callback⟩,
        ⟨named, rfl, rfl, rfl⟩, rfl, ?_⟩
      -- a failure is noted, and changes nothing else
      have served (noted : Host σ) (now : noted.now = host.now)
          (loaded : noted.loaded = host.loaded) (ran : Timers σ) (firing : Firing σ) :
          Served name (count, host) [.call firing.call]
            (count + 1, noted.setTimers name (ran.finish timer noted.now)) [firing]
              (ran.finish timer host.now) := by
        have same (other : String) : noted.timers? other = host.timers? other := by
          rw [timers?, loaded, timers?]
        refine ⟨rfl, rfl, now, ?_, fun other differs => ?_⟩
        · rw [timers?_setTimers, if_pos rfl, same, found, now]
          rfl
        · rw [timers?_setTimers, if_neg differs, same]
      split
      next => refine served _ ?_ ?_ _ ⟨timer, _⟩ <;> rfl
      next => refine served _ ?_ ?_ _ ⟨timer, _⟩ <;> rfl

/-- Timers that are to fire one after the other do so. -/
theorem fires_foldl (small : Text.toSmall name = name) (dues : List (Timer σ))
    (state : Nat × Host σ) (found : state.2.timers? name = some timers) :
    ∃ firings after, Fires name state.2.now timers dues firings after ∧
      Served name state
        (along (fun state id => state.2.firing name id) (fire name) state (dues.map (·.id)))
        ((dues.map (·.id)).foldl (fire name) state) firings after := by
  induction dues generalizing state timers with
  | nil => exact ⟨[], timers, .nil timers, rfl, rfl, rfl, found, fun _ _ => rfl⟩
  | cons due rest ih =>
      rw [List.map_cons, List.foldl_cons, along]
      obtain ⟨gone, silent, same⟩ | ⟨firing, calls, takes, served⟩ :=
        fire_cases small state found due.id
      · obtain ⟨firings, after, fires, later⟩ := ih state found
        rw [silent, same]
        exact ⟨firings, after, .pass gone fires, later⟩
      · obtain ⟨firings, after, fires, later⟩ := ih (fire name state due.id) served.own
        rw [served.now] at fires
        exact ⟨firing :: firings, after, .fire firing calls takes fires, served.trans later⟩

/-- **In its turn those timers of an extension fire that should.** -/
theorem turn_fireDue (small : Text.toSmall name = name) (state : Nat × Host σ)
    (found : state.2.timers? name = some timers) (settled : timers.Settled) :
    ∃ firings after, Turn name state.2.now timers firings after ∧
      Served name state (state.2.firingDue name state.1) (fireDue state name) firings after := by
  obtain ⟨firings, after, fires, served⟩ :=
    fires_foldl small (timers.queue state.2.now) state found
  obtain ⟨module, known, rfl⟩ := Option.map_eq_some_iff.mp found
  have known : state.2.loaded? name = some module := by rwa [loaded?, small]
  have dues : ((state.2.loaded? name).elim [] fun module => module.timers.due state.2.now) =
      (module.timers.queue state.2.now).map (·.id) := by
    rw [known]
    rfl
  rw [firingDue, fireDue, dues]
  exact ⟨firings, after, fires.turn settled, served⟩

/-! ## All turns -/

/-- Extensions have their turns one after the other, with the timers that they have `before`. -/
theorem turns_foldl {names : List String} (distinct : names.Nodup)
    (small : ∀ name ∈ names, Text.toSmall name = name) (before : String → Timers σ)
    (settled : ∀ name ∈ names, (before name).Settled) (now : Nat) (state : Nat × Host σ)
    (going : state.2.now = now)
    (found : ∀ name ∈ names, state.2.timers? name = some (before name)) :
    ∃ turns : List (List (Firing σ)),
      List.Forall₂ (fun name firings => ∃ after,
        (names.foldl fireDue state).2.timers? name = some after ∧
          Turn name now (before name) firings after) names turns ∧
      along (fun state name => state.2.firingDue name state.1) fireDue state names =
        turns.flatten.map (fun firing => .call firing.call) ∧
      (names.foldl fireDue state).1 = state.1 + turns.flatten.length ∧
      ∀ other ∉ names, (names.foldl fireDue state).2.timers? other = state.2.timers? other := by
  induction names generalizing state with
  | nil => exact ⟨[], .nil, rfl, rfl, fun _ _ => rfl⟩
  | cons name rest ih =>
      rw [List.nodup_cons] at distinct
      rw [List.forall_mem_cons] at small settled found
      obtain ⟨firings, after, turn, served⟩ := turn_fireDue small.1 state found.1 settled.1
      have apart : ∀ other ∈ rest, other ≠ name := fun other member same =>
        distinct.1 (same ▸ member)
      obtain ⟨turns, each, calls, count, others⟩ :=
        ih distinct.2 small.2 settled.2 (fireDue state name) (served.now.trans going)
          fun other member =>
            (served.others other (apart other member)).trans (found.2 other member)
      rw [List.foldl_cons, along]
      refine ⟨firings :: turns, .cons ⟨after, ?_, going ▸ turn⟩ each, ?_, ?_,
        fun other absent => ?_⟩
      · exact (others name distinct.1).trans served.own
      · rw [served.calls, calls, List.flatten_cons, List.map_append]
      · rw [count, served.count, List.flatten_cons, List.length_append, Nat.add_assoc]
      · rw [List.mem_cons, not_or] at absent
        exact (others other absent.2).trans (served.others other absent.1)

/-- How timers fire at `now`: by the turns of all loaded extensions in load order. -/
structure Polled (host : Host σ) (now : Nat) (turns : List (List (Firing σ))) : Prop where
  each : List.Forall₂ (fun module firings => ∃ after,
    (host.pollTimers now).2.timers? module.name = some after ∧
      Turn module.name now module.timers firings after) host.loaded turns
  calls : host.polling now = turns.flatten.map fun firing => .call firing.call
  count : (host.pollTimers now).1 = turns.flatten.length

/-- A loaded extension has the timers that it is loaded with. -/
theorem timers?_of_mem (distinct : host.loadedNames.Nodup) {module : Loaded σ}
    (member : module ∈ host.loaded) : host.timers? module.name = some module.timers := by
  have found : (host.loaded.find? (·.name == module.name)).isSome = true :=
    List.find?_isSome.mpr ⟨module, member, beq_self_eq_true _⟩
  obtain ⟨same, finds⟩ := Option.isSome_iff_exists.mp found
  have named : same.name = module.name := by simpa using List.find?_some finds
  have one := List.inj_on_of_nodup_map distinct (List.mem_of_find?_eq_some finds) member named
  rw [timers?, finds, one]
  rfl

/-- **When timers are polled every loaded extension has its turn**, whatever was done with the host
before. -/
theorem polled_run (unused : start.Unused) (operations : List (Operation σ)) (now : Nat) :
    ∃ turns, Polled (start.run operations) now turns := by
  have sound := sound_run unused operations
  have settled (name : String) (timers : Timers σ)
      (found : (start.run operations).timers? name = some timers) : timers.Settled :=
    settled_run unused operations found
  generalize start.run operations = host at sound settled
  have known : ∀ module ∈ host.loaded, host.timers? module.name = some module.timers :=
    fun module member => timers?_of_mem sound.distinct member
  have found : ∀ name ∈ host.loadedNames,
      host.timers? name = some ((host.timers? name).getD .empty) := by
    intro name member
    obtain ⟨module, listed, rfl⟩ := List.mem_map.mp member
    rw [known module listed]
    rfl
  obtain ⟨turns, each, calls, count, _⟩ := turns_foldl sound.distinct sound.small
    (fun name => (host.timers? name).getD .empty)
    (fun name member => settled name _ (found name member)) now (0, { host with now := now }) rfl
    found
  refine ⟨turns, ?_, calls, count.trans (Nat.zero_add _)⟩
  have turn := (List.forall₂_and_left _ _).mpr ⟨known, List.forall₂_map_left_iff.mp each⟩
  refine turn.imp fun module firings => ?_
  rintro ⟨same, after, left, turn⟩
  rw [same] at turn
  exact ⟨after, left, turn⟩

/-- **Timers fire exactly when they should**, whatever the code of extensions does with them. At any
time, when the timers that are due are to fire, all loaded extensions have their turns in load
order, and all that fires in the turns is counted. Over the whole history, a timer that was cleared,
alone or with all others of its extension, does not start to run any more, and is not told to be
cleared once more; when its extension is loaded again, its timers are others. -/
theorem punctual_run (unused : start.Unused) (operations : List (Operation σ)) :
    (∀ now, ∃ turns, Polled (start.run operations) now turns) ∧
      ∀ name, TimerEvent.Heeded ((start.history operations).flatMap (·.timing name)) :=
  ⟨polled_run unused operations, heeded_history unused operations⟩

/-- An extension with two timers, of which the one that is due first clears the other. -/
def jealous : Extension Nat :=
  ⟨.setTimer 5 true (.clearTimer 2 fun _ => .pass) fun _ => .setTimer 7 false .pass fun _ => .pass,
    .pass, 0, fun made => (made, .ok none), fun _ => .pass, none⟩

/-- A host for this extension. -/
def rivals : Host Nat :=
  .new hopeful.pipeline (Catalog.empty.register "alpha" fun made => (jealous, made)) "modules"

/-- One of the two timers fires again and again, and the other one never does. -/
theorem punctual_rivals :
    rivals.Unused ∧
      (rivals.run [.loadAll (treeOf ["alpha"])]).activeTimers "alpha" = 2 ∧
      (rivals.run [.loadAll (treeOf ["alpha"]), .pollTimers 5]).activeTimers "alpha" = 1 ∧
      ((rivals.run [.loadAll (treeOf ["alpha"]), .pollTimers 5]).pollTimers 10).1 = 1 ∧
      ((rivals.history [.loadAll (treeOf ["alpha"]), .pollTimers 5]).flatMap
        (·.timing "alpha")).any (·.ends 2) = true ∧
      (∀ now, ∃ turns,
        Polled (rivals.run [.loadAll (treeOf ["alpha"]), .pollTimers 5]) now turns) ∧
      ∀ name, TimerEvent.Heeded
        ((rivals.history [.loadAll (treeOf ["alpha"]), .pollTimers 5]).flatMap (·.timing name)) :=
  have unused : rivals.Unused := ⟨⟨Pipeline.unhooked.store, 1, .standard, 0, rfl⟩, rfl⟩
  ⟨unused, by decide +kernel, by decide +kernel, by decide +kernel, by decide +kernel,
    punctual_run unused [.loadAll (treeOf ["alpha"]), .pollTimers 5]⟩

end Host

end Relay
