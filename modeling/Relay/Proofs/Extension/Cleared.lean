import Relay.Proofs.Extension.Tended

/-! # Timers that were cleared

Past a whole history, a timer that was cleared does not start to run any more, and it is not cleared
again (`Relay.Host.heeded_history`). Timers are told apart by their numbers as long as their
extension is loaded; when it is loaded again they are others. -/

namespace Relay

variable {σ : Type}

/-- What happens to the timers of an extension: it is to be loaded and has none, one of them starts
to run, or its code does something with them. -/
inductive TimerEvent (σ : Type) where
  | load
  | start (id : Nat)
  | mark (made : Timers.Mark σ)

namespace TimerEvent

variable {past : Nat → Prop} {events more : List (TimerEvent σ)} {id : Nat}

/-- Whether a timer is cleared. -/
def ends (id : Nat) : TimerEvent σ → Bool
  | .mark made => made.ends id
  | _ => false

/-- Whether a timer starts to run, or it is told that it is cleared. -/
def Revives (event : TimerEvent σ) (id : Nat) : Prop :=
  event = .start id ∨ event = .mark (.clear id true)

/-- Which timers are over after an event, if some are before. -/
def leaves (past : Nat → Prop) : TimerEvent σ → Nat → Prop
  | .load => fun _ => False
  | event => fun id => past id ∨ event.ends id = true

/-- Whether no event revives what is over then. -/
def Obeys : (Nat → Prop) → List (TimerEvent σ) → Prop
  | _, [] => True
  | past, event :: rest => (∀ id, past id → ¬ event.Revives id) ∧ Obeys (event.leaves past) rest

/-- Whether no timer is revived after it was cleared, as long as its extension is loaded. -/
def Heeded (events : List (TimerEvent σ)) : Prop :=
  ∀ life, life <:+: events → .load ∉ life →
    life.Pairwise fun event later => ∀ id, event.ends id = true → ¬ later.Revives id

/-- Events obey if the first ones do, and the others with all that is over by then. -/
theorem obeys_append :
    Obeys past (events ++ more) ↔ Obeys past events ∧ Obeys (events.foldl leaves past) more := by
  induction events generalizing past with
  | nil => exact (iff_of_eq (true_and _)).symm
  | cons event rest ih => rw [List.cons_append, Obeys, Obeys, ih, List.foldl_cons, and_assoc]

/-- As long as an extension is loaded, what is over stays over. -/
theorem leaves_of_not_load {event : TimerEvent σ} (kept : .load ≠ event) (id : Nat) :
    event.leaves past id ↔ past id ∨ event.ends id = true := by
  cases event with
  | load => exact absurd rfl kept
  | start other => exact .rfl
  | mark made => exact .rfl

/-- While an extension is not loaded again nothing that is over at the start is revived, nor what an
event ends. -/
theorem Obeys.pairwise (obeys : Obeys past events) (kept : .load ∉ events) :
    (∀ event ∈ events, ∀ id, past id → ¬ event.Revives id) ∧
      events.Pairwise fun event later => ∀ id, event.ends id = true → ¬ later.Revives id := by
  induction events generalizing past with
  | nil => exact ⟨List.forall_mem_nil _, .nil⟩
  | cons event rest ih =>
      rw [List.mem_cons, not_or] at kept
      have later := ih obeys.2 kept.2
      simp only [leaves_of_not_load kept.1] at later
      refine ⟨List.forall_mem_cons.mpr ⟨obeys.1, fun other member id past => ?_⟩,
        List.pairwise_cons.mpr ⟨fun other member id ends => ?_, later.2⟩⟩
      · exact later.1 other member id (.inl past)
      · exact later.1 other member id (.inr ends)

/-- **What is cleared stays so.** If no event revives what is over, none revives what was cleared
before it. -/
theorem Obeys.heeded (obeys : Obeys past events) : Heeded events := by
  rintro life ⟨before, after, rfl⟩ kept
  rw [obeys_append, obeys_append] at obeys
  exact (obeys.1.2.pairwise kept).2

/-- The marks of a routine revive nothing that they have cleared. -/
theorem obeys_marks {marks : List (Timers.Mark σ)}
    (heeded : marks.Pairwise fun made later =>
      ∀ id, made.ends id = true → later ≠ .clear id true)
    (quiet : ∀ id, past id → .clear id true ∉ marks) :
    Obeys past (marks.map .mark) := by
  induction marks generalizing past with
  | nil => trivial
  | cons made rest ih =>
      rw [List.pairwise_cons] at heeded
      refine ⟨fun id past revives => ?_, ih heeded.2 fun id past member => ?_⟩
      · obtain starts | clears := revives
        · cases starts
        · cases clears
          exact quiet id past List.mem_cons_self
      · rcases past with before | ends
        · exact quiet id before (List.mem_cons_of_mem _ member)
        · exact heeded.1 _ member id ends rfl

/-- What is over after some marks was over before or is cleared by one of them. -/
theorem foldl_leaves_marks {marks : List (Timers.Mark σ)}
    (left : (marks.map .mark).foldl leaves past id) :
    past id ∨ ∃ made ∈ marks, made.ends id = true := by
  induction marks generalizing past with
  | nil => exact .inl left
  | cons made rest ih =>
      obtain (before | ends) | ⟨other, member, ends⟩ := ih left
      · exact .inl before
      · exact .inr ⟨made, List.mem_cons_self, ends⟩
      · exact .inr ⟨other, List.mem_cons_of_mem _ member, ends⟩

end TimerEvent

/-- What happens to the timers of its extension in a call. -/
def Call.timing (call : Call σ) : List (TimerEvent σ) :=
  match call.occasion with
  | .load => .load :: call.marks.map .mark
  | .timer id => .start id :: call.marks.map .mark
  | _ => call.marks.map .mark

namespace Occurrence

open TimerEvent

variable {name : String} {before after : Option (Timers σ)} {past : Nat → Prop}

/-- What happens to the timers of the extension `name`. -/
def timing (name : String) : Occurrence σ → List (TimerEvent σ)
  | .call made => if made.name = name then made.timing else []
  | .order _ _ => []

/-- What holds of the timers of an extension between calls, where some timers are over. -/
def Rests (past : Nat → Prop) (state : Option (Timers σ)) : Prop :=
  ∀ timers ∈ state, timers.Settled ∧ ∀ id, past id → timers.Past id

/-- What a routine leaves that starts while some timers are past. -/
theorem rests_of_change {timers left : Timers σ} {marks : List (Timers.Mark σ)}
    (change : timers.Change marks left) (idle : timers.running = none) (past : Nat → Prop)
    (known : ∀ id, past id → timers.Past id) :
    Obeys past (marks.map .mark) ∧ Rests ((marks.map .mark).foldl leaves past) (some left) := by
  refine ⟨obeys_marks change.heeded fun id before => (change.past id (known id before)).2, ?_⟩
  intro timers member
  cases member
  refine ⟨⟨change.sound, by rw [change.running, idle]; rfl⟩, fun id left => ?_⟩
  obtain before | ⟨made, member, ends⟩ := foldl_leaves_marks left
  · exact (change.past id (known id before)).1
  · exact change.ended made member id ends

/-- **Nothing that is over comes back** by an occurrence. -/
theorem Tends.obeys {occurrence : Occurrence σ} (tends : Tends name before occurrence after)
    (rests : Rests past before) :
    Obeys past (occurrence.timing name) ∧
      Rests ((occurrence.timing name).foldl leaves past) after := by
  cases tends with
  | order => exact ⟨trivial, rests⟩
  | other _ call differs =>
      rw [timing, if_neg differs]
      exact ⟨trivial, rests⟩
  | load call own occasion new =>
      have change := call.change_marks (new ▸ Timers.settled_empty.toSound)
      have left := rests_of_change change (by rw [new]; rfl) (fun _ => False) fun _ => False.elim
      rw [timing, if_pos own, Call.timing, occasion]
      refine ⟨⟨fun id _ revives => ?_, left.1⟩, ?_⟩
      · obtain starts | clears := revives
        · cases starts
        · cases clears
      · by_cases loads : call.loads = true
        · rw [if_pos loads]
          exact left.2
        · rw [if_neg loads]
          exact fun _ member => by cases member
  | unload call own occasion =>
      obtain ⟨settled, known⟩ := rests _ rfl
      have left := rests_of_change (call.change_marks settled.toSound) settled.idle past known
      rw [timing, if_pos own, Call.timing, occasion]
      exact ⟨left.1, fun _ member => by cases member⟩
  | restore call own occasion =>
      obtain ⟨settled, known⟩ := rests _ rfl
      have left := rests_of_change (call.change_marks settled.toSound) settled.idle past known
      rw [timing, if_pos own, Call.timing, occasion]
      exact left
  | timer call timers timer own occasion takes =>
      obtain ⟨settled, known⟩ := rests _ rfl
      have change := call.change_marks (Timers.sound_take settled takes)
      have fired := Timers.fired_of_take takes change call.now
      rw [timing, if_pos own, Call.timing, occasion]
      refine ⟨⟨fun id before revives => ?_, ?_⟩, ?_⟩
      · obtain starts | clears := revives
        · cases starts
          exact (fired.past _ (known _ before)).2.1 rfl
        · cases clears
      · refine obeys_marks change.heeded fun id left => ?_
        obtain before | ends := (leaves_of_not_load (by simp) id).mp left
        · exact (fired.past id (known id before)).2.2
        · cases ends
      · intro left member
        cases member
        refine ⟨fired.settled, fun id left => ?_⟩
        obtain before | ⟨made, member, ends⟩ := foldl_leaves_marks left
        · obtain before | ends := (leaves_of_not_load (by simp) id).mp before
          · exact (fired.past id (known id before)).1
          · cases ends
        · exact fired.ended made member id ends

/-- Over all that occurs no timer is revived that is over. -/
theorem Tended.obeys {occurrences : List (Occurrence σ)}
    (tended : Tended name before occurrences after) (rests : Rests past before) :
    Obeys past (occurrences.flatMap (·.timing name)) ∧
      Rests ((occurrences.flatMap (·.timing name)).foldl leaves past) after := by
  induction occurrences generalizing before past with
  | nil =>
      obtain rfl := tended
      exact ⟨trivial, rests⟩
  | cons occurrence rest ih =>
      obtain ⟨middle, tends, later⟩ := tended
      have first := tends.obeys rests
      have second := ih later first.2
      rw [List.flatMap_cons, obeys_append, List.foldl_append]
      exact ⟨⟨first.1, second.1⟩, second.2⟩

end Occurrence

namespace Host

open Occurrence

variable {start : Host σ}

/-- In an unused host no timer is over and none waits. -/
theorem rests_start (unused : start.Unused) (name : String) :
    Rests (fun _ => False) (start.timers? name) := by
  rw [timers?, unused.loaded]
  exact fun _ member => by cases member

/-- Between calls no timer of a loaded extension runs, and their numbers are told apart. -/
theorem settled_run (unused : start.Unused) (operations : List (Operation σ)) {name : String}
    {timers : Timers σ} (found : (start.run operations).timers? name = some timers) :
    timers.Settled :=
  ((tended_history operations unused.sound (mem_foreignNames operations) name).obeys
    (rests_start unused name)).2 timers found |>.1

/-- **A timer that was cleared stays cleared**, over a whole history. -/
theorem heeded_history (unused : start.Unused) (operations : List (Operation σ)) (name : String) :
    TimerEvent.Heeded ((start.history operations).flatMap (·.timing name)) :=
  ((tended_history operations unused.sound (mem_foreignNames operations) name).obeys
    (rests_start unused name)).1.heeded

end Host

end Relay
