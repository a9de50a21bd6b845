import Relay.Extension.Routine

/-! # Timers

A timer fires when it is due: once, or again and again after the same time. While a timer runs it
is not among the others, but it can still be cleared, so that it does not come back. -/

namespace Relay

/-- A timer, and what it does. -/
structure Timer (σ : Type) where
  id : Nat
  due : Nat
  period : Option Nat
  callback : Routine σ

/-- The timers of an extension by ascending number, and the one that runs with whether it was
cleared. -/
structure Timers (σ : Type) where
  entries : List (Timer σ)
  issued : Nat
  running : Option (Nat × Bool)

namespace Timers

/-- No timers. -/
def empty : Timers σ := ⟨[], 0, none⟩

/-- The numbers of the timers, ascending. -/
def ids (timers : Timers σ) : List Nat :=
  timers.entries.map (·.id)

/-- The number of timers. -/
def size (timers : Timers σ) : Nat :=
  timers.entries.length

/-- Put a timer among the others. -/
def put (timer : Timer σ) : List (Timer σ) → List (Timer σ)
  | [] => [timer]
  | other :: rest => if other.id < timer.id then other :: put timer rest else timer :: other :: rest

/-- Set a timer under the next number. -/
def insert (timers : Timers σ) (due : Nat) (period : Option Nat) (callback : Routine σ) :
    Nat × Timers σ :=
  let id := timers.issued + 1
  (id, { timers with entries := put ⟨id, due, period, callback⟩ timers.entries, issued := id })

/-- Clear a timer, and tell whether there was something to clear. -/
def clear (timers : Timers σ) (id : Nat) : Bool × Timers σ :=
  if timers.entries.any (·.id == id) then
    (true, { timers with entries := timers.entries.filter (·.id != id) })
  else if timers.running == some (id, false) then
    (true, { timers with running := some (id, true) })
  else (false, timers)

/-- Clear all timers, and count those that were waiting. -/
def clearAll (timers : Timers σ) : Nat × Timers σ :=
  (timers.size,
    { timers with entries := [], running := timers.running.map fun (id, _) => (id, true) })

/-- The numbers of the timers that are due, in the order in which they fire. -/
def due (timers : Timers σ) (now : Nat) : List Nat :=
  ((timers.entries.filter fun timer => timer.due ≤ now).mergeSort fun timer other =>
    decide (timer.due < other.due) || (timer.due == other.due && timer.id ≤ other.id)).map (·.id)

/-- Take out a timer that is to run. -/
def take (timers : Timers σ) (id : Nat) : Option (Timer σ × Timers σ) :=
  (timers.entries.find? (·.id == id)).map fun timer =>
    (timer, { timers with
      entries := timers.entries.filter (·.id != id)
      running := some (id, false) })

/-- Put back a timer that has run, if it repeats and was not cleared. -/
def finish (timers : Timers σ) (timer : Timer σ) (now : Nat) : Timers σ :=
  let cleared := timers.running == some (timer.id, true)
  let timers := { timers with running := none }
  match timer.period with
  | some period =>
    if cleared then timers
    else { timers with entries := put { timer with due := now + period } timers.entries }
  | none => timers

end Timers

end Relay
