import Relay.Proofs.Pipeline.Verdicts

/-! # What callbacks are called on

A visit calls the callback of its hook on the message as it comes to the hook
(`Relay.Pipeline.Visit.call?`). What is seen of watched callbacks is that they are called on what
the visits tell, message by message (`Relay.Pipeline.calls_handle`). -/

namespace Relay

variable {σ α β : Type}

/-- The call that a sighting shows, unless it is one of the hook with a handle. -/
def Sighting.callBut? (number : Nat) : Sighting → Option Sighting
  | .raw view code bytes => if view.handle = number then none else some (.raw view code bytes)
  | .parsed view event => if view.handle = number then none else some (.parsed view event)
  | .write _ _ => none
  | .unhook _ => none

/-- The calls of hooks other than the one with a handle, in order. -/
def callsBut (number : Nat) (seen : List Sighting) : List Sighting :=
  seen.filterMap (Sighting.callBut? number)

/-- A program calls nothing. -/
theorem Program.calls_run (number : Nat) (view : HookView) (limit : Nat) (program : Program σ α)
    (requests : Requests (σ × List Sighting)) :
    callsBut number (program.watched.run view limit requests).2.world.2 =
      callsBut number requests.world.2 := by
  have unseen (sighting : Sighting) (none : sighting.callBut? number = none)
      (world : σ × List Sighting) :
      callsBut number (sighting.note world).2 = callsBut number world.2 := by
    rw [Sighting.note, callsBut, List.filterMap_append, List.filterMap_cons_none none]
    exact List.append_nil _
  induction program generalizing requests with
  | done => exact rfl
  | world change next ih =>
      obtain ⟨world, writes, unhooks, remarks⟩ := requests
      exact ih _ ⟨Prod.map change id world, writes, unhooks, remarks⟩
  | write request next ih =>
      obtain ⟨world, writes, unhooks, remarks⟩ := requests
      rw [watched, run]
      split
      next =>
        exact (ih false ⟨_, writes, unhooks, remarks.push _⟩).trans
          (unseen (.write request false) rfl world)
      next =>
        exact (ih true ⟨_, writes.push request, unhooks, remarks⟩).trans
          (unseen (.write request true) rfl world)
  | unhook handle next ih =>
      obtain ⟨world, writes, unhooks, remarks⟩ := requests
      exact (ih ⟨_, writes, unhooks.push handle, remarks⟩).trans
        (unseen (.unhook handle) rfl world)
  | remark entry next ih =>
      obtain ⟨world, writes, unhooks, remarks⟩ := requests
      exact ih ⟨world, writes, unhooks, remarks.push entry⟩

/-- A watched callback is seen to be called, and then to call nothing. -/
theorem Program.calls_call (number : Nat) (view : HookView) (limit : Nat) (sighting : Sighting)
    (program : Program σ α) (requests : Requests (σ × List Sighting)) :
    callsBut number ((world sighting.note fun _ => program.watched).run view limit
        requests).2.world.2 =
      callsBut number requests.world.2 ++ callsBut number [sighting] := by
  obtain ⟨state, writes, unhooks, remarks⟩ := requests
  refine (program.calls_run number view limit ⟨_, writes, unhooks, remarks⟩).trans ?_
  exact List.filterMap_append

/-- A watched callback on the bytes notes what it is called on, and goes on as the one that is
watched. -/
theorem Callback.exists_of_watched_raw {callback : Callback σ}
    {run : HookView → UInt16 → Bytes → Program (σ × List Sighting) (Ending Bytes)}
    (watched : callback.watched = .raw run) :
    ∃ own : HookView → UInt16 → Bytes → Program σ (Ending Bytes),
      run = fun view code bytes =>
        .world (Sighting.raw view code bytes).note fun _ => (own view code bytes).watched := by
  cases callback with
  | raw own => exact ⟨own, (Callback.raw.inj watched).symm⟩
  | parsed => cases watched

/-- A watched callback on the object notes what it is called on, and goes on as the one that is
watched. -/
theorem Callback.exists_of_watched_parsed {callback : Callback σ} {version : VersionRequest}
    {run : HookView → Event → Program (σ × List Sighting) (Ending Object)}
    (watched : callback.watched = .parsed version run) :
    ∃ own : HookView → Event → Program σ (Ending Object),
      run = fun view event =>
        .world (Sighting.parsed view event).note fun _ => (own view event).watched := by
  cases callback with
  | raw => cases watched
  | parsed _ own => exact ⟨own, (Callback.parsed.inj watched).2.symm⟩

namespace Pipeline

/-! ## One hook -/

/-- What the callback is called on, unless it is that of the hook with a handle. -/
def Visit.callsBut (number : Nat) (visit : Visit σ) : List Sighting :=
  Relay.callsBut number visit.call?.toList

/-- Watched or not, a callback is called on the same. -/
theorem call?_watched (pipeline : Pipeline σ) (code : UInt16) (passage : Passage σ)
    (hook : Hook σ) (later seen : List Sighting) :
    Visit.call? ⟨pipeline.watched later, code, hook.watched, passage.watched seen⟩ =
      Visit.call? ⟨pipeline, code, hook, passage⟩ := by
  unfold Visit.call? Visit.view
  simp only [Hook.filter_watched, Passage.flags_watched, Hook.callback_watched,
    Passage.bytes_watched, store_watched, protocol_watched]
  cases hook.callback with
  | raw run => rfl
  | parsed version run =>
      simp only [Callback.watched, Passage.reading_watched]
      rfl

/-- What is seen of a watched hook is what it is called on. -/
theorem Passage.calls_pass (number : Nat) (pipeline : Pipeline (σ × List Sighting)) (code : UInt16)
    (passage : Passage (σ × List Sighting)) (hook : Hook σ) :
    Relay.callsBut number (pass pipeline code passage hook.watched).requests.world.2 =
      Relay.callsBut number passage.requests.world.2 ++
        Visit.callsBut number ⟨pipeline, code, hook.watched, passage⟩ := by
  change Relay.callsBut number
    (Visit.left ⟨pipeline, code, hook.watched, passage⟩).requests.world.2 = _
  cases Visit.comes ⟨pipeline, code, hook.watched, passage⟩ with
  | idle _ call _ left =>
      have still := congrArg (·.requests.world) left
      rw [Visit.callsBut, call]
      exact (congrArg (Relay.callsBut number ·.2) still).trans (List.append_nil _).symm
  | raw run callback _ call _ left =>
      obtain ⟨own, rfl⟩ := Callback.exists_of_watched_raw callback
      rw [Visit.callsBut, call, left, world_endRaw]
      exact Program.calls_call number _ _ _ _ _
  | parsed version run resolved object after callback _ read _ call _ left =>
      obtain ⟨own, rfl⟩ := Callback.exists_of_watched_parsed callback
      have still := congrArg (·.requests.world) read
      rw [Visit.callsBut, call, left, world_endParsed]
      exact (Program.calls_call number _ _ _ _ _).trans
        (congrArg (Relay.callsBut number ·.2 ++ _) still)

/-! ## All that a message causes -/

/-- What other callbacks are called on is told by what is seen of them. -/
theorem tells_calls (number : Nat) :
    Tells (Sighting.callBut? number) (Visit.callsBut number : Visit σ → List Sighting) := by
  intro pipeline code passage hook later seen
  obtain ⟨now, same⟩ := watches_pass pipeline code passage hook later seen
  refine ⟨now, same, ?_⟩
  have calls := Passage.calls_pass number (pipeline.watched later) code (passage.watched seen) hook
  rw [same, Visit.callsBut, call?_watched] at calls
  exact calls

/-- **Watching shows what callbacks are called on.** -/
theorem calls_handle (number : Nat) (pipeline : Pipeline σ) (bytes : Bytes)
    (incoming fake : Bool) :
    callsBut number (pipeline.sightings handle bytes incoming fake) =
      (pipeline.handling bytes incoming fake).begun.flatMap
        (Handling.told (Visit.callsBut number)) :=
  told_handle (tells_calls number) pipeline bytes incoming fake

end Pipeline

end Relay
