import Relay.Proofs.Pipeline.Sighted

/-! # What comes of a visit

A hook either leaves a message alone, or its callback is called on the bytes or on the object of the
message and comes to some end (`Relay.Pipeline.Visit.comes`). What verdicts make of a message, what
callbacks are called on and what they do to the world is read off these cases. -/

namespace Relay.Pipeline

variable {σ : Type}

/-- Reading changes nothing but what is kept of a message and what is remarked. -/
theorem Passage.bare_reading (pipeline : Pipeline σ) (hook : Hook σ) (resolved : Resolved)
    (passage : Passage σ) : (reading pipeline hook resolved passage).2.bare = passage.bare := by
  unfold reading
  split
  · rfl
  · exact bare_keep hook resolved _

/-- How a callback has ended: on the bytes of a message, or on its object by some definition. -/
inductive Ended where
  | raw (ending : Ending Bytes)
  | parsed (resolved : Resolved) (ending : Ending Object)

namespace Visit

/-- What the callback is told of itself and of the message. -/
def view (visit : Visit σ) : HookView :=
  visit.hook.view visit.passage.flags visit.pipeline.protocol

/-- What the callback is called on, if it is called. -/
def call? (visit : Visit σ) : Option Sighting :=
  if visit.hook.filter.admits visit.passage.flags then
    match visit.hook.callback with
    | .raw _ => some (.raw visit.view visit.code visit.passage.bytes)
    | .parsed version _ =>
      match visit.pipeline.store.resolve visit.pipeline.protocol (.code visit.code) version with
      | .error _ => none
      | .ok resolved =>
        (Passage.reading visit.pipeline visit.hook resolved visit.passage).1.map fun object =>
          .parsed visit.view ⟨resolved.name, resolved.version, visit.passage.flags, object⟩
  else none

/-- How the callback ends, if it is called. -/
def ended? (visit : Visit σ) : Option Ended :=
  if visit.hook.filter.admits visit.passage.flags then
    match visit.hook.callback with
    | .raw run =>
      some (.raw ((run visit.view visit.code visit.passage.bytes).run visit.view
        visit.pipeline.limits.deferredWrites visit.passage.requests).1)
    | .parsed version run =>
      match visit.pipeline.store.resolve visit.pipeline.protocol (.code visit.code) version with
      | .error _ => none
      | .ok resolved =>
        match Passage.reading visit.pipeline visit.hook resolved visit.passage with
        | (none, _) => none
        | (some object, passage) =>
          some (.parsed resolved ((run visit.view
            ⟨resolved.name, resolved.version, visit.passage.flags, object⟩).run visit.view
              visit.pipeline.limits.deferredWrites passage.requests).1)
  else none

/-- What a program of the callback comes to. -/
def ran {α : Type} (visit : Visit σ) (program : HookView → Program σ α) (requests : Requests σ) :
    α × Requests σ :=
  (program visit.view).run visit.view visit.pipeline.limits.deferredWrites requests

/-- The event that the callback is called on when the message is read as an object. -/
def event (visit : Visit σ) (resolved : Resolved) (object : Object) : Event :=
  ⟨resolved.name, resolved.version, visit.passage.flags, object⟩

/-- What comes of a visit: the callback is not called (`idle`), and nothing changes but what is kept
of the message and what is remarked; or it is called on the bytes of the message (`raw`); or on the
object that it is read as by the definition that the hook asks for (`parsed`). -/
inductive Comes (visit : Visit σ) : Prop where
  | idle (called : visit.called = false) (call : visit.call? = none) (ended : visit.ended? = none)
    (left : visit.left.bare = visit.passage.bare)
  | raw (run : HookView → UInt16 → Bytes → Program σ (Ending Bytes))
    (callback : visit.hook.callback = .raw run) (called : visit.called = true)
    (call : visit.call? = some (.raw visit.view visit.code visit.passage.bytes))
    (ended : visit.ended? = some (.raw
      (visit.ran (run · visit.code visit.passage.bytes) visit.passage.requests).1))
    (left : visit.left = Passage.endRaw visit.code visit.hook
      { visit.passage with
        requests := (visit.ran (run · visit.code visit.passage.bytes) visit.passage.requests).2 }
      (visit.ran (run · visit.code visit.passage.bytes) visit.passage.requests).1)
  | parsed (version : VersionRequest) (run : HookView → Event → Program σ (Ending Object))
    (resolved : Resolved) (object : Object) (passage : Passage σ)
    (callback : visit.hook.callback = .parsed version run)
    (known : visit.pipeline.store.resolve visit.pipeline.protocol (.code visit.code) version =
      .ok resolved)
    (read : passage.bare = visit.passage.bare) (called : visit.called = true)
    (call : visit.call? = some (.parsed visit.view (visit.event resolved object)))
    (ended : visit.ended? = some (.parsed resolved
      (visit.ran (run · (visit.event resolved object)) passage.requests).1))
    (left : visit.left = Passage.endParsed visit.hook resolved
      { passage with
        requests := (visit.ran (run · (visit.event resolved object)) passage.requests).2 }
      (visit.ran (run · (visit.event resolved object)) passage.requests).1)

/-- **A visit is left alone, or calls its callback once.** -/
theorem comes (visit : Visit σ) : visit.Comes := by
  obtain ⟨pipeline, code, hook, passage⟩ := visit
  by_cases admitted : hook.filter.admits passage.flags = true
  · cases callback : hook.callback with
    | raw run =>
        apply Comes.raw run callback
        all_goals simp only [called, Passage.calls, call?, ended?, left, Passage.pass,
          Passage.passWith, Passage.passRaw, view, ran, admitted, callback, if_true, Bool.true_and]
    | parsed version run =>
        cases found : pipeline.store.resolve pipeline.protocol (.code code) version with
        | error =>
            apply Comes.idle
            all_goals simp only [called, Passage.calls, call?, ended?, left, Passage.pass,
              Passage.passWith, admitted, callback, found, if_true, Bool.true_and]
            rfl
        | ok resolved =>
            have same := Passage.bare_reading pipeline hook resolved passage
            rcases known : Passage.reading pipeline hook resolved passage with ⟨_ | object, after⟩
            all_goals rw [known] at same
            · apply Comes.idle
              all_goals simp only [called, Passage.calls, call?, ended?, left, Passage.pass,
                Passage.passWith, admitted, callback, found, known, if_true, Bool.true_and,
                Option.isSome_none, Option.map_none, same]
            · have flags : after.flags = passage.flags := congrArg (·.flags) same
              apply Comes.parsed version run resolved object after callback found same
              all_goals simp only [called, Passage.calls, call?, ended?, left, Passage.pass,
                Passage.passWith, Passage.passParsed, view, ran, event, admitted, callback, found,
                known, flags, if_true, Bool.true_and, Option.isSome_some, Option.map_some]
  · apply Comes.idle
    all_goals simp [called, Passage.calls, call?, ended?, left, Passage.pass, Passage.passWith,
      admitted]

/-- A callback is called if and only if it comes to an end. -/
theorem called_eq (visit : Visit σ) : visit.called = visit.ended?.isSome := by
  cases visit.comes with
  | idle called _ ended => rw [called, ended, Option.isSome_none]
  | raw _ _ called _ ended => rw [called, ended, Option.isSome_some]
  | parsed _ _ _ _ _ _ _ _ called _ ended => rw [called, ended, Option.isSome_some]

/-- A callback on the object of a message has it by the definition that the hook asks for, which
writes it under the code of the message. -/
theorem exists_of_parsed {visit : Visit σ} {resolved : Resolved} {ending : Ending Object}
    (parsed : visit.ended? = some (.parsed resolved ending)) :
    resolved.code = visit.code ∧ ∃ version run, visit.hook.callback = .parsed version run ∧
      visit.pipeline.store.resolve visit.pipeline.protocol (.code visit.code) version =
        .ok resolved := by
  cases visit.comes with
  | idle _ _ ended => cases ended.symm.trans parsed
  | raw _ _ _ _ ended => cases ended.symm.trans parsed
  | parsed version run _ _ _ callback known _ _ _ ended =>
      cases ended.symm.trans parsed
      have code := (Store.lookup_code_eq_ok.mp (Store.resolve_eq_ok known).1).1
      exact ⟨code, version, run, callback, known⟩

end Visit

end Relay.Pipeline
