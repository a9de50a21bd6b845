import Relay.Proofs.Pipeline.Removals
import Relay.Proofs.Pipeline.Watched

/-! # What is seen of the hooks that messages pass

When callbacks are watched, what each sighting tells is what the visits of the messages tell,
message by message in the order in which their handling begins (`Relay.Pipeline.told_handle`). So
it is seen which callbacks are called and which hooks they ask to be removed
(`Relay.Pipeline.acts_handle`). -/

namespace Relay

variable {σ α β : Type}

/-- The callback of a hook that is called, or a hook that a callback asks to be removed. -/
inductive Act where
  | call (handle : Nat)
  | unhook (handle : Nat)
  deriving DecidableEq, Repr

/-- What a sighting tells of hooks. -/
def Sighting.act? : Sighting → Option Act
  | .raw view _ _ => some (.call view.handle)
  | .parsed view _ => some (.call view.handle)
  | .write _ _ => none
  | .unhook handle => some (.unhook handle)

/-- What sightings tell of hooks, in order. -/
def actsIn (seen : List Sighting) : List Act :=
  seen.filterMap Sighting.act?

theorem actsIn_append (seen more : List Sighting) :
    actsIn (seen ++ more) = actsIn seen ++ actsIn more :=
  List.filterMap_append

/-- A program is seen to ask for the removals that it asks for, and to call nothing. -/
theorem Program.acts_run (view : HookView) (limit : Nat) (program : Program σ α)
    (requests : Requests (σ × List Sighting)) :
    ∃ asked, (program.watched.run view limit requests).2.unhooks.toList =
        requests.unhooks.toList ++ asked ∧
      actsIn (program.watched.run view limit requests).2.world.2 =
        actsIn requests.world.2 ++ asked.map .unhook := by
  induction program generalizing requests with
  | done => exact ⟨[], (List.append_nil _).symm, (List.append_nil _).symm⟩
  | world change next ih =>
      obtain ⟨world, writes, unhooks, remarks⟩ := requests
      exact ih _ ⟨Prod.map change id world, writes, unhooks, remarks⟩
  | write request next ih =>
      obtain ⟨world, writes, unhooks, remarks⟩ := requests
      have unseen (kept : Bool) : actsIn ((Sighting.write request kept).note world).2 =
          actsIn world.2 := (actsIn_append _ _).trans (List.append_nil _)
      rw [watched, run]
      split
      next =>
        generalize remarks.push _ = noted
        have further := ih false ⟨(Sighting.write request false).note world, writes, unhooks, noted⟩
        rwa [unseen] at further
      next =>
        have further := ih true ⟨(Sighting.write request true).note world, writes.push request,
          unhooks, remarks⟩
        rwa [unseen] at further
  | unhook handle next ih =>
      obtain ⟨world, writes, unhooks, remarks⟩ := requests
      obtain ⟨asked, asks, seen⟩ := ih ⟨(Sighting.unhook handle).note world, writes,
        unhooks.push handle, remarks⟩
      refine ⟨handle :: asked, asks.trans ?_, seen.trans ?_⟩
      · rw [Array.toList_push, List.append_assoc, List.singleton_append]
      · rw [Sighting.note, actsIn_append, List.append_assoc]
        rfl
  | remark entry next ih =>
      obtain ⟨world, writes, unhooks, remarks⟩ := requests
      exact ih ⟨world, writes, unhooks, remarks.push entry⟩

/-- A watched callback is seen to be called, and then to ask for what it asks for. -/
theorem Program.acts_call (view : HookView) (limit : Nat) {sighting : Sighting} {handle : Nat}
    (tells : sighting.act? = some (.call handle)) (program : Program σ α)
    (requests : Requests (σ × List Sighting)) :
    ∃ asked, ((world sighting.note fun _ => program.watched).run view limit
        requests).2.unhooks.toList = requests.unhooks.toList ++ asked ∧
      actsIn ((world sighting.note fun _ => program.watched).run view limit
        requests).2.world.2 = actsIn requests.world.2 ++ .call handle :: asked.map .unhook := by
  obtain ⟨state, writes, unhooks, remarks⟩ := requests
  obtain ⟨asked, asks, seen⟩ :=
    program.acts_run view limit ⟨sighting.note state, writes, unhooks, remarks⟩
  refine ⟨asked, asks, seen.trans ?_⟩
  have called : actsIn [sighting] = [.call handle] := by
    rw [actsIn, List.filterMap_cons_some tells]
    rfl
  rw [Sighting.note, actsIn_append, called, List.append_assoc]
  rfl

namespace Pipeline

variable {pipeline : Pipeline σ} {passage : Passage σ} {hook : Hook σ} {code : UInt16}

/-! ## One hook -/

namespace Passage

theorem world_judge (passage : Passage σ) (verdict : Verdict) :
    (passage.judge verdict).requests.world = passage.requests.world := by
  cases verdict <;> rfl

/-- That a hook has run leaves the world alone. -/
theorem world_finish (passage : Passage σ) (hook : Hook σ) :
    (passage.finish hook).requests.world = passage.requests.world := by
  rw [finish]
  split <;> rfl

/-- However a hook on the bytes ends, that leaves the world alone. -/
theorem world_endRaw (code : UInt16) (hook : Hook σ) (passage : Passage σ)
    (ending : Ending Bytes) :
    (passage.endRaw code hook ending).requests.world = passage.requests.world := by
  cases ending with
  | ok result =>
      rw [endRaw, world_finish, world_judge]
      split <;> rfl
  | error => rw [endRaw, world_finish]; rfl

/-- However a hook on the object ends, that leaves the world alone. -/
theorem world_endParsed (hook : Hook σ) (resolved : Resolved) (passage : Passage σ)
    (ending : Ending Object) :
    (passage.endParsed hook resolved ending).requests.world = passage.requests.world := by
  rw [endParsed.eq_def]
  split
  next => split <;> rw [world_finish] <;> rfl
  next => rw [world_finish, world_judge]
  next => rw [world_finish]; rfl

/-- To read a message leaves the world alone. -/
theorem world_reading (pipeline : Pipeline σ) (hook : Hook σ) (resolved : Resolved)
    (passage : Passage σ) :
    (reading pipeline hook resolved passage).2.requests.world = passage.requests.world := by
  rw [reading]
  split
  next => rfl
  next => rcases resolved.read pipeline.protocol passage.bytes with ⟨_ | _, _⟩ <;> rfl

/-- A watched hook is seen to be called if it is, and to ask for what it asks for. -/
theorem acts_pass (pipeline : Pipeline (σ × List Sighting)) (code : UInt16)
    (passage : Passage (σ × List Sighting)) (hook : Hook σ) :
    (calls pipeline code passage hook.watched = true ∧
      ∃ asked, (pass pipeline code passage hook.watched).dues.2 = passage.dues.2 ++ asked ∧
        actsIn (pass pipeline code passage hook.watched).requests.world.2 =
          actsIn passage.requests.world.2 ++ .call hook.handle :: asked.map .unhook) ∨
    (calls pipeline code passage hook.watched = false ∧
      (pass pipeline code passage hook.watched).requests.world = passage.requests.world) := by
  by_cases admitted : hook.filter.admits passage.flags = true
  · cases callback : hook.callback with
    | raw run =>
        left
        simp only [calls, pass, passWith, Hook.filter_watched, Hook.callback_watched, admitted,
          callback, Callback.watched, if_true, passRaw, dues_endRaw, world_endRaw]
        exact ⟨rfl, Program.acts_call _ _ rfl _ _⟩
    | parsed version run =>
        cases found : pipeline.store.resolve pipeline.protocol (.code code) version with
        | error =>
            right
            simp only [calls, pass, passWith, Hook.filter_watched, Hook.callback_watched, admitted,
              callback, Callback.watched, found, if_true]
            exact ⟨rfl, rfl⟩
        | ok resolved =>
            have same := dues_reading pipeline hook.watched resolved passage
            have still := world_reading pipeline hook.watched resolved passage
            rcases known : reading pipeline hook.watched resolved passage with ⟨_ | object, after⟩
            all_goals rw [known] at same still
            · right
              simp only [calls, pass, passWith, Hook.filter_watched, Hook.callback_watched,
                admitted, callback, Callback.watched, found, known, if_true]
              exact ⟨rfl, still⟩
            · left
              simp only [calls, pass, passWith, Hook.filter_watched, Hook.callback_watched,
                admitted, callback, Callback.watched, found, known, if_true, passParsed,
                dues_endParsed, world_endParsed, ← same, ← still]
              exact ⟨rfl, Program.acts_call _ _ rfl _ _⟩
  · right
    rw [calls, pass, passWith, Hook.filter_watched, if_neg admitted,
      Bool.eq_false_of_not_eq_true admitted]
    exact ⟨rfl, rfl⟩

/-- Watched or not, the same callbacks are called. -/
theorem calls_watched (pipeline : Pipeline σ) (code : UInt16) (passage : Passage σ)
    (hook : Hook σ) (later seen : List Sighting) :
    calls (pipeline.watched later) code (passage.watched seen) hook.watched =
      calls pipeline code passage hook := by
  rw [calls, calls, Hook.filter_watched, flags_watched, Hook.callback_watched]
  cases hook.callback with
  | raw run => rfl
  | parsed version run =>
      simp only [Callback.watched, store_watched, protocol_watched, reading_watched]

end Passage

/-- What the visit of a hook does: it is called and asks for hooks to be removed, or nothing. -/
def Visit.acts (visit : Visit σ) : List Act :=
  if visit.called then .call visit.hook.handle :: visit.asked.map .unhook else []

/-- Of what is seen of a visit, `tell` tells what `shown` says. -/
def Tells (tell : Sighting → Option β) (shown : Visit σ → List β) : Prop :=
  ∀ (pipeline : Pipeline σ) code passage hook later seen, ∃ now,
    Passage.pass (pipeline.watched later) code (passage.watched seen) hook.watched =
        (Passage.pass pipeline code passage hook).watched now ∧
      now.filterMap tell = seen.filterMap tell ++ shown ⟨pipeline, code, hook, passage⟩

/-- What hooks do is told by what is seen of them. -/
theorem tells_acts : Tells Sighting.act? (Visit.acts : Visit σ → List Act) := by
  intro pipeline code passage hook later seen
  obtain ⟨now, same⟩ := watches_pass pipeline code passage hook later seen
  refine ⟨now, same, ?_⟩
  have log := Passage.acts_pass (pipeline.watched later) code (passage.watched seen) hook
  rw [same, Passage.calls_watched] at log
  rcases log with ⟨called, asked, asks, shown⟩ | ⟨idle, unseen⟩
  · have further : Visit.asked ⟨pipeline, code, hook, passage⟩ = asked := by
      have dues : (Passage.pass pipeline code passage hook).dues.2 = passage.dues.2 ++ asked := asks
      rw [Visit.asked, Visit.left, dues, List.drop_left]
    rw [Visit.acts, Visit.called, if_pos called, further]
    exact shown
  · rw [Visit.acts, Visit.called, if_neg (by simp [idle]), List.append_nil]
    exact congrArg (fun world => actsIn world.2) unseen

/-! ## One message -/

section Told

variable {tell : Sighting → Option β} {shown : Visit σ → List β}

/-- Of a schedule is seen what its visits show, in order. -/
theorem foldl_passEntry_watched (tells : Tells tell shown) (pipeline : Pipeline σ) (code : UInt16)
    (entries : List (Option UInt16 × Nat)) (passage : Passage σ) (later seen : List Sighting) :
    ∃ now, entries.foldl (passEntry Passage.pass (pipeline.watched later) code)
          (passage.watched seen) =
        (entries.foldl (passEntry Passage.pass pipeline code) passage).watched now ∧
      now.filterMap tell =
        seen.filterMap tell ++ (visitsAlong pipeline code passage entries).flatMap shown := by
  induction entries generalizing passage seen with
  | nil => exact ⟨seen, rfl, (List.append_nil _).symm⟩
  | cons entry rest ih =>
      have found : (pipeline.watched later).table.get? entry.1 entry.2 =
          (pipeline.table.get? entry.1 entry.2).map Hook.watched :=
        HookTable.get?_watched pipeline.table entry.1 entry.2
      rw [List.foldl_cons, List.foldl_cons, visitsAlong, passEntry, passEntry, found]
      cases pipeline.table.get? entry.1 entry.2 with
      | none => exact ih passage seen
      | some hook =>
          obtain ⟨between, same, first⟩ := tells pipeline code passage hook later seen
          obtain ⟨now, last, others⟩ := ih (Passage.pass pipeline code passage hook) between
          refine ⟨now, ?_, ?_⟩
          · rw [Option.map_some]
            dsimp only
            rw [same, last]
          · rw [others, first, List.append_assoc, Option.map_some, Option.toList_some,
              List.singleton_append, List.flatMap_cons]

namespace Handling

/-- What is told of the hooks that a message passes, in order. -/
abbrev told (shown : Visit σ → List β) (handling : Handling σ) : List β :=
  handling.visits.flatMap shown

/-- What the hooks do that a message passes, in order. -/
def acts (handling : Handling σ) : List Act :=
  handling.visits.flatMap Visit.acts

/-- Of the hooks that a message passes is seen what their visits show. -/
theorem passHooks_watched (tells : Tells tell shown) (handling : Handling σ)
    (seen : List Sighting) :
    ∃ now, (handling.pipeline.watched seen).passHooks Passage.pass handling.bytes
          handling.incoming handling.fake =
        (handling.outcome, handling.passed.watched now, handling.requests) ∧
      now.filterMap tell = seen.filterMap tell ++ handling.told shown := by
  rw [outcome, passed, requests, told, visits, passHooks, passHooks]
  cases Frame.Header.read handling.bytes with
  | error => exact ⟨seen, rfl, (List.append_nil _).symm⟩
  | ok header =>
      have scheduled : (handling.pipeline.watched seen).table.schedule header.code =
          handling.pipeline.table.schedule header.code :=
        HookTable.schedule_watched handling.pipeline.table header.code
      dsimp only
      rw [scheduled]
      by_cases empty : (handling.pipeline.table.schedule header.code).isEmpty = true
      · rw [if_pos empty, if_pos empty, List.isEmpty_iff.mp empty]
        exact ⟨seen, rfl, (List.append_nil _).symm⟩
      · rw [if_neg empty, if_neg empty]
        obtain ⟨now, same, added⟩ := foldl_passEntry_watched tells handling.pipeline header.code
          (handling.pipeline.table.schedule header.code)
          ⟨handling.bytes, ⟨handling.fake, handling.incoming, false, false⟩, [], [],
            ⟨handling.pipeline.world, #[], #[], handling.pipeline.remarks⟩⟩ seen seen
        refine ⟨now, ?_, added⟩
        rw [passScheduled, scheduled]
        exact (congrArg (handling.pipeline.watched seen).conclude same).trans
          (conclude_watched handling.pipeline _ seen now)

end Handling

/-! ## All that a message causes -/

/-- A way to handle messages does what it does when callbacks are watched, and what is told of what
is seen is what `shown` says of the visits of the messages. -/
def Shows (tell : Sighting → Option β) (shown : Visit σ → List β)
    (handle : Pipeline σ → Bytes → Bool → Bool → Outcome × Pipeline σ)
    (watching : Pipeline (σ × List Sighting) → Bytes → Bool → Bool →
      Outcome × Pipeline (σ × List Sighting))
    (handling : Pipeline σ → Bytes → Bool → Bool → Handling σ) : Prop :=
  ∀ pipeline seen bytes incoming fake, ∃ now,
    watching (pipeline.watched seen) bytes incoming fake =
        ((handle pipeline bytes incoming fake).1,
          (handle pipeline bytes incoming fake).2.watched now) ∧
      now.filterMap tell = seen.filterMap tell ++
        (handling pipeline bytes incoming fake).begun.flatMap (Handling.told shown)

variable {handle : Pipeline σ → Bytes → Bool → Bool → Outcome × Pipeline σ}
  {watching : Pipeline (σ × List Sighting) → Bytes → Bool → Bool →
    Outcome × Pipeline (σ × List Sighting)}
  {handling : Pipeline σ → Bytes → Bool → Bool → Handling σ}

/-- Of a message that is written is seen what is shown of all that it causes. -/
theorem Shows.writeRawWith (shows : Shows tell shown handle watching handling)
    (pipeline : Pipeline σ) (seen : List Sighting) (direction : Direction) (bytes : Bytes) :
    ∃ now, (pipeline.watched seen).writeRawWith watching direction bytes =
        ((pipeline.writeRawWith handle direction bytes).1,
          (pipeline.writeRawWith handle direction bytes).2.watched now) ∧
      now.filterMap tell = seen.filterMap tell ++
        (handling pipeline bytes direction.isIncoming true).begun.flatMap
          (Handling.told shown) := by
  obtain ⟨now, same, added⟩ := shows pipeline seen bytes direction.isIncoming true
  refine ⟨now, ?_, added⟩
  rw [Pipeline.writeRawWith, Pipeline.writeRawWith, same]
  rcases handle pipeline bytes direction.isIncoming true with ⟨_ | _, _⟩ <;> rfl

/-- Of requests one after the other is seen what is shown of the messages that they cause. -/
theorem Shows.foldl_performWith (shows : Shows tell shown handle watching handling)
    (requests : List WriteRequest) (pipeline : Pipeline σ) (seen : List Sighting) :
    ∃ now, requests.foldl (performWith watching) (pipeline.watched seen) =
        (requests.foldl (performWith handle) pipeline).watched now ∧
      now.filterMap tell = seen.filterMap tell ++
        (allBegun (causedAlong handling handle pipeline requests)).flatMap
          (Handling.told shown) := by
  induction requests generalizing pipeline seen with
  | nil => exact ⟨seen, rfl, (List.append_nil _).symm⟩
  | cons request rest ih =>
      have likewise : request.message? (pipeline.watched seen) = request.message? pipeline := by
        cases request <;> rfl
      rw [causedAlong, List.foldl_cons, List.foldl_cons]
      cases written : request.message? pipeline with
      | none =>
          have refused : (pipeline.watched seen).performWith watching request =
              (pipeline.performWith handle request).watched seen := by
            cases request with
            | raw => cases written
            | message direction name version object =>
                rw [WriteRequest.message?] at written
                cases encoded : pipeline.store.write pipeline.protocol (.name name) version object
                with
                | error =>
                    simp only [performWith, writeWith, store_watched, protocol_watched, encoded]
                    rfl
                | ok =>
                    rw [encoded] at written
                    cases written
          rw [refused]
          exact ih _ seen
      | some message =>
          obtain ⟨direction, bytes⟩ := message
          obtain ⟨between, same, first⟩ := shows.writeRawWith pipeline seen direction bytes
          obtain ⟨now, last, others⟩ := ih (pipeline.performWith handle request) between
          refine ⟨now, ?_, ?_⟩
          · rw [performWith_of_some (likewise.trans written), same,
              ← performWith_of_some written, last]
          · rw [others, first, List.append_assoc, allBegun, List.flatMap_append]

/-- Of a message that is handled is seen what is shown of it, and then what is shown of all that it
causes. -/
theorem shows_handleWith (tells : Tells tell shown)
    {flush : Pipeline σ → List WriteRequest → Pipeline σ}
    {flushing : Pipeline (σ × List Sighting) → List WriteRequest → Pipeline (σ × List Sighting)}
    {caused : Pipeline σ → List WriteRequest → List (Handling σ)}
    (flushed : ∀ (pipeline : Pipeline σ) seen requests, ∃ now,
      flushing (pipeline.watched seen) requests = (flush pipeline requests).watched now ∧
        now.filterMap tell = seen.filterMap tell ++
          (allBegun (caused pipeline requests)).flatMap (Handling.told shown)) :
    Shows tell shown (handleWith Passage.pass flush) (handleWith Passage.pass flushing)
      (handlingWith caused) := by
  intro pipeline seen bytes incoming fake
  obtain ⟨between, same, first⟩ :=
    (handlingWith caused pipeline bytes incoming fake).passHooks_watched tells seen
  obtain ⟨now, last, others⟩ := flushed
    (handlingWith caused pipeline bytes incoming fake).passed between
    (handlingWith caused pipeline bytes incoming fake).requests
  refine ⟨now, ?_, ?_⟩
  · exact (congrArg (fun passed => (passed.1, flushing passed.2.1 passed.2.2)) same).trans
      (congrArg (Prod.mk _) last)
  · rw [others, first, begun_eq, List.flatMap_cons, List.append_assoc]
    rfl

/-- Of what hooks asked for is seen what is shown of all that they caused, at any depth of
nesting. -/
theorem flush_watched (tells : Tells tell shown) (levels : Nat) (pipeline : Pipeline σ)
    (seen : List Sighting) (requests : List WriteRequest) :
    ∃ now, flush Passage.pass levels (pipeline.watched seen) requests =
        (flush Passage.pass levels pipeline requests).watched now ∧
      now.filterMap tell = seen.filterMap tell ++
        (allBegun (caused levels pipeline requests)).flatMap (Handling.told shown) := by
  induction levels generalizing pipeline seen requests with
  | zero => cases requests <;> exact ⟨seen, rfl, (List.append_nil _).symm⟩
  | succ levels ih =>
      cases requests with
      | nil => exact ⟨seen, rfl, (List.append_nil _).symm⟩
      | cons request rest =>
          obtain ⟨now, same, added⟩ := (shows_handleWith tells ih).foldl_performWith
            (request :: rest) (pipeline.deeper 1) seen
          exact ⟨now, congrArg outer same, added⟩

/-- **Watching shows what hooks do** and changes nothing else: what is told of what is seen while a
message is handled is told of its visits, and then of the visits of the messages that it causes. -/
theorem shows_handle (tells : Tells tell shown) :
    Shows tell shown Pipeline.handle Pipeline.handle Pipeline.handling := by
  intro pipeline seen bytes incoming fake
  exact shows_handleWith tells (flush_watched tells pipeline.levels) pipeline seen bytes incoming
    fake

/-- **What is seen is what is shown.** What the watched callbacks tell of a message is what the
visits of its tree say. -/
theorem told_handle (tells : Tells tell shown) (pipeline : Pipeline σ) (bytes : Bytes)
    (incoming fake : Bool) :
    (pipeline.sightings Pipeline.handle bytes incoming fake).filterMap tell =
      (pipeline.handling bytes incoming fake).begun.flatMap (Handling.told shown) := by
  obtain ⟨now, same, added⟩ := shows_handle tells pipeline [] bytes incoming fake
  rw [sightings, same]
  exact added

end Told

/-- What is seen while a message is handled is what its hooks do, and then what the hooks of the
messages do that it causes. -/
theorem acts_handle (pipeline : Pipeline σ) (bytes : Bytes) (incoming fake : Bool) :
    actsIn (pipeline.sightings handle bytes incoming fake) =
      (pipeline.handling bytes incoming fake).begun.flatMap Handling.acts :=
  told_handle tells_acts pipeline bytes incoming fake

end Pipeline

end Relay
