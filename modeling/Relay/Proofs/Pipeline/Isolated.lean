import Relay.Proofs.Pipeline.Apart

/-! # Failing hooks are isolated

A hook that shares nothing with the others, and that fails whenever it is called without having
asked for anything, could as well not be there (`Relay.Pipeline.isolated_handle`). A pipeline with
the hook goes alongside one without it (`Relay.Pipeline.Alongside`) while a message passes its hooks
(`Relay.Pipeline.Alongside.passHooks`), while those are handled that it causes
(`Relay.Pipeline.Alongside.flush`), and so over the whole call. -/

namespace Relay.Pipeline

variable {σ κ ρ : Type} {number : Nat} {own : κ} {code : UInt16}

/-- A pipeline without the hook with the number goes alongside one with it: but for remarks they
differ in this hook and in its part of the world only. -/
structure Alongside (number : Nat) (own : κ) (one other : Pipeline (κ × ρ)) : Prop where
  bare : other.bare =
    { one.bare with table := one.table.remove number, world := (own, one.world.2) }
  inOrder : one.table.InOrder
  apart : ∀ entry ∈ one.table.registered, entry.2.Apart number

variable {one other : Pipeline (κ × ρ)} {passage again : Passage (κ × ρ)}

/-- Every other hook is found under its own handle, and works on its own part of the world. -/
theorem Alongside.get? (alongside : Alongside number own one other) {group : Option UInt16}
    {hook : Hook (κ × ρ)} {wanted : Nat} (found : one.table.get? group wanted = some hook) :
    hook.handle = wanted ∧ hook.Apart number := by
  refine ⟨by simpa using List.find?_some found, alongside.apart (group, hook) ?_⟩
  exact (one.table.group_sublist group).subset
    (List.mem_map_of_mem (List.mem_of_find?_eq_some found))

/-- Without the hook nothing else is missing, and only remarks can differ. -/
theorem Alongside.exists_remarks (alongside : Alongside number own one other) : ∃ remarks,
    other = { one with
      table := one.table.remove number, world := (own, one.world.2), remarks := remarks } := by
  refine ⟨other.remarks, ?_⟩
  have bare := alongside.bare
  cases one
  cases other
  cases bare
  rfl

section Entries

variable {σ : Type} {pipeline : Pipeline σ} {passage : Passage σ} {entry : Option UInt16 × Nat}
  {rest : List (Option UInt16 × Nat)}

/-- A hook that is not there is skipped. -/
theorem passEntry_of_none (absent : pipeline.table.get? entry.1 entry.2 = none) :
    passEntry Passage.pass pipeline code passage entry = passage := by
  unfold passEntry
  rw [absent]

/-- A hook that is there is passed. -/
theorem passEntry_of_some {hook : Hook σ}
    (found : pipeline.table.get? entry.1 entry.2 = some hook) :
    passEntry Passage.pass pipeline code passage entry =
      Passage.pass pipeline code passage hook := by
  unfold passEntry
  rw [found]

/-- A hook that is not there is not visited. -/
theorem visitsAlong_of_none (absent : pipeline.table.get? entry.1 entry.2 = none) :
    visitsAlong pipeline code passage (entry :: rest) =
      visitsAlong pipeline code passage rest := by
  rw [visitsAlong, passEntry_of_none absent, absent]
  rfl

/-- A hook that is there is visited, and then those behind it. -/
theorem visitsAlong_of_some {hook : Hook σ}
    (found : pipeline.table.get? entry.1 entry.2 = some hook) :
    visitsAlong pipeline code passage (entry :: rest) =
      ⟨pipeline, code, hook, passage⟩ ::
        visitsAlong pipeline code (Passage.pass pipeline code passage hook) rest := by
  rw [visitsAlong, passEntry_of_some found, found]
  rfl

end Entries

/-- **Without a hook that fails the others do the same.** Along a schedule the message stays the
same, and all other callbacks are called on the same. -/
theorem Alongside.foldl_passEntry (alongside : Alongside number own one other)
    (same : Passage.Matches number own one code passage again)
    (entries : List (Option UInt16 × Nat))
    (fails : ∀ visit ∈ visitsAlong one code passage entries,
      visit.hook.handle = number → visit.Fails) :
    Passage.Matches number own one code
        (entries.foldl (passEntry Passage.pass one code) passage)
        ((entries.filter (·.2 != number)).foldl (passEntry Passage.pass other code) again) ∧
      (visitsAlong other code again (entries.filter (·.2 != number))).flatMap
          (Visit.callsBut number) =
        (visitsAlong one code passage entries).flatMap (Visit.callsBut number) := by
  induction entries generalizing passage again with
  | nil => exact ⟨same, rfl⟩
  | cons entry rest ih =>
      obtain ⟨remarks, rfl⟩ := alongside.exists_remarks
      have others (differs : entry.2 ≠ number) :
          (one.table.remove number).get? entry.1 entry.2 = one.table.get? entry.1 entry.2 := by
        rw [alongside.inOrder.remove_eq]
        refine HookTable.get?_keeping (fun hook named => ?_) one.table entry.1
        rw [named, bne_iff_ne]
        exact differs
      cases found : one.table.get? entry.1 entry.2 with
      | none =>
          rw [visitsAlong_of_none found] at fails ⊢
          rw [List.foldl_cons, passEntry_of_none found]
          by_cases itself : entry.2 = number
          · rw [List.filter_cons_of_neg (by simpa using itself)]
            exact ih same fails
          · have absent := (others itself).trans found
            rw [List.filter_cons_of_pos (by simpa using itself), List.foldl_cons,
              passEntry_of_none absent, visitsAlong_of_none absent]
            exact ih same fails
      | some hook =>
          obtain ⟨named, apart⟩ := alongside.get? found
          rw [visitsAlong_of_some found] at fails ⊢
          rw [List.foldl_cons, passEntry_of_some found]
          obtain ⟨first, later⟩ := List.forall_mem_cons.mp fails
          by_cases itself : entry.2 = number
          · obtain rfl : hook.handle = number := named.trans itself
            obtain ⟨after, calls⟩ := ih (same.skip (first rfl) apart) later
            rw [List.filter_cons_of_neg (by simpa using itself)]
            refine ⟨after, ?_⟩
            rw [List.flatMap_cons, Visit.callsBut_self, List.nil_append]
            exact calls
          · have known := (others itself).trans found
            have differs : hook.handle ≠ number := fun same => itself (named.symm.trans same)
            rw [List.filter_cons_of_pos (by simpa using itself), List.foldl_cons,
              passEntry_of_some known, visitsAlong_of_some known]
            obtain ⟨after, calls⟩ := ih (same.pass differs apart) later
            have first : Visit.callsBut number ⟨_, code, hook, again⟩ =
                Visit.callsBut number ⟨one, code, hook, passage⟩ :=
              congrArg (fun call : Option Sighting => Relay.callsBut number call.toList)
                (same.call? hook)
            refine ⟨after, ?_⟩
            rw [List.flatMap_cons, List.flatMap_cons]
            exact congrArg₂ (· ++ ·) first calls

/-- Had a hook not been there, the removals leave what they leave but for the hook. -/
theorem foldl_remove_without {table : HookTable σ} (inOrder : table.InOrder) (number : Nat)
    (finished asked : List Nat) :
    (finished.filter (· != number) ++ asked).foldl HookTable.remove (table.remove number) =
      ((finished ++ asked).foldl HookTable.remove table).remove number := by
  have first := (HookTable.Part.remove table number).inOrder inOrder
  have last := (HookTable.Part.foldl_remove (finished ++ asked) table).inOrder inOrder
  rw [last.remove_eq, inOrder.foldl_remove_eq, first.foldl_remove_eq, inOrder.remove_eq,
    HookTable.keeping_keeping, HookTable.keeping_keeping]
  congr 1
  funext hook
  by_cases own : hook.handle = number
  · simp [own]
  · have differs : (hook.handle != number) = true := bne_iff_ne.mpr own
    simp [differs]

namespace Alongside

/-- When a message has passed its hooks, the pipelines go on alongside. -/
theorem conclude (alongside : Alongside number own one other)
    (same : Passage.Matches number own one code passage again) :
    (other.conclude again).1 = (one.conclude passage).1 ∧
      Alongside number own (one.conclude passage).2.1 (other.conclude again).2.1 ∧
      (other.conclude again).2.2 = (one.conclude passage).2.2 := by
  obtain ⟨remarks, rfl⟩ := alongside.exists_remarks
  obtain ⟨readings, told, rfl⟩ := Passage.exists_of_bare_eq same.bare.symm
  refine ⟨rfl, ⟨?_, ?_, ?_⟩, rfl⟩
  · rw [Pipeline.conclude, Pipeline.conclude, Pipeline.bare, Pipeline.bare]
    dsimp only [Passage.without, Requests.owning]
    rw [foldl_remove_without alongside.inOrder]
  · exact (HookTable.Part.foldl_remove _ _).inOrder alongside.inOrder
  · exact fun entry member => alongside.apart entry
      ((HookTable.Part.foldl_remove _ _).registered.subset member)

theorem remark (alongside : Alongside number own one other) (entry noted : Entry) :
    Alongside number own (one.remark entry) (other.remark noted) :=
  ⟨alongside.bare, alongside.inOrder, alongside.apart⟩

/-- A message passes its hooks alongside if the hook with the number fails. -/
theorem passHooks (alongside : Alongside number own one other) (bytes : Bytes)
    (incoming fake : Bool)
    (fails : ∀ visit ∈ (one.handling bytes incoming fake).visits,
      visit.hook.handle = number → visit.Fails) :
    (other.passHooks Passage.pass bytes incoming fake).1 =
        (one.passHooks Passage.pass bytes incoming fake).1 ∧
      Alongside number own (one.passHooks Passage.pass bytes incoming fake).2.1
        (other.passHooks Passage.pass bytes incoming fake).2.1 ∧
      (other.passHooks Passage.pass bytes incoming fake).2.2 =
        (one.passHooks Passage.pass bytes incoming fake).2.2 ∧
      (other.handling bytes incoming fake).told (Visit.callsBut number) =
        (one.handling bytes incoming fake).told (Visit.callsBut number) := by
  cases front : Frame.Header.read bytes with
  | error =>
      rw [Pipeline.passHooks, Pipeline.passHooks, Handling.told, Handling.told,
        visits_of_short front, visits_of_short front, front]
      exact ⟨rfl, alongside.remark _ _, rfl, rfl⟩
  | ok header =>
      rw [passHooks_of_front front, passHooks_of_front front, Handling.told, Handling.told,
        visits_of_front front, visits_of_front front]
      rw [visits_of_front front] at fails
      have scheduled : other.table.schedule header.code =
          (one.table.schedule header.code).filter (·.2 != number) := by
        obtain ⟨remarks, rfl⟩ := alongside.exists_remarks
        dsimp only
        rw [alongside.inOrder.remove_eq]
        exact alongside.inOrder.schedule_keeping (· != number) header.code
      have arrive : Passage.Matches number own one header.code (.arriving one bytes incoming fake)
          (.arriving other bytes incoming fake) := by
        obtain ⟨remarks, rfl⟩ := alongside.exists_remarks
        exact ⟨rfl, Passage.fresh_of_nil rfl, Passage.fresh_of_nil rfl⟩
      obtain ⟨same, calls⟩ := alongside.foldl_passEntry arrive _ fails
      rw [← scheduled] at same calls
      obtain ⟨outcome, after, writes⟩ := alongside.conclude same
      exact ⟨outcome, after, writes, calls⟩

end Alongside

/-! ## All that a message causes -/

/-- The hook with the number fails whenever it is called by one of some messages. -/
def FailsIn (number : Nat) (handlings : List (Handling σ)) : Prop :=
  ∀ handling ∈ handlings, ∀ visit ∈ handling.visits, visit.hook.handle = number → visit.Fails

/-- What hooks other than the one with the number are called on by some messages, in order. -/
def callsIn (number : Nat) (handlings : List (Handling σ)) : List Sighting :=
  handlings.flatMap (Handling.told (Visit.callsBut number))

namespace Alongside

/-- The same message can be put into both outboxes. -/
theorem send (alongside : Alongside number own one other) (message : Outbound) :
    Alongside number own { one with outbox := one.outbox.push message }
      { other with outbox := other.outbox.push message } where
  bare := congrArg (fun pipeline : Pipeline (κ × ρ) =>
    { pipeline with outbox := pipeline.outbox.push message }) alongside.bare
  inOrder := alongside.inOrder
  apart := alongside.apart

theorem deeper (alongside : Alongside number own one other) :
    Alongside number own (one.deeper 1) (other.deeper 1) :=
  ⟨congrArg (Pipeline.deeper 1) alongside.bare, alongside.inOrder, alongside.apart⟩

theorem outer (alongside : Alongside number own one other) :
    Alongside number own one.outer other.outer :=
  ⟨congrArg Pipeline.outer alongside.bare, alongside.inOrder, alongside.apart⟩

/-- A request comes to the same message, with the hook and without it. -/
theorem message? (alongside : Alongside number own one other) (request : WriteRequest) :
    request.message? other = request.message? one := by
  obtain ⟨remarks, rfl⟩ := alongside.exists_remarks
  cases request <;> rfl

end Alongside

/-- A way to handle messages goes on alongside without the hook with the number, and calls the
others on the same, if the hook fails. -/
def Isolates (number : Nat) (own : κ)
    (answer : Pipeline (κ × ρ) → Bytes → Bool → Bool → Outcome × Pipeline (κ × ρ))
    (handling : Pipeline (κ × ρ) → Bytes → Bool → Bool → Handling (κ × ρ)) : Prop :=
  ∀ one other, Alongside number own one other → ∀ bytes incoming fake,
    FailsIn number (handling one bytes incoming fake).begun →
      (answer other bytes incoming fake).1 = (answer one bytes incoming fake).1 ∧
        Alongside number own (answer one bytes incoming fake).2
          (answer other bytes incoming fake).2 ∧
        callsIn number (handling other bytes incoming fake).begun =
          callsIn number (handling one bytes incoming fake).begun

section Nested

variable {answer : Pipeline (κ × ρ) → Bytes → Bool → Bool → Outcome × Pipeline (κ × ρ)}
  {handling : Pipeline (κ × ρ) → Bytes → Bool → Bool → Handling (κ × ρ)}

/-- Writing a message goes on alongside if handling it does. -/
theorem Isolates.writeRawWith (isolates : Isolates number own answer handling)
    (alongside : Alongside number own one other) (direction : Direction) (bytes : Bytes)
    (fails : FailsIn number (handling one bytes direction.isIncoming true).begun) :
    Alongside number own (one.writeRawWith answer direction bytes).2
      (other.writeRawWith answer direction bytes).2 := by
  obtain ⟨outcome, after, _⟩ := isolates one other alongside bytes direction.isIncoming true fails
  unfold Pipeline.writeRawWith
  revert outcome after
  rcases answer one bytes direction.isIncoming true with ⟨outcome, left⟩
  rcases answer other bytes direction.isIncoming true with ⟨ending, found⟩
  rintro rfl after
  cases ending with
  | forward bytes => exact after.send ⟨direction, bytes⟩
  | dropped => exact after

/-- Requests one after the other go on alongside, and call other hooks on the same. -/
theorem Isolates.foldl_performWith (isolates : Isolates number own answer handling)
    (alongside : Alongside number own one other) (requests : List WriteRequest)
    (fails : FailsIn number (allBegun (causedAlong handling answer one requests))) :
    Alongside number own (requests.foldl (performWith answer) one)
        (requests.foldl (performWith answer) other) ∧
      callsIn number (allBegun (causedAlong handling answer other requests)) =
        callsIn number (allBegun (causedAlong handling answer one requests)) := by
  induction requests generalizing one other with
  | nil => exact ⟨alongside, rfl⟩
  | cons request rest ih =>
      have likewise := alongside.message? request
      rw [causedAlong] at fails
      rw [causedAlong, causedAlong, List.foldl_cons, List.foldl_cons, likewise]
      cases written : request.message? one with
      | none =>
          rw [written] at likewise fails
          obtain ⟨entry, same⟩ : ∃ entry, one.performWith answer request = one.remark entry :=
            performWith_of_none written
          obtain ⟨noted, again⟩ : ∃ entry, other.performWith answer request = other.remark entry :=
            performWith_of_none likewise
          rw [same] at fails ⊢
          rw [again]
          exact ih (alongside.remark entry noted) fails
      | some message =>
          obtain ⟨direction, bytes⟩ := message
          rw [written] at likewise fails
          dsimp only at fails ⊢
          rw [allBegun] at fails
          obtain ⟨first, later⟩ := List.forall_mem_append.mp fails
          obtain ⟨_, _, calls⟩ := isolates one other alongside bytes direction.isIncoming true first
          have after := isolates.writeRawWith alongside direction bytes first
          rw [← performWith_of_some written, ← performWith_of_some likewise] at after
          obtain ⟨last, others⟩ := ih after later
          refine ⟨last, ?_⟩
          rw [allBegun, allBegun, callsIn, callsIn, List.flatMap_append, List.flatMap_append]
          exact congrArg₂ (· ++ ·) calls others

/-- Handling a message goes on alongside if doing what its hooks asked for does. -/
theorem isolates_handleWith {flush : Pipeline (κ × ρ) → List WriteRequest → Pipeline (κ × ρ)}
    {caused : Pipeline (κ × ρ) → List WriteRequest → List (Handling (κ × ρ))}
    (flushed : ∀ one other, Alongside number own one other → ∀ requests,
      FailsIn number (allBegun (caused one requests)) →
        Alongside number own (flush one requests) (flush other requests) ∧
          callsIn number (allBegun (caused other requests)) =
            callsIn number (allBegun (caused one requests))) :
    Isolates number own (handleWith Passage.pass flush) (handlingWith caused) := by
  intro one other alongside bytes incoming fake fails
  rw [begun_eq] at fails
  obtain ⟨first, later⟩ := List.forall_mem_cons.mp fails
  obtain ⟨outcome, passed, writes, calls⟩ := alongside.passHooks bytes incoming fake first
  obtain ⟨after, others⟩ := flushed _ _ passed
    (one.passHooks Passage.pass bytes incoming fake).2.2 later
  refine ⟨outcome, ?_, ?_⟩
  · change Alongside number own _ (flush _ (other.passHooks Passage.pass bytes incoming fake).2.2)
    rw [writes]
    exact after
  · rw [begun_eq (handlingWith caused other bytes incoming fake),
      begun_eq (handlingWith caused one bytes incoming fake), callsIn, callsIn,
      List.flatMap_cons, List.flatMap_cons]
    refine congrArg₂ (· ++ ·) calls ?_
    change callsIn number (allBegun (caused _
      (other.passHooks Passage.pass bytes incoming fake).2.2)) = _
    rw [writes]
    exact others

/-- Doing what hooks asked for goes on alongside, at any depth of nesting. -/
theorem Alongside.flush (levels : Nat) (alongside : Alongside number own one other)
    (requests : List WriteRequest)
    (fails : FailsIn number (allBegun (caused levels one requests))) :
    Alongside number own (Pipeline.flush Passage.pass levels one requests)
        (Pipeline.flush Passage.pass levels other requests) ∧
      callsIn number (allBegun (caused levels other requests)) =
        callsIn number (allBegun (caused levels one requests)) := by
  induction levels generalizing one other requests with
  | zero =>
      cases requests with
      | nil => exact ⟨alongside, rfl⟩
      | cons request rest => exact ⟨alongside.remark _ _, rfl⟩
  | succ levels ih =>
      cases requests with
      | nil => exact ⟨alongside, rfl⟩
      | cons request rest =>
          have nested := isolates_handleWith fun _ _ alongside requests => ih alongside requests
          obtain ⟨after, calls⟩ :=
            Isolates.foldl_performWith nested alongside.deeper (request :: rest) fails
          exact ⟨after.outer, calls⟩

end Nested

/-- A message is handled alongside if the hook with the number fails whenever it is called. -/
theorem Alongside.handle (alongside : Alongside number own one other) (bytes : Bytes)
    (incoming fake : Bool) (fails : FailsIn number (one.handling bytes incoming fake).begun) :
    (other.handle bytes incoming fake).1 = (one.handle bytes incoming fake).1 ∧
      Alongside number own (one.handle bytes incoming fake).2
        (other.handle bytes incoming fake).2 ∧
      callsIn number (other.handling bytes incoming fake).begun =
        callsIn number (one.handling bytes incoming fake).begun := by
  have levels : other.levels = one.levels := by
    obtain ⟨remarks, rfl⟩ := alongside.exists_remarks
    rfl
  have isolates := isolates_handleWith fun (first second : Pipeline (κ × ρ))
    (alongside : Alongside number own first second) => alongside.flush one.levels
  rw [Pipeline.handle, Pipeline.handle, Pipeline.handling, levels]
  exact isolates one other alongside bytes incoming fake fails

/-- What holds of a message that is handled by a pipeline with a hook and by one without it. The
message comes to the same (`outcome`), and the other hooks are called on the same while it is
handled, and all that it causes (`calls`). But for remarks, the pipelines differ afterwards in the
hook and in its part of the world only (`left`). If the hook is gone that was there, it is to run
once and was called, or another hook has asked for its removal (`gone`). -/
structure Isolated (number : Nat) (pipeline : Pipeline (κ × ρ)) (bytes : Bytes)
    (incoming fake : Bool) : Prop where
  outcome : ((pipeline.unhook number).2.handle bytes incoming fake).1 =
    (pipeline.handle bytes incoming fake).1
  calls : callsBut number ((pipeline.unhook number).2.sightings handle bytes incoming fake) =
    callsBut number (pipeline.sightings handle bytes incoming fake)
  left : ∃ remarks, ((pipeline.unhook number).2.handle bytes incoming fake).2 =
    { (pipeline.handle bytes incoming fake).2 with
      table := (pipeline.handle bytes incoming fake).2.table.remove number
      world := (pipeline.world.1, (pipeline.handle bytes incoming fake).2.world.2)
      remarks := remarks }
  gone : ∀ entry ∈ pipeline.table.registered, entry.2.handle = number →
    entry ∉ (pipeline.handle bytes incoming fake).2.table.registered →
    ∃ handling ∈ (pipeline.handling bytes incoming fake).begun, ∃ visit ∈ handling.visits,
      visit.called = true ∧ (visit.hook = entry.2 ∧ entry.2.once = true ∨
        visit.hook.handle ≠ number ∧ number ∈ visit.asked)

/-- A pipeline from which a hook is removed goes alongside. -/
theorem Alongside.unhook {pipeline : Pipeline (κ × ρ)} (inOrder : pipeline.table.InOrder)
    (apart : ∀ entry ∈ pipeline.table.registered, entry.2.Apart number) :
    Alongside number pipeline.world.1 pipeline (pipeline.unhook number).2 :=
  ⟨rfl, inOrder, apart⟩

/-- **Failing hooks are isolated.** Whatever was done with a new pipeline, let a hook share nothing
with the others. If it fails whenever it is called while a message is handled, and all that the
message causes, without having asked for anything, then it makes no difference to the message and to
the other hooks that it is there. -/
theorem isolated_handle {store : Store} {protocol : UInt32} {limits : PipelineLimits}
    {world : κ × ρ} {start : Pipeline (κ × ρ)}
    (made : (Pipeline.new store protocol limits world).1 = .ok start)
    (operations : List (Operation (κ × ρ))) (number : Nat)
    (apart : ∀ entry ∈ (runAll operations start).2.table.registered, entry.2.Apart number)
    (bytes : Bytes) (incoming fake : Bool)
    (fails : FailsIn number ((runAll operations start).2.handling bytes incoming fake).begun) :
    Isolated number (runAll operations start).2 bytes incoming fake := by
  have inOrder := inOrder_of_new made operations
  generalize (runAll operations start).2 = pipeline at apart fails inOrder ⊢
  obtain ⟨outcome, after, calls⟩ :=
    (Alongside.unhook inOrder apart).handle bytes incoming fake fails
  constructor
  case outcome => exact outcome
  case calls =>
    rw [calls_handle, calls_handle]
    exact calls
  case left => exact after.exists_remarks
  case gone =>
    intro entry present named gone
    obtain ⟨handling, begins, visit, passes, called, removes⟩ :=
      (threads_handling pipeline bytes incoming fake).exists_removes inOrder present gone
    refine ⟨handling, begins, visit, passes, called, ?_⟩
    rcases removes with own | asked
    · exact .inl own
    · rw [named] at asked
      refine .inr ⟨fun same => ?_, asked⟩
      rw [(fails handling begins visit passes same).2.2] at asked
      cases asked

/-- A new connection that knows one message, where two count. -/
def uncounted : Pipeline (Nat × Nat) :=
  ⟨unhooked.store, 1, .standard, .empty, #[], 0, (0, 0), #[]⟩

/-- A callback that counts and breaks off. -/
def broken : Callback Nat :=
  .raw fun _ _ _ => .world (· + 1) fun _ => .done (.error (.panicked "broken"))

/-- A callback that writes the message again that it is called on. -/
def echo : Callback Nat :=
  .raw fun _ _ bytes => .write (.raw .toServer bytes) fun _ => .done (.ok (.pass, bytes))

/-- A callback that counts. -/
def tally : Callback Nat :=
  .raw fun _ _ bytes => .world (· + 1) fun _ => .done (.ok (.pass, bytes))

/-- A hook that breaks off whenever it is called, and two that have nothing to do with it. -/
def breaking : List (Operation (Nat × Nat)) :=
  [.hook none "*" broken.onFirst { HookOptions.standard with filter := .any },
    .hook none "C_ASK" echo.onSecond .standard,
    .hook none "*" tally.onSecond { HookOptions.standard with filter := .any }]

/-- Two messages are handled, and the hook breaks off at both. -/
theorem isolated_breaking :
    (Pipeline.new uncounted.store 1 .standard (0, 0)).1 = .ok uncounted ∧
      ((runAll breaking uncounted).2.handle #[4, 0, 10, 0] false false).2.world = (2, 2) ∧
      Isolated 1 (runAll breaking uncounted).2 #[4, 0, 10, 0] false false := by
  have made : (Pipeline.new uncounted.store 1 .standard (0, 0)).1 = .ok uncounted := rfl
  have apart : ∀ entry ∈ (runAll breaking uncounted).2.table.registered, entry.2.Apart 1 :=
    List.forall_mem_cons.mpr ⟨.intro broken rfl, List.forall_mem_cons.mpr ⟨.intro tally rfl,
      List.forall_mem_cons.mpr ⟨.intro echo rfl, List.forall_mem_nil _⟩⟩⟩
  have fails : FailsIn 1
      ((runAll breaking uncounted).2.handling #[4, 0, 10, 0] false false).begun := by
    have checked : ((runAll breaking uncounted).2.handling #[4, 0, 10, 0] false false).begun.all
        (fun handling => handling.visits.all fun visit => visit.hook.handle != 1 ||
          visit.verdict?.isNone && visit.written.isEmpty && visit.asked.isEmpty) = true := rfl
    simpa [FailsIn, Visit.Fails, or_iff_not_imp_left, and_assoc] using checked
  exact ⟨made, rfl, isolated_handle made breaking 1 apart _ _ _ fails⟩

end Relay.Pipeline
