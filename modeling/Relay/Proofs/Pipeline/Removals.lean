import Relay.Proofs.Pipeline.History
import Relay.Proofs.Pipeline.Nesting

/-! # Which hooks a message removes

A hook that a message passes is removed when the message has passed, if it is to run once and has
run, and so is every hook whose handle a callback has asked to be removed
(`Relay.Pipeline.Handling.registered_passed`). So a hook that is not there any more after a message,
and all that it has caused, had run or was asked to be removed while one of these messages passed
(`Relay.Pipeline.Handling.exists_visit_of_removed`). -/

namespace Relay

variable {σ α : Type}

/-- What a program asks to be removed comes behind what was asked before. -/
theorem Program.unhooks_run {view : HookView} {limit : Nat} (program : Program σ α)
    (requests : Requests σ) :
    requests.unhooks.toList <+: (program.run view limit requests).2.unhooks.toList := by
  induction program generalizing requests with
  | done => exact List.prefix_rfl
  | world change _ ih => exact ih _ { requests with world := change requests.world }
  | write request next ih =>
      obtain ⟨world, writes, unhooks, remarks⟩ := requests
      rw [run]
      split
      next => exact ih false ⟨world, writes, unhooks, remarks.push _⟩
      next => exact ih true ⟨world, writes.push request, unhooks, remarks⟩
  | unhook handle _ ih =>
      refine List.IsPrefix.trans ?_ (ih { requests with unhooks := requests.unhooks.push handle })
      rw [Array.toList_push]
      exact List.prefix_append _ _
  | remark entry _ ih => exact ih { requests with remarks := requests.remarks.push entry }

namespace Pipeline

variable {pipeline : Pipeline σ} {passage : Passage σ} {hook : Hook σ} {code : UInt16}
  {entry : Option UInt16 × Hook σ}

/-! ## One hook -/

namespace Passage

/-- The handles that are to go once the message has passed: of hooks that have run, and those that
were asked for. -/
def dues (passage : Passage σ) : List Nat × List Nat :=
  (passage.finished, passage.requests.unhooks.toList)

/-- The handle of a hook that is to go because the hook has run. -/
def spent (hook : Hook σ) : List Nat :=
  if hook.once then [hook.handle] else []

@[simp]
theorem dues_complain (passage : Passage σ) (hook : Hook σ) (text : String)
    (details : List (String × String)) : (passage.complain hook text details).dues = passage.dues :=
  rfl

@[simp]
theorem dues_judge (passage : Passage σ) (verdict : Verdict) :
    (passage.judge verdict).dues = passage.dues := by
  cases verdict <;> rfl

/-- A hook that has run is due to go if it is to run once. -/
theorem dues_finish (passage : Passage σ) (hook : Hook σ) :
    (passage.finish hook).dues = (passage.dues.1 ++ spent hook, passage.dues.2) := by
  rw [finish, spent]
  split
  next => rfl
  next => rw [List.append_nil, dues]

/-- However a hook on the bytes ends, it alone can be due to go. -/
theorem dues_endRaw (code : UInt16) (hook : Hook σ) (passage : Passage σ) (ending : Ending Bytes) :
    (passage.endRaw code hook ending).dues = (passage.dues.1 ++ spent hook, passage.dues.2) := by
  cases ending with
  | ok result =>
      rw [endRaw, dues_finish, dues_judge]
      split <;> rfl
  | error failure => rw [endRaw, dues_finish, dues_complain]

/-- However a hook on the object ends, it alone can be due to go. -/
theorem dues_endParsed (hook : Hook σ) (resolved : Resolved) (passage : Passage σ)
    (ending : Ending Object) : (passage.endParsed hook resolved ending).dues =
      (passage.dues.1 ++ spent hook, passage.dues.2) := by
  rw [endParsed.eq_def]
  split
  next => split <;> rw [dues_finish] <;> rfl
  next => rw [dues_finish, dues_judge]
  next => rw [dues_finish, dues_complain]

/-- To read a message makes no hook due to go. -/
theorem dues_reading (pipeline : Pipeline σ) (hook : Hook σ) (resolved : Resolved)
    (passage : Passage σ) : (reading pipeline hook resolved passage).2.dues = passage.dues := by
  rw [reading]
  split
  next => rfl
  next =>
    rcases resolved.read pipeline.protocol passage.bytes with ⟨_ | _, _⟩
    all_goals rfl

/-- Whether the callback of a hook is called. -/
def calls (pipeline : Pipeline σ) (code : UInt16) (passage : Passage σ) (hook : Hook σ) : Bool :=
  hook.filter.admits passage.flags &&
    match hook.callback with
    | .raw _ => true
    | .parsed version _ =>
      match pipeline.store.resolve pipeline.protocol (.code code) version with
      | .error _ => false
      | .ok resolved => (reading pipeline hook resolved passage).1.isSome

/-- A hook whose callback is called goes if it is to run once, and its callback asks for more hooks
to be removed. Any other changes nothing of that. -/
theorem dues_pass (pipeline : Pipeline σ) (code : UInt16) (passage : Passage σ) (hook : Hook σ) :
    (calls pipeline code passage hook = true ∧
      (pass pipeline code passage hook).dues.1 = passage.dues.1 ++ spent hook ∧
      passage.dues.2 <+: (pass pipeline code passage hook).dues.2) ∨
    (calls pipeline code passage hook = false ∧
      (pass pipeline code passage hook).dues = passage.dues) := by
  by_cases admitted : hook.filter.admits passage.flags = true
  · cases callback : hook.callback with
    | raw run =>
        left
        simp only [calls, pass, passWith, admitted, callback, if_true, passRaw, dues_endRaw]
        exact ⟨rfl, rfl, Program.unhooks_run _ _⟩
    | parsed version run =>
        cases found : pipeline.store.resolve pipeline.protocol (.code code) version with
        | error =>
            right
            simp only [calls, pass, passWith, admitted, callback, found, if_true, dues_complain]
            exact ⟨rfl, trivial⟩
        | ok resolved =>
            have read := dues_reading pipeline hook resolved passage
            rcases known : reading pipeline hook resolved passage with ⟨_ | object, after⟩
            all_goals rw [known] at read
            · right
              simp only [calls, pass, passWith, admitted, callback, found, known, if_true]
              exact ⟨rfl, read⟩
            · left
              simp only [calls, pass, passWith, admitted, callback, found, known, if_true,
                passParsed, dues_endParsed, ← read]
              exact ⟨rfl, rfl, Program.unhooks_run _ _⟩
  · right
    rw [calls, pass, passWith, if_neg admitted, Bool.eq_false_of_not_eq_true admitted]
    exact ⟨rfl, rfl⟩

end Passage

/-! ## One message -/

/-- A hook that a message passes, and the message as it comes to it. -/
structure Visit (σ : Type) where
  pipeline : Pipeline σ
  code : UInt16
  hook : Hook σ
  passage : Passage σ

namespace Visit

/-- Whether the callback is called. -/
def called (visit : Visit σ) : Bool :=
  Passage.calls visit.pipeline visit.code visit.passage visit.hook

/-- The message as the hook leaves it. -/
def left (visit : Visit σ) : Passage σ :=
  Passage.pass visit.pipeline visit.code visit.passage visit.hook

/-- The handle of the hook, if it is to go because it has run. -/
def spends (visit : Visit σ) : List Nat :=
  if visit.called then Passage.spent visit.hook else []

/-- The handles of the hooks that the callback asks to be removed. -/
def asked (visit : Visit σ) : List Nat :=
  visit.left.dues.2.drop visit.passage.dues.2.length

/-- After a visit those are due to go that were before, the hook if it is spent, and those that its
callback asked for. -/
theorem dues_left (visit : Visit σ) : visit.left.dues =
    (visit.passage.dues.1 ++ visit.spends, visit.passage.dues.2 ++ visit.asked) := by
  rcases Passage.dues_pass visit.pipeline visit.code visit.passage visit.hook with
    ⟨called, finished, asks⟩ | ⟨idle, same⟩
  · rw [spends, Visit.called, if_pos called]
    refine Prod.ext finished ?_
    exact (List.prefix_iff_eq_append.mp asks).symm
  · have left : visit.left.dues = visit.passage.dues := same
    rw [spends, Visit.called, if_neg (by simp [idle]), asked, left, List.drop_length,
      List.append_nil, List.append_nil]

/-- Only a callback that is called asks for anything. -/
theorem called_of_mem_asked {visit : Visit σ} {handle : Nat} (asks : handle ∈ visit.asked) :
    visit.called = true := by
  rcases Passage.dues_pass visit.pipeline visit.code visit.passage visit.hook with
    ⟨called, _⟩ | ⟨_, same⟩
  · exact called
  · have left : visit.left.dues = visit.passage.dues := same
    rw [asked, left, List.drop_length] at asks
    cases asks

/-- A hook is spent by a visit if its callback is called and it is to run once. -/
theorem of_mem_spends {visit : Visit σ} {handle : Nat} (spends : handle ∈ visit.spends) :
    visit.called = true ∧ visit.hook.once = true ∧ handle = visit.hook.handle := by
  rw [Visit.spends] at spends
  split at spends
  next called =>
    rw [Passage.spent] at spends
    split at spends
    next once => exact ⟨called, once, List.mem_singleton.mp spends⟩
    next => cases spends
  next => cases spends

end Visit

/-- The hooks of some entries of a schedule that are there, each with the message as it comes to
it. -/
def visitsAlong (pipeline : Pipeline σ) (code : UInt16) :
    Passage σ → List (Option UInt16 × Nat) → List (Visit σ)
  | _, [] => []
  | passage, entry :: rest =>
    ((pipeline.table.get? entry.1 entry.2).map (⟨pipeline, code, ·, passage⟩)).toList ++
      visitsAlong pipeline code (passEntry Passage.pass pipeline code passage entry) rest

/-- Along a schedule the dues of all visits add up. -/
theorem dues_foldl_passEntry (pipeline : Pipeline σ) (code : UInt16)
    (entries : List (Option UInt16 × Nat)) (passage : Passage σ) :
    (entries.foldl (passEntry Passage.pass pipeline code) passage).dues =
      (passage.dues.1 ++ (visitsAlong pipeline code passage entries).flatMap Visit.spends,
        passage.dues.2 ++ (visitsAlong pipeline code passage entries).flatMap Visit.asked) := by
  induction entries generalizing passage with
  | nil => simp [visitsAlong]
  | cons entry rest ih =>
      rw [List.foldl_cons, ih, visitsAlong, passEntry]
      cases pipeline.table.get? entry.1 entry.2 with
      | none => rfl
      | some hook =>
          have left := Visit.dues_left ⟨pipeline, code, hook, passage⟩
          rw [Visit.left] at left
          simp only [left, Option.map_some, Option.toList_some, List.singleton_append,
            List.flatMap_cons, List.append_assoc]

/-- Only registered hooks are visited. -/
theorem exists_of_mem_visitsAlong {entries : List (Option UInt16 × Nat)} {passage : Passage σ}
    {visit : Visit σ} (member : visit ∈ visitsAlong pipeline code passage entries) :
    ∃ entry ∈ entries, (entry.1, visit.hook) ∈ pipeline.table.registered := by
  induction entries generalizing passage with
  | nil => cases member
  | cons entry rest ih =>
      rw [visitsAlong, List.mem_append, Option.mem_toList, Option.map_eq_some_iff] at member
      rcases member with ⟨hook, found, rfl⟩ | later
      · have listed := List.mem_of_find?_eq_some found
        exact ⟨entry, List.mem_cons_self, (pipeline.table.group_sublist entry.1).subset
          (List.mem_map_of_mem listed)⟩
      · obtain ⟨other, present, registered⟩ := ih later
        exact ⟨other, List.mem_cons_of_mem _ present, registered⟩

namespace Handling

variable {handling : Handling σ}

/-- The hooks that the message passes, each with the message as it comes to it. -/
def visits (handling : Handling σ) : List (Visit σ) :=
  match Frame.Header.read handling.bytes with
  | .error _ => []
  | .ok header =>
    visitsAlong handling.pipeline header.code
      ⟨handling.bytes, ⟨handling.fake, handling.incoming, false, false⟩, [], [],
        ⟨handling.pipeline.world, #[], #[], handling.pipeline.remarks⟩⟩
      (handling.pipeline.table.schedule header.code)

/-- Only hooks are visited that are registered when the handling of the message begins. -/
theorem exists_of_mem_visits {visit : Visit σ} (member : visit ∈ handling.visits) :
    ∃ group, (group, visit.hook) ∈ handling.pipeline.table.registered := by
  rw [visits] at member
  split at member
  next => cases member
  next =>
    obtain ⟨entry, _, present⟩ := exists_of_mem_visitsAlong member
    exact ⟨entry.1, present⟩

/-- **A message removes hooks that have run and hooks that callbacks ask to be removed.** -/
theorem registered_passed (inOrder : handling.pipeline.table.InOrder) :
    handling.passed.table.registered = handling.pipeline.table.registered.filter fun entry =>
      !(handling.visits.flatMap Visit.spends ++ handling.visits.flatMap Visit.asked).contains
        entry.2.handle := by
  rw [passed, passHooks, visits]
  cases Frame.Header.read handling.bytes with
  | error => exact (List.filter_eq_self.mpr fun _ _ => rfl).symm
  | ok header =>
      dsimp only
      by_cases empty : (handling.pipeline.table.schedule header.code).isEmpty = true
      · rw [if_pos empty, List.isEmpty_iff.mp empty]
        exact (List.filter_eq_self.mpr fun _ _ => rfl).symm
      · rw [if_neg empty]
        have dues := dues_foldl_passEntry handling.pipeline header.code
          (handling.pipeline.table.schedule header.code)
          ⟨handling.bytes, ⟨handling.fake, handling.incoming, false, false⟩, [], [],
            ⟨handling.pipeline.world, #[], #[], handling.pipeline.remarks⟩⟩
        obtain ⟨finished, unhooks⟩ := Prod.mk.inj dues
        rw [conclude, passScheduled]
        dsimp only
        rw [inOrder.registered_foldl_remove, finished, unhooks]
        rfl

/-- A hook that is not there any more when a message has passed was called once for all or was asked
to be removed by a callback that the message has called. -/
theorem exists_visit_of_removed (inOrder : handling.pipeline.table.InOrder)
    (member : entry ∈ handling.pipeline.table.registered)
    (gone : entry ∉ handling.passed.table.registered) :
    ∃ visit ∈ handling.visits, visit.called = true ∧
      (visit.hook = entry.2 ∧ entry.2.once = true ∨ entry.2.handle ∈ visit.asked) := by
  rw [registered_passed inOrder, List.mem_filter, not_and, Bool.not_eq_true', Bool.not_eq_false,
    List.contains_iff_mem, List.mem_append] at gone
  rcases gone member with spent | asked
  · obtain ⟨visit, passes, spends⟩ := List.mem_flatMap.mp spent
    obtain ⟨called, once, same⟩ := Visit.of_mem_spends spends
    obtain ⟨group, present⟩ := exists_of_mem_visits passes
    -- a handle belongs to one hook
    have alone := List.inj_on_of_nodup_map inOrder.handles member present same
    subst alone
    exact ⟨visit, passes, called, .inl ⟨rfl, once⟩⟩
  · obtain ⟨visit, passes, asks⟩ := List.mem_flatMap.mp asked
    exact ⟨visit, passes, Visit.called_of_mem_asked asks, .inr asks⟩

end Handling

/-! ## All that a message causes -/

/-- A hook that is not there any more when messages were handled was removed by one of them. -/
theorem Threads.exists_removes {start finish : HookTable σ × σ} {handlings : List (Handling σ)}
    (threads : Threads start handlings finish) (inOrder : start.1.InOrder)
    (member : entry ∈ start.1.registered) (gone : entry ∉ finish.1.registered) :
    ∃ handling ∈ handlings, ∃ visit ∈ handling.visits, visit.called = true ∧
      (visit.hook = entry.2 ∧ entry.2.once = true ∨ entry.2.handle ∈ visit.asked) := by
  induction handlings generalizing start with
  | nil =>
      obtain rfl := threads
      exact absurd member gone
  | cons handling rest ih =>
      obtain ⟨rfl, later⟩ := threads
      by_cases left : entry ∈ handling.passed.table.registered
      · obtain ⟨other, listed, removes⟩ :=
          ih later ((follows_passed handling).table.inOrder inOrder) left
        exact ⟨other, List.mem_cons_of_mem _ listed, removes⟩
      · exact ⟨handling, List.mem_cons_self,
          Handling.exists_visit_of_removed inOrder member left⟩

/-- The messages that are handled in an operation. -/
def Operation.handlings (pipeline : Pipeline σ) : Operation σ → List (Handling σ)
  | .handle bytes incoming fake => (pipeline.handling bytes incoming fake).begun
  | .writeRaw direction bytes => (pipeline.handling bytes direction.isIncoming true).begun
  | .write direction name version object =>
    match pipeline.store.write pipeline.protocol (.name name) version object with
    | .error _ => []
    | .ok bytes => (pipeline.handling bytes direction.isIncoming true).begun
  | _ => []

/-- To write bytes is to handle them and what they cause, one message after the other. -/
theorem threads_writeRaw (pipeline : Pipeline σ) (direction : Direction) (bytes : Bytes) :
    Threads pipeline.core (pipeline.handling bytes direction.isIncoming true).begun
      (pipeline.writeRaw direction bytes).2.core := by
  rw [writeRaw, core_writeRawWith]
  exact threads_handling pipeline bytes direction.isIncoming true

/-- To write a message is to handle it and what it causes, one message after the other. -/
theorem threads_write (pipeline : Pipeline σ) (direction : Direction) (name : String)
    (version : VersionRequest) (object : Object) :
    Threads pipeline.core
      ((Operation.write direction name version object).handlings pipeline)
      (pipeline.write direction name version object).2.core := by
  rw [write, writeWith, Operation.handlings]
  cases pipeline.store.write pipeline.protocol (.name name) version object with
  | error => exact rfl
  | ok bytes => exact threads_writeRaw pipeline direction bytes

end Pipeline

end Relay
