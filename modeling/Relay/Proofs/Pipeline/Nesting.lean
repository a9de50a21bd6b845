import Mathlib.Algebra.BigOperators.Intervals
import Mathlib.Algebra.Group.Action.Defs
import Mathlib.Algebra.Order.BigOperators.Group.Finset
import Mathlib.Algebra.Order.BigOperators.Group.List
import Mathlib.Data.Multiset.Bind
import Relay.Proofs.Pipeline.Outbox

/-! # How much a message can cause

Whatever its callbacks do, the hooks of one message ask for no more messages than the limits allow,
and nesting ends at the deepest level. So the tree of what a message causes is finite and its levels
grow by no more than that factor (`Relay.Pipeline.limits_bound`). -/

namespace Relay

open Finset

variable {σ α : Type}

/-- A program asks for messages only as long as there is room. -/
theorem Program.size_run {view : HookView} {limit : Nat} (program : Program σ α)
    {requests : Requests σ} (within : requests.writes.size ≤ limit) :
    (program.run view limit requests).2.writes.size ≤ limit := by
  induction program generalizing requests with
  | done => exact within
  | world _ _ ih => exact ih _ within
  | write request next ih =>
      rw [run]
      split
      next => exact ih false within
      next room =>
        refine ih true ?_
        rw [Array.size_push]
        exact Nat.lt_of_not_le room
  | unhook _ _ ih => exact ih within
  | remark _ _ ih => exact ih within

namespace Pipeline

variable {pipeline : Pipeline σ} {passage : Passage σ}

/-! ## The requests of one message -/

namespace Passage

@[simp]
theorem writes_complain (hook : Hook σ) (text : String) (details : List (String × String)) :
    (passage.complain hook text details).requests.writes = passage.requests.writes :=
  rfl

@[simp]
theorem requests_judge (verdict : Verdict) :
    (passage.judge verdict).requests = passage.requests := by
  cases verdict <;> rfl

/-- That a hook has run asks for nothing. -/
@[simp]
theorem requests_finish (hook : Hook σ) : (passage.finish hook).requests = passage.requests := by
  rw [finish]
  split <;> rfl

/-- However a hook on the bytes ends, nothing more is asked to be written. -/
theorem writes_endRaw (code : UInt16) (hook : Hook σ) (ending : Ending Bytes) :
    (passage.endRaw code hook ending).requests.writes = passage.requests.writes := by
  cases ending with
  | ok result =>
      rw [endRaw, requests_finish, requests_judge]
      split <;> rfl
  | error failure => rw [endRaw, requests_finish, writes_complain]

/-- However a hook on the object ends, nothing more is asked to be written. -/
theorem writes_endParsed (hook : Hook σ) (resolved : Resolved) (ending : Ending Object) :
    (passage.endParsed hook resolved ending).requests.writes = passage.requests.writes := by
  rw [endParsed.eq_def]
  split
  next => split <;> rw [requests_finish] <;> rfl
  next => rw [requests_finish, requests_judge]
  next => rw [requests_finish, writes_complain]

/-- To keep what was read asks for nothing to be written. -/
theorem writes_keep (hook : Hook σ) (resolved : Resolved)
    (read : Except StoreError Object × Journal) :
    (passage.keep hook resolved read).requests.writes = passage.requests.writes := by
  obtain ⟨result, remarks⟩ := read
  cases result <;> rfl

/-- To read a message asks for nothing to be written. -/
theorem writes_reading (pipeline : Pipeline σ) (passage : Passage σ) (hook : Hook σ)
    (resolved : Resolved) :
    (reading pipeline hook resolved passage).2.requests.writes = passage.requests.writes := by
  rw [reading]
  split
  next => rfl
  next => exact writes_keep hook resolved _

/-- A hook asks for no more to be written than there is room for. -/
theorem size_pass (code : UInt16) (hook : Hook σ)
    (within : passage.requests.writes.size ≤ pipeline.limits.deferredWrites) :
    (pass pipeline code passage hook).requests.writes.size ≤ pipeline.limits.deferredWrites := by
  rw [pass, passWith]
  split
  next =>
    split
    next =>
      rw [passRaw, writes_endRaw]
      exact Program.size_run _ within
    next =>
      split
      next => exact within
      next resolved _ =>
        have read := writes_reading pipeline passage hook resolved
        split
        next same =>
          rw [same] at read
          exact read ▸ within
        next same =>
          rw [same] at read
          rw [passParsed, writes_endParsed]
          exact Program.size_run _ (read ▸ within)
  next => exact within

end Passage

/-- The hooks of a schedule ask for no more to be written than there is room for. -/
theorem size_passScheduled (code : UInt16)
    (within : passage.requests.writes.size ≤ pipeline.limits.deferredWrites) :
    (pipeline.passScheduled Passage.pass code passage).requests.writes.size ≤
      pipeline.limits.deferredWrites := by
  rw [passScheduled]
  generalize pipeline.table.schedule code = entries
  induction entries generalizing passage with
  | nil => exact within
  | cons entry rest ih =>
      rw [List.foldl_cons]
      refine ih ?_
      rw [passEntry]
      split
      next => exact within
      next => exact Passage.size_pass code _ within

/-- A message leaves no more requests than may be written for one. -/
theorem length_requests_le (pipeline : Pipeline σ) (bytes : Bytes) (incoming fake : Bool) :
    (pipeline.passHooks Passage.pass bytes incoming fake).2.2.length ≤
      pipeline.limits.deferredWrites := by
  rw [passHooks]
  split
  next => exact Nat.zero_le _
  next =>
    split
    next => exact Nat.zero_le _
    next => exact size_passScheduled _ (Nat.zero_le _)

/-! ## The size of the tree -/

variable {handling root : Handling σ} {bytes : Bytes} {incoming fake : Bool} {level : Nat}

/-- A level is what the level above it causes. -/
theorem atLevel_succ (handling : Handling σ) (level : Nat) :
    handling.atLevel (level + 1) = (handling.atLevel level).flatMap Handling.caused := by
  induction level generalizing handling with
  | zero =>
      rw [Handling.atLevel, Handling.atLevel, List.flatMap_singleton]
      exact List.flatMap_singleton' handling.caused
  | succ level ih =>
      rw [Handling.atLevel, Handling.atLevel, List.flatMap_assoc]
      exact congrArg handling.caused.flatMap (funext ih)

/-- Every message of the tree causes no more than may be written for one. -/
theorem length_caused_of_mem
    (member : handling ∈ (pipeline.handling bytes incoming fake).atLevel level) :
    handling.caused.length ≤ pipeline.limits.deferredWrites := by
  obtain ⟨left, _, follows, same⟩ := exists_of_mem_atLevel member
  have limits : handling.pipeline.limits = pipeline.limits := follows.limits
  rw [same, caused_handlingWith, ← limits]
  exact (length_caused_le _ _ _).trans (length_requests_le _ _ _ _)

/-- **A level has no more messages than powers of the limit tell.** -/
theorem length_atLevel_le (pipeline : Pipeline σ) (bytes : Bytes) (incoming fake : Bool)
    (level : Nat) : ((pipeline.handling bytes incoming fake).atLevel level).length ≤
      pipeline.limits.deferredWrites ^ level := by
  induction level with
  | zero => exact Nat.le_refl 1
  | succ level ih =>
      rw [atLevel_succ, List.length_flatMap, pow_succ]
      refine (List.sum_le_card_nsmul _ pipeline.limits.deferredWrites ?_).trans ?_
      · intro length member
        obtain ⟨handling, present, rfl⟩ := List.mem_map.mp member
        exact length_caused_of_mem present
      · rw [List.length_map, smul_eq_mul]
        exact Nat.mul_le_mul_right _ ih

/-- Below the levels that are left nothing is handled. -/
theorem atLevel_eq_nil (bytes : Bytes) (incoming fake : Bool) (deep : pipeline.levels < level) :
    (pipeline.handling bytes incoming fake).atLevel level = [] := by
  refine List.eq_nil_iff_forall_not_mem.mpr fun handling member => ?_
  obtain ⟨left, count, _⟩ := exists_of_mem_atLevel member
  omega

/-- A message on a level is handled as deep as the level is. -/
theorem depth_of_mem
    (member : handling ∈ (pipeline.handling bytes incoming fake).atLevel level) :
    handling.pipeline.depth = pipeline.depth + level := by
  obtain ⟨_, _, follows, _⟩ := exists_of_mem_atLevel member
  exact follows.depth

/-- Trees are begun one after the other. -/
theorem allBegun_eq (handlings : List (Handling σ)) :
    allBegun handlings = handlings.flatMap Handling.begun := by
  induction handlings with
  | nil => rfl
  | cons handling rest ih => rw [allBegun, ih, List.flatMap_cons]

/-- **A tree is all of its levels.** What is handled stands on one of the levels above the
deepest. -/
theorem begun_perm {deepest : Nat} (ends : ∀ level, deepest < level → handling.atLevel level = []) :
    handling.begun.Perm ((List.range (deepest + 1)).flatMap (handling.atLevel ·)) := by
  induction deepest generalizing handling with
  | zero =>
      have alone : handling.caused = [] := by
        have none := ends 1 Nat.one_pos
        rwa [atLevel_succ, Handling.atLevel, List.flatMap_singleton] at none
      rw [begun_eq, alone]
      exact List.Perm.refl _
  | succ deepest ih =>
      have below : ∀ child ∈ handling.caused,
          child.begun.Perm ((List.range (deepest + 1)).flatMap (child.atLevel ·)) := by
        refine fun child member => ih fun level deep => ?_
        exact List.flatMap_eq_nil_iff.mp (ends (level + 1) (Nat.succ_lt_succ deep)) child member
      have exchange := Multiset.bind_bind (handling.caused : Multiset (Handling σ))
        (List.range (deepest + 1)) (f := fun child level => Multiset.ofList (child.atLevel level))
      simp only [Multiset.coe_bind, Multiset.coe_eq_coe] at exchange
      rw [begun_eq, allBegun_eq, List.range_succ_eq_map, List.flatMap_cons, List.flatMap_map]
      exact ((List.Perm.flatMap_left _ below).trans exchange).cons handling

mutual

/-- What begins in a tree is what ends in it. -/
theorem Handling.ended_perm : (handling : Handling σ) → handling.ended.Perm handling.begun
  | ⟨_, _, _, _, caused⟩ => by
      rw [Handling.ended, Handling.begun]
      exact List.perm_append_singleton _ _ |>.trans ((allEnded_perm caused).cons _)

/-- What begins in some trees is what ends in them. -/
theorem allEnded_perm : (handlings : List (Handling σ)) →
    (allEnded handlings).Perm (allBegun handlings)
  | [] => .refl _
  | handling :: rest => by
      rw [allEnded, allBegun]
      exact handling.ended_perm.append (allEnded_perm rest)

end

/-- No more messages are caused than the levels have room for. -/
theorem length_allEnded_le (pipeline : Pipeline σ) (bytes : Bytes) (incoming fake : Bool) :
    (allEnded (pipeline.handling bytes incoming fake).caused).length ≤
      ∑ level ∈ Icc 1 pipeline.levels, pipeline.limits.deferredWrites ^ level := by
  have every := (begun_perm fun level (deep : pipeline.levels < level) =>
    atLevel_eq_nil bytes incoming fake deep).length_eq
  rw [begun_eq, List.length_cons, ← (allEnded_perm _).length_eq, List.length_flatMap] at every
  change _ = ∑ level ∈ range (pipeline.levels + 1), _ at every
  rw [sum_range_succ'] at every
  calc (allEnded (pipeline.handling bytes incoming fake).caused).length
      = ∑ level ∈ range pipeline.levels,
          ((pipeline.handling bytes incoming fake).atLevel (level + 1)).length :=
        Nat.succ_injective every
    _ ≤ ∑ level ∈ range pipeline.levels, pipeline.limits.deferredWrites ^ (level + 1) :=
        sum_le_sum fun level _ => length_atLevel_le pipeline bytes incoming fake (level + 1)
    _ = ∑ level ∈ Icc 1 pipeline.levels, pipeline.limits.deferredWrites ^ level := by
        rw [range_eq_Ico, sum_Ico_add' _ 0 pipeline.levels 1, ← Ico_add_one_right_eq_Icc]

/-! ## The bounds -/

/-- The bounds on what a message causes between two states, of which `root` is the tree and
`written` is what is put into the outbox of the message itself. -/
structure Bounded (before : Pipeline σ) (root : Handling σ) (written : List Outbound)
    (after : Pipeline σ) : Prop where
  complete : Threads before.core root.begun after.core
  levels : root.begun.Perm ((List.range (before.levels + 1)).flatMap (root.atLevel ·))
  width : ∀ level, (root.atLevel level).length ≤ before.limits.deferredWrites ^ level
  depth : ∀ level, ∀ handling ∈ root.atLevel level,
    handling.pipeline.depth = before.depth + level
  deepest : ∀ level, before.levels < level → root.atLevel level = []
  outbox : ∃ nested, after.outbox.toList = before.outbox.toList ++ nested ++ written ∧
    nested.length ≤ ∑ level ∈ Icc 1 before.levels, before.limits.deferredWrites ^ level
  restored : after.depth = before.depth

/-- What a message causes that is handled stays within the limits. -/
theorem bounded_handle (pipeline : Pipeline σ) (bytes : Bytes) (incoming fake : Bool) :
    pipeline.Bounded (pipeline.handling bytes incoming fake) []
      (pipeline.handle bytes incoming fake).2 where
  complete := threads_handling pipeline bytes incoming fake
  levels := begun_perm fun _ => atLevel_eq_nil _ _ _
  width := length_atLevel_le pipeline bytes incoming fake
  depth _ _ := depth_of_mem
  deepest _ := atLevel_eq_nil _ _ _
  outbox := by
    refine ⟨_, ?_, (List.length_filterMap_le Handling.forwarded _).trans
      (length_allEnded_le pipeline bytes incoming fake)⟩
    have flushed := outbox_flush pipeline.levels
      (pipeline.passHooks Passage.pass bytes incoming fake).2.1
      (pipeline.passHooks Passage.pass bytes incoming fake).2.2
    rw [outbox_passHooks] at flushed
    rw [List.append_nil]
    exact flushed
  restored := (follows_handle pipeline bytes incoming fake).depth

/-- What a message causes that is written stays within the limits. -/
theorem bounded_writeRaw (pipeline : Pipeline σ) (direction : Direction) (bytes : Bytes) :
    pipeline.Bounded (pipeline.handling bytes direction.isIncoming true)
      (pipeline.handling bytes direction.isIncoming true).forwarded.toList
      (pipeline.writeRaw direction bytes).2 where
  complete := by
    rw [writeRaw, core_writeRawWith]
    exact threads_handling pipeline bytes direction.isIncoming true
  levels := begun_perm fun _ => atLevel_eq_nil _ _ _
  width := length_atLevel_le pipeline bytes direction.isIncoming true
  depth _ _ := depth_of_mem
  deepest _ := atLevel_eq_nil _ _ _
  outbox := by
    refine ⟨_, ?_, (List.length_filterMap_le Handling.forwarded _).trans
      (length_allEnded_le pipeline bytes direction.isIncoming true)⟩
    rw [List.append_assoc, ← filterMap_ended]
    exact outbox_writeRawWith (outbox_flush pipeline.levels) pipeline direction bytes
  restored := (follows_writeRaw pipeline direction bytes).depth

/-- **The limits bound what a message causes.** Whatever callbacks do, a message that is handled or
written causes at most `w ^ level` others on every level, where `w` messages may be written for one,
and none below the level that the depth leaves. The outbox grows by no more than these besides the
message itself, and the depth is what it was, also when a message cannot be written. -/
theorem limits_bound (pipeline : Pipeline σ) :
    (∀ bytes incoming fake, pipeline.Bounded (pipeline.handling bytes incoming fake) []
      (pipeline.handle bytes incoming fake).2) ∧
    (∀ direction bytes, pipeline.Bounded (pipeline.handling bytes direction.isIncoming true)
      (pipeline.handling bytes direction.isIncoming true).forwarded.toList
      (pipeline.writeRaw direction bytes).2) ∧
    ∀ direction name version object,
      match pipeline.store.write pipeline.protocol (.name name) version object with
      | .error _ => (pipeline.write direction name version object).2 = pipeline
      | .ok bytes => pipeline.Bounded (pipeline.handling bytes direction.isIncoming true)
          (pipeline.handling bytes direction.isIncoming true).forwarded.toList
          (pipeline.write direction name version object).2 := by
  refine ⟨bounded_handle pipeline, bounded_writeRaw pipeline, ?_⟩
  intro direction name version object
  cases encoded : pipeline.store.write pipeline.protocol (.name name) version object with
  | error => simp only [write, writeWith, encoded]
  | ok bytes =>
      simp only [write, writeWith, encoded]
      exact bounded_writeRaw pipeline direction bytes

end Pipeline

end Relay
