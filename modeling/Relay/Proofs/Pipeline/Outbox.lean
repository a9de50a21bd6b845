import Relay.Proofs.Pipeline.Handling

/-! # The order of the outbox

A message is put into the outbox when its handling ends, and that is after everything that it causes
has been handled. So the outbox has the messages in the order in which their handling ends
(`Relay.Pipeline.drain_writeRaw`), and a reply stands before the message that it replies to
(`Relay.Pipeline.drain_asking`). -/

namespace Relay.Pipeline

variable {σ : Type}

/-- While a message passes its hooks nothing is put into the outbox. -/
theorem outbox_passHooks (pipeline : Pipeline σ) (bytes : Bytes) (incoming fake : Bool) :
    (pipeline.passHooks Passage.pass bytes incoming fake).2.1.outbox = pipeline.outbox := by
  rw [passHooks]
  split
  next => rfl
  next => split <;> rfl

/-- What is forwarded of a tree is what is forwarded of all below, and then the message itself. -/
theorem filterMap_ended (handling : Handling σ) :
    handling.ended.filterMap Handling.forwarded =
      (allEnded handling.caused).filterMap Handling.forwarded ++ handling.forwarded.toList := by
  rw [ended_eq, List.filterMap_append]
  cases forwarded : handling.forwarded <;> simp [forwarded]

section Written

variable {caused : Pipeline σ → List WriteRequest → List (Handling σ)}
  {flush : Pipeline σ → List WriteRequest → Pipeline σ}

/-- A message is put behind everything that it causes. -/
theorem outbox_writeRawWith
    (flushed : ∀ (pipeline : Pipeline σ) requests, (flush pipeline requests).outbox.toList =
      pipeline.outbox.toList ++ (allEnded (caused pipeline requests)).filterMap Handling.forwarded)
    (pipeline : Pipeline σ) (direction : Direction) (bytes : Bytes) :
    (pipeline.writeRawWith (handleWith Passage.pass flush) direction bytes).2.outbox.toList =
      pipeline.outbox.toList ++
        (handlingWith caused pipeline bytes direction.isIncoming true).ended.filterMap
          Handling.forwarded := by
  rw [filterMap_ended, ← List.append_assoc]
  have kept := outbox_passHooks pipeline bytes direction.isIncoming true
  rcases passed : pipeline.passHooks Passage.pass bytes direction.isIncoming true with
    ⟨outcome, after, writes⟩
  rw [passed] at kept
  have below := flushed after writes
  simp only [writeRawWith, handleWith, handlingWith, Handling.forwarded, Handling.outcome, passed,
    Direction.ofIncoming_isIncoming]
  cases outcome with
  | forward => rw [Array.toList_push, below, kept]; rfl
  | dropped => rw [below, kept]; exact (List.append_nil _).symm

/-- Requests one after the other put into the outbox what is forwarded of all that they cause. -/
theorem outbox_foldl_performWith
    (flushed : ∀ (pipeline : Pipeline σ) requests, (flush pipeline requests).outbox.toList =
      pipeline.outbox.toList ++ (allEnded (caused pipeline requests)).filterMap Handling.forwarded)
    (requests : List WriteRequest) (pipeline : Pipeline σ) :
    (requests.foldl (performWith (handleWith Passage.pass flush)) pipeline).outbox.toList =
      pipeline.outbox.toList ++
        (allEnded (causedAlong (handlingWith caused) (handleWith Passage.pass flush) pipeline
          requests)).filterMap Handling.forwarded := by
  induction requests generalizing pipeline with
  | nil => exact (List.append_nil _).symm
  | cons request rest ih =>
      rw [List.foldl_cons, ih, causedAlong]
      cases written : request.message? pipeline with
      | none =>
          obtain ⟨entry, same⟩ := performWith_of_none written
          rw [same]
          rfl
      | some message =>
          obtain ⟨direction, bytes⟩ := message
          rw [performWith_of_some written, outbox_writeRawWith flushed, allEnded,
            List.filterMap_append, List.append_assoc]

end Written

/-- **What hooks asked for is put into the outbox as its handling ends**, at any depth of
nesting. -/
theorem outbox_flush (levels : Nat) (pipeline : Pipeline σ) (requests : List WriteRequest) :
    (flush Passage.pass levels pipeline requests).outbox.toList = pipeline.outbox.toList ++
      (allEnded (caused levels pipeline requests)).filterMap Handling.forwarded := by
  induction levels generalizing pipeline requests with
  | zero => cases requests <;> exact (List.append_nil _).symm
  | succ levels ih =>
      cases requests with
      | nil => exact (List.append_nil _).symm
      | cons request rest =>
          rw [flush_succ]
          exact outbox_foldl_performWith ih (request :: rest) (pipeline.deeper 1)

/-! ## Where a message stands -/

/-- The handling of messages ends in the order in which they are handled. -/
theorem sublist_allEnded (handlings : List (Handling σ)) :
    handlings.Sublist (allEnded handlings) := by
  induction handlings with
  | nil => exact List.Sublist.refl _
  | cons handling rest ih =>
      rw [allEnded, ended_eq, List.append_assoc]
      exact (ih.cons_cons handling).trans (List.sublist_append_right _ _)

/-- From its first to its last a tree among others is handled without a break. -/
theorem infix_allEnded {handling : Handling σ} {handlings : List (Handling σ)}
    (member : handling ∈ handlings) : handling.ended <:+: allEnded handlings := by
  induction handlings with
  | nil => cases member
  | cons first rest ih =>
      rw [allEnded]
      rcases List.mem_cons.mp member with rfl | later
      · exact (List.prefix_append _ _).isInfix
      · exact (ih later).trans (List.suffix_append _ _).isInfix

/-- From its first to its last a tree inside another is handled without a break. -/
theorem infix_ended_of_mem_atLevel {handling root : Handling σ} {level : Nat}
    (member : handling ∈ root.atLevel level) : handling.ended <:+: root.ended := by
  induction level generalizing root with
  | zero =>
      obtain rfl := List.mem_singleton.mp member
      exact List.infix_refl _
  | succ level ih =>
      obtain ⟨child, present, below⟩ := List.mem_flatMap.mp member
      rw [ended_eq root]
      exact (ih below).trans ((infix_allEnded present).trans (List.prefix_append _ _).isInfix)

/-- On every level but the last one a message causes all that its hooks have asked for. -/
theorem map_message_caused {handling : Handling σ} {bytes : Bytes} {incoming fake : Bool}
    {pipeline : Pipeline σ} {level : Nat}
    (member : handling ∈ (pipeline.handling bytes incoming fake).atLevel level) :
    handling.caused.map Handling.message =
      if level < pipeline.levels then handling.requests.filterMap (·.message? handling.passed)
      else [] := by
  obtain ⟨left, count, _, same⟩ := exists_of_mem_atLevel member
  have children : handling.caused = caused left handling.passed handling.requests := by
    rw [same]
    rfl
  rw [children]
  cases left with
  | zero =>
      rw [if_neg (by omega)]
      rfl
  | succ left =>
      rw [if_pos (by omega)]
      exact map_caused left handling.passed handling.requests

/-- **The outbox has replies first.** Writing a message appends to the outbox what is forwarded of
the message and of all that it causes, in the order in which their handling ends: what a message
causes, at any level, stands right before the message itself, and what its hooks ask for stands in
the order in which they asked for it. -/
theorem drain_writeRaw (pipeline : Pipeline σ) (direction : Direction) (bytes : Bytes) :
    (pipeline.writeRaw direction bytes).2.drain.1 = pipeline.drain.1 ++
        (pipeline.handling bytes direction.isIncoming true).ended.filterMap Handling.forwarded ∧
      ∀ level, ∀ handling ∈ (pipeline.handling bytes direction.isIncoming true).atLevel level,
        handling.ended <:+: (pipeline.handling bytes direction.isIncoming true).ended ∧
        handling.ended = allEnded handling.caused ++ [handling] ∧
        handling.caused.Sublist (allEnded handling.caused) ∧
        handling.caused.map Handling.message =
          if level < pipeline.levels then handling.requests.filterMap (·.message? handling.passed)
          else [] := by
  refine ⟨?_, fun level handling member => ?_⟩
  · exact outbox_writeRawWith (outbox_flush pipeline.levels) pipeline direction bytes
  · exact ⟨infix_ended_of_mem_atLevel member, ended_eq handling, sublist_allEnded _,
      map_message_caused member⟩

/-- A connection on which a question is answered by a hook as soon as it is asked. -/
def asking : Pipeline Unit :=
  let tables := [(1, OpcodeTable.ofList [("C_ASK", 10), ("S_REPLY", 11)])]
  let answer : Callback Unit := .raw fun _ _ bytes => do
    discard (Program.request (.raw .toClient #[4, 0, 11, 0]))
    pure (.ok (.pass, bytes))
  let start : Pipeline Unit :=
    ⟨{ Store.empty .pc with tables := tables }, 1, .standard, .empty, #[], 0, (), #[]⟩
  (start.hook none "C_ASK" answer { HookOptions.standard with filter := .any }).2

/-- The question is written first and is forwarded, but the reply stands before it. -/
theorem drain_asking :
    (asking.handling #[4, 0, 10, 0] false true).begun.filterMap Handling.forwarded =
        [⟨.toServer, #[4, 0, 10, 0]⟩, ⟨.toClient, #[4, 0, 11, 0]⟩] ∧
      (asking.writeRaw .toServer #[4, 0, 10, 0]).2.drain.1 =
        [⟨.toClient, #[4, 0, 11, 0]⟩, ⟨.toServer, #[4, 0, 10, 0]⟩] :=
  ⟨rfl, rfl⟩

end Relay.Pipeline
