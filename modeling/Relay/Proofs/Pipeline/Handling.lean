import Relay.Proofs.Pipeline.Follows

/-! # What a message causes

A message that is handled may cause others to be written, which are handled in turn. They form a
tree (`Relay.Pipeline.Handling`). Every message of the tree is handled by the same pipeline, as deep
as it stands in the tree and with a part of the hooks that there were at the root
(`Relay.Pipeline.exists_of_mem_atLevel`), and the messages that the hooks of one message ask for are
handled in the order in which they were asked for (`Relay.Pipeline.map_caused`). -/

namespace Relay

variable {σ : Type}

/-- The direction that a message has which comes in from the server, or does not. -/
def Direction.ofIncoming : Bool → Direction
  | true => .toClient
  | false => .toServer

@[simp]
theorem Direction.ofIncoming_isIncoming (direction : Direction) :
    ofIncoming direction.isIncoming = direction := by
  cases direction <;> rfl

/-- Direction and bytes of the message that a hook asks for, unless there is no such message. -/
def WriteRequest.message? (pipeline : Pipeline σ) : WriteRequest → Option (Direction × Bytes)
  | .raw direction bytes => some (direction, bytes)
  | .message direction name version object =>
    (pipeline.store.write pipeline.protocol (.name name) version object).toOption.map (direction, ·)

namespace Pipeline

/-- The pipeline when a message comes to be handled, what it is handled as, and the messages that
its hooks have written, in order. -/
structure Handling (σ : Type) where
  pipeline : Pipeline σ
  bytes : Bytes
  incoming : Bool
  fake : Bool
  caused : List (Handling σ)

/-- Let a message pass its hooks, with `levels` of nesting left. -/
abbrev handleAt (levels : Nat) : Pipeline σ → Bytes → Bool → Bool → Outcome × Pipeline σ :=
  handleWith Passage.pass (flush Passage.pass levels)

/-- The handling of a message, where `caused` tells what requests come to. -/
def handlingWith (caused : Pipeline σ → List WriteRequest → List (Handling σ))
    (pipeline : Pipeline σ) (bytes : Bytes) (incoming fake : Bool) : Handling σ :=
  let (_, after, writes) := pipeline.passHooks Passage.pass bytes incoming fake
  ⟨pipeline, bytes, incoming, fake, caused after writes⟩

/-- The messages that come of some requests, each handled after the one before. -/
def causedAlong (handling : Pipeline σ → Bytes → Bool → Bool → Handling σ)
    (handle : Pipeline σ → Bytes → Bool → Bool → Outcome × Pipeline σ) :
    Pipeline σ → List WriteRequest → List (Handling σ)
  | _, [] => []
  | pipeline, request :: rest =>
    let others := causedAlong handling handle (pipeline.performWith handle request) rest
    match request.message? pipeline with
    | none => others
    | some (direction, bytes) => handling pipeline bytes direction.isIncoming true :: others

/-- The messages that come of some requests, with `levels` of nesting left. -/
def caused : Nat → Pipeline σ → List WriteRequest → List (Handling σ)
  | 0, _, _ => []
  | levels + 1, pipeline, requests =>
    causedAlong (handlingWith (caused levels)) (handleAt levels) (pipeline.deeper 1) requests

/-- The handling of a message with all that it causes. -/
def handling (pipeline : Pipeline σ) (bytes : Bytes) (incoming fake : Bool) : Handling σ :=
  handlingWith (caused pipeline.levels) pipeline bytes incoming fake

namespace Handling

/-- What the handling of a message causes on a level below it. -/
def atLevel : Nat → Handling σ → List (Handling σ)
  | 0, handling => [handling]
  | level + 1, handling => handling.caused.flatMap (atLevel level)

/-- What becomes of the message. -/
def outcome (handling : Handling σ) : Outcome :=
  (handling.pipeline.passHooks Passage.pass handling.bytes handling.incoming handling.fake).1

/-- The state of the pipeline when the message has passed its hooks. -/
def passed (handling : Handling σ) : Pipeline σ :=
  (handling.pipeline.passHooks Passage.pass handling.bytes handling.incoming handling.fake).2.1

/-- What the hooks of the message have asked to be written. -/
def requests (handling : Handling σ) : List WriteRequest :=
  (handling.pipeline.passHooks Passage.pass handling.bytes handling.incoming handling.fake).2.2

/-- Direction and bytes of the message. -/
def message (handling : Handling σ) : Direction × Bytes :=
  (.ofIncoming handling.incoming, handling.bytes)

/-- The message that is put into the outbox when it has been handled, if it is forwarded. -/
def forwarded (handling : Handling σ) : Option Outbound :=
  match handling.outcome with
  | .forward bytes => some ⟨.ofIncoming handling.incoming, bytes⟩
  | .dropped => none

end Handling

mutual

/-- A message and all that it causes, in the order in which their handling begins. -/
def Handling.begun : Handling σ → List (Handling σ)
  | ⟨pipeline, bytes, incoming, fake, caused⟩ =>
    ⟨pipeline, bytes, incoming, fake, caused⟩ :: allBegun caused

/-- Some messages and all that they cause, in the order in which their handling begins. -/
def allBegun : List (Handling σ) → List (Handling σ)
  | [] => []
  | handling :: rest => handling.begun ++ allBegun rest

end

mutual

/-- A message and all that it causes, in the order in which their handling ends. -/
def Handling.ended : Handling σ → List (Handling σ)
  | ⟨pipeline, bytes, incoming, fake, caused⟩ =>
    allEnded caused ++ [⟨pipeline, bytes, incoming, fake, caused⟩]

/-- Some messages and all that they cause, in the order in which their handling ends. -/
def allEnded : List (Handling σ) → List (Handling σ)
  | [] => []
  | handling :: rest => handling.ended ++ allEnded rest

end

variable {handling : Handling σ} {pipeline : Pipeline σ} {levels : Nat}

/-- What a message causes is caused by what its hooks have asked for, once it has passed them. -/
@[simp]
theorem caused_handlingWith (pipeline : Pipeline σ) (bytes : Bytes) (incoming fake : Bool) :
    (handlingWith (caused levels) pipeline bytes incoming fake).caused =
      caused levels (handlingWith (caused levels) pipeline bytes incoming fake).passed
        (handlingWith (caused levels) pipeline bytes incoming fake).requests :=
  rfl

theorem follows_passed (handling : Handling σ) : handling.pipeline.Follows handling.passed :=
  follows_passHooks _ _ _ _

theorem follows_handleAt (levels : Nat) (pipeline : Pipeline σ) (bytes : Bytes)
    (incoming fake : Bool) : pipeline.Follows (handleAt levels pipeline bytes incoming fake).2 :=
  follows_handleWith (follows_flush levels) pipeline bytes incoming fake

/-! ## Performing a request -/

/-- A request comes to the same message as long as store and protocol are the same. -/
theorem message?_congr {before after : Pipeline σ} (follows : before.Follows after)
    (request : WriteRequest) : request.message? after = request.message? before := by
  cases request with
  | raw => rfl
  | message => rw [WriteRequest.message?, WriteRequest.message?, follows.store, follows.protocol]

section Performing

variable {handle : Pipeline σ → Bytes → Bool → Bool → Outcome × Pipeline σ}
  {request : WriteRequest}

/-- A request that comes to a message is performed by writing its bytes. -/
theorem performWith_of_some {direction : Direction} {bytes : Bytes}
    (written : request.message? pipeline = some (direction, bytes)) :
    pipeline.performWith handle request = (pipeline.writeRawWith handle direction bytes).2 := by
  cases request with
  | raw =>
      cases written
      rfl
  | message way name version object =>
      rw [WriteRequest.message?] at written
      cases encoded : pipeline.store.write pipeline.protocol (.name name) version object with
      | error =>
          rw [encoded] at written
          cases written
      | ok message =>
          rw [encoded] at written
          cases written
          simp only [performWith, writeWith, encoded]

/-- A request that comes to no message is remarked and changes nothing else. -/
theorem performWith_of_none (refused : request.message? pipeline = none) :
    ∃ entry, pipeline.performWith handle request = pipeline.remark entry := by
  cases request with
  | raw => cases refused
  | message way name version object =>
      rw [WriteRequest.message?] at refused
      cases encoded : pipeline.store.write pipeline.protocol (.name name) version object with
      | error cause =>
          refine ⟨.failure "deferred write failed"
            [("name", name), ("error", chainText (PipelineError.store cause).messages)], ?_⟩
          simp only [performWith, writeWith, encoded]
      | ok message =>
          rw [encoded] at refused
          cases refused

end Performing

/-! ## The order of requests -/

/-- The messages that come of requests are those that the requests come to, in order. -/
theorem map_causedAlong
    {handle : Pipeline σ → Bytes → Bool → Bool → Outcome × Pipeline σ}
    (handled : ∀ (pipeline : Pipeline σ) bytes incoming fake,
      pipeline.Follows (handle pipeline bytes incoming fake).2)
    (caused : Pipeline σ → List WriteRequest → List (Handling σ))
    (requests : List WriteRequest) (pipeline : Pipeline σ) :
    (causedAlong (handlingWith caused) handle pipeline requests).map Handling.message =
      requests.filterMap (·.message? pipeline) := by
  induction requests generalizing pipeline with
  | nil => rfl
  | cons request rest ih =>
      have later : rest.filterMap (·.message? (pipeline.performWith handle request)) =
          rest.filterMap (·.message? pipeline) := by
        congr 1
        funext other
        exact message?_congr (follows_performWith handled pipeline request) other
      rw [causedAlong, List.filterMap_cons]
      cases request.message? pipeline with
      | none => rw [ih, later]
      | some message =>
          rw [List.map_cons, ih, later]
          simp [Handling.message, handlingWith]

/-- **Requests are performed in order.** Above the last level, all that the hooks of a message ask
for is handled, in the order in which they asked for it, but for messages that cannot be made. -/
theorem map_caused (levels : Nat) (pipeline : Pipeline σ) (requests : List WriteRequest) :
    (caused (levels + 1) pipeline requests).map Handling.message =
      requests.filterMap (·.message? pipeline) :=
  map_causedAlong (follows_handleAt levels) (caused levels) requests (pipeline.deeper 1)

/-- No more messages are caused than were asked for. -/
theorem length_caused_le (levels : Nat) (pipeline : Pipeline σ) (requests : List WriteRequest) :
    (caused levels pipeline requests).length ≤ requests.length := by
  cases levels with
  | zero => exact Nat.zero_le _
  | succ levels =>
      have same := congrArg List.length (map_caused levels pipeline requests)
      rw [List.length_map] at same
      rw [same]
      exact List.length_filterMap_le _ _

/-! ## The levels of the tree -/

/-- A message that comes of requests is handled as made up, by a pipeline that follows the one
before. -/
theorem exists_of_mem_causedAlong {handle : Pipeline σ → Bytes → Bool → Bool → Outcome × Pipeline σ}
    (handled : ∀ (pipeline : Pipeline σ) bytes incoming fake,
      pipeline.Follows (handle pipeline bytes incoming fake).2)
    {caused : Pipeline σ → List WriteRequest → List (Handling σ)}
    {requests : List WriteRequest}
    (member : handling ∈ causedAlong (handlingWith caused) handle pipeline requests) :
    pipeline.Follows handling.pipeline ∧ handling.fake = true ∧
      handling = handlingWith caused handling.pipeline handling.bytes handling.incoming
        handling.fake := by
  induction requests generalizing pipeline with
  | nil => cases member
  | cons request rest ih =>
      have next := follows_performWith handled pipeline request
      rw [causedAlong] at member
      split at member
      next =>
        obtain ⟨follows, rest⟩ := ih member
        exact ⟨next.trans follows, rest⟩
      next =>
        rcases List.mem_cons.mp member with rfl | later
        · exact ⟨.refl pipeline, rfl, rfl⟩
        · obtain ⟨follows, rest⟩ := ih later
          exact ⟨next.trans follows, rest⟩

/-- A message that is caused is handled as made up, one level deeper. -/
theorem exists_of_mem_caused {requests : List WriteRequest}
    (member : handling ∈ caused (levels + 1) pipeline requests) :
    (pipeline.deeper 1).Follows handling.pipeline ∧ handling.fake = true ∧
      handling = handlingWith (caused levels) handling.pipeline handling.bytes handling.incoming
        handling.fake :=
  exists_of_mem_causedAlong (follows_handleAt levels) member

/-- **The tree stands in one pipeline.** A message on a level is handled as deep as the level is, by
the pipeline as it was at the root but for what hooks have changed since, and there are no more
levels than were left. -/
theorem exists_of_mem_atLevel {bytes : Bytes} {incoming fake : Bool} {level : Nat}
    (member : handling ∈
      (handlingWith (caused levels) pipeline bytes incoming fake).atLevel level) :
    ∃ left, levels = left + level ∧ (pipeline.deeper level).Follows handling.pipeline ∧
      handling = handlingWith (caused left) handling.pipeline handling.bytes handling.incoming
        handling.fake := by
  induction level generalizing levels pipeline bytes incoming fake with
  | zero =>
      obtain rfl := List.mem_singleton.mp member
      exact ⟨levels, rfl, .refl pipeline, rfl⟩
  | succ level ih =>
      obtain ⟨child, present, below⟩ := List.mem_flatMap.mp member
      rw [caused_handlingWith] at present
      cases levels with
      | zero => cases present
      | succ levels =>
          obtain ⟨follows, _, same⟩ := exists_of_mem_caused present
          rw [same] at below
          obtain ⟨left, rfl, deep, rest⟩ := ih below
          refine ⟨left, rfl, ?_, rest⟩
          have start := ((follows_passed _).deeper 1).trans follows
          have shifted := (start.deeper level).trans deep
          rwa [deeper_deeper, Nat.add_comm] at shifted

/-! ## The tree is complete -/

/-- The handling of a message begins before that of all that it causes. -/
theorem begun_eq (handling : Handling σ) :
    handling.begun = handling :: allBegun handling.caused := by
  obtain ⟨⟩ := handling
  rw [Handling.begun]

/-- The handling of a message ends after that of all that it causes. -/
theorem ended_eq (handling : Handling σ) :
    handling.ended = allEnded handling.caused ++ [handling] := by
  obtain ⟨⟩ := handling
  rw [Handling.ended]

/-- What callbacks and requests to remove hooks can change. -/
def core (pipeline : Pipeline σ) : HookTable σ × σ :=
  (pipeline.table, pipeline.world)

/-- Messages that are handled one after the other: the first finds the hooks and the world as they
are at the start, each leaves them to the next, and the last one leaves them as they are at the
end. -/
def Threads (start : HookTable σ × σ) : List (Handling σ) → HookTable σ × σ → Prop
  | [], finish => start = finish
  | handling :: rest, finish =>
    handling.pipeline.core = start ∧ Threads handling.passed.core rest finish

/-- What is handled first leaves the hooks and the world to what is handled then. -/
theorem Threads.append {start middle finish : HookTable σ × σ} {first second : List (Handling σ)}
    (before : Threads start first middle) (after : Threads middle second finish) :
    Threads start (first ++ second) finish := by
  induction first generalizing start with
  | nil =>
      obtain rfl := before
      exact after
  | cons handling rest ih => exact ⟨before.1, ih before.2⟩

/-- To put a message into the outbox changes neither the hooks nor the world. -/
theorem core_writeRawWith {handle : Pipeline σ → Bytes → Bool → Bool → Outcome × Pipeline σ}
    (pipeline : Pipeline σ) (direction : Direction) (bytes : Bytes) :
    (pipeline.writeRawWith handle direction bytes).2.core =
      (handle pipeline bytes direction.isIncoming true).2.core := by
  rw [writeRawWith]
  split
  next same => rw [same]; rfl
  next same => rw [same]

/-- Requests one after the other handle the messages that come of them, and nothing else. -/
theorem threads_causedAlong {handle : Pipeline σ → Bytes → Bool → Bool → Outcome × Pipeline σ}
    {handling : Pipeline σ → Bytes → Bool → Bool → Handling σ}
    (threads : ∀ (pipeline : Pipeline σ) bytes incoming fake, Threads pipeline.core
      (handling pipeline bytes incoming fake).begun (handle pipeline bytes incoming fake).2.core)
    (requests : List WriteRequest) (pipeline : Pipeline σ) :
    Threads pipeline.core (allBegun (causedAlong handling handle pipeline requests))
      (requests.foldl (performWith handle) pipeline).core := by
  induction requests generalizing pipeline with
  | nil => exact rfl
  | cons request rest ih =>
      rw [causedAlong, List.foldl_cons]
      cases written : request.message? pipeline with
      | none =>
          obtain ⟨entry, same⟩ := performWith_of_none written
          rw [same]
          exact ih (pipeline.remark entry)
      | some message =>
          obtain ⟨direction, bytes⟩ := message
          have first := threads pipeline bytes direction.isIncoming true
          rw [← core_writeRawWith, ← performWith_of_some written] at first
          exact first.append (ih _)

/-- What hooks asked for is done by handling what they caused, one message after the other. -/
theorem threads_flush (levels : Nat) (pipeline : Pipeline σ) (requests : List WriteRequest) :
    Threads pipeline.core (allBegun (caused levels pipeline requests))
      (flush Passage.pass levels pipeline requests).core := by
  induction levels generalizing pipeline requests with
  | zero => cases requests <;> exact rfl
  | succ levels ih =>
      cases requests with
      | nil => exact rfl
      | cons request rest =>
          rw [flush_succ]
          refine threads_causedAlong (fun pipeline bytes incoming fake => ?_) (request :: rest)
            (pipeline.deeper 1)
          rw [begun_eq]
          exact ⟨rfl, ih _ _⟩

/-- **The tree has every message that is handled.** From the state before to the state after, each
message of the tree finds what the one before it has left. -/
theorem threads_handling (pipeline : Pipeline σ) (bytes : Bytes) (incoming fake : Bool) :
    Threads pipeline.core (pipeline.handling bytes incoming fake).begun
      (pipeline.handle bytes incoming fake).2.core := by
  rw [begun_eq]
  exact ⟨rfl, threads_flush pipeline.levels _ _⟩

end Pipeline

end Relay
