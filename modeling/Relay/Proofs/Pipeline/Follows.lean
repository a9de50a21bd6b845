import Relay.Pipeline
import Relay.Proofs.Hook.Schedule

/-! # What handling a message leaves alone

Whatever hooks do, a pipeline that has handled or written a message knows the same protocol, has the
same limits and the nesting depth that it had before, and of its hooks a part
(`Relay.Pipeline.Follows`). The levels of nesting that are left are those that the depth tells
(`Relay.Pipeline.flush_levels`). -/

namespace Relay.Pipeline

variable {σ : Type} {before middle after : Pipeline σ}
  {pass : Pipeline σ → UInt16 → Passage σ → Hook σ → Passage σ}
  {handle : Pipeline σ → Bytes → Bool → Bool → Outcome × Pipeline σ}

/-- A pipeline after some messages, compared with the pipeline before. -/
structure Follows (before after : Pipeline σ) : Prop where
  store : after.store = before.store
  protocol : after.protocol = before.protocol
  limits : after.limits = before.limits
  depth : after.depth = before.depth
  table : after.table.Part before.table

namespace Follows

theorem refl (pipeline : Pipeline σ) : pipeline.Follows pipeline :=
  ⟨rfl, rfl, rfl, rfl, .refl _⟩

theorem trans (first : before.Follows middle) (second : middle.Follows after) :
    before.Follows after where
  store := second.store.trans first.store
  protocol := second.protocol.trans first.protocol
  limits := second.limits.trans first.limits
  depth := second.depth.trans first.depth
  table := second.table.trans first.table

theorem levels (follows : before.Follows after) : after.levels = before.levels := by
  rw [Pipeline.levels, Pipeline.levels, follows.limits, follows.depth]

end Follows

/-- Some levels deeper. -/
def deeper (levels : Nat) (pipeline : Pipeline σ) : Pipeline σ :=
  { pipeline with depth := pipeline.depth + levels }

/-- Back from one level deeper. -/
def outer (pipeline : Pipeline σ) : Pipeline σ :=
  { pipeline with depth := pipeline.depth - 1 }

theorem deeper_deeper (levels more : Nat) (pipeline : Pipeline σ) :
    (pipeline.deeper levels).deeper more = pipeline.deeper (levels + more) := by
  rw [deeper, deeper, deeper, Nat.add_assoc]

/-- What follows a pipeline still does when both go deeper. -/
theorem Follows.deeper (follows : before.Follows after) (levels : Nat) :
    (before.deeper levels).Follows (after.deeper levels) where
  store := follows.store
  protocol := follows.protocol
  limits := follows.limits
  depth := congrArg (· + levels) follows.depth
  table := follows.table

/-- Back from one level deeper the depth is what it was. -/
theorem Follows.outer (follows : (before.deeper 1).Follows after) :
    before.Follows after.outer where
  store := follows.store
  protocol := follows.protocol
  limits := follows.limits
  depth := by
    change after.depth - 1 = before.depth
    rw [follows.depth]
    exact Nat.add_sub_cancel before.depth 1
  table := follows.table

theorem follows_remark (pipeline : Pipeline σ) (entry : Entry) :
    pipeline.Follows (pipeline.remark entry) :=
  ⟨rfl, rfl, rfl, rfl, .refl _⟩

/-- When a message has passed its hooks, nothing is different but that some hooks may be gone. -/
theorem follows_passHooks (pipeline : Pipeline σ) (bytes : Bytes) (incoming fake : Bool) :
    pipeline.Follows (pipeline.passHooks pass bytes incoming fake).2.1 := by
  rw [passHooks]
  split
  next => exact follows_remark pipeline _
  next =>
    split
    next => exact .refl pipeline
    next => exact ⟨rfl, rfl, rfl, rfl, HookTable.Part.foldl_remove _ _⟩

/-- To write a message leaves alone what to handle it leaves alone. -/
theorem follows_writeRawWith
    (handled : ∀ (pipeline : Pipeline σ) bytes incoming fake,
      pipeline.Follows (handle pipeline bytes incoming fake).2)
    (pipeline : Pipeline σ) (direction : Direction) (bytes : Bytes) :
    pipeline.Follows (pipeline.writeRawWith handle direction bytes).2 := by
  have follows := handled pipeline bytes direction.isIncoming true
  rw [writeRawWith]
  split
  next same =>
    rw [same] at follows
    exact ⟨follows.store, follows.protocol, follows.limits, follows.depth, follows.table⟩
  next same =>
    rw [same] at follows
    exact follows

/-- To write a message by its definition leaves alone what to handle it leaves alone. -/
theorem follows_writeWith
    (handled : ∀ (pipeline : Pipeline σ) bytes incoming fake,
      pipeline.Follows (handle pipeline bytes incoming fake).2)
    (pipeline : Pipeline σ) (direction : Direction) (name : String) (version : VersionRequest)
    (object : Object) :
    pipeline.Follows (pipeline.writeWith handle direction name version object).2 := by
  rw [writeWith]
  split
  next => exact .refl pipeline
  next => exact follows_writeRawWith handled pipeline direction _

/-- A request leaves alone what to handle its message leaves alone. -/
theorem follows_performWith
    (handled : ∀ (pipeline : Pipeline σ) bytes incoming fake,
      pipeline.Follows (handle pipeline bytes incoming fake).2)
    (pipeline : Pipeline σ) (request : WriteRequest) :
    pipeline.Follows (pipeline.performWith handle request) := by
  cases request with
  | raw direction bytes => exact follows_writeRawWith handled pipeline direction bytes
  | message direction name version object =>
      have follows := follows_writeWith handled pipeline direction name version object
      rw [performWith]
      split
      next same =>
        rw [same] at follows
        exact follows
      next same =>
        rw [same] at follows
        exact follows.trans (follows_remark _ _)

/-- Requests one after the other leave alone what each of them does. -/
theorem follows_foldl_performWith
    (handled : ∀ (pipeline : Pipeline σ) bytes incoming fake,
      pipeline.Follows (handle pipeline bytes incoming fake).2)
    (requests : List WriteRequest) (pipeline : Pipeline σ) :
    pipeline.Follows (requests.foldl (performWith handle) pipeline) := by
  induction requests generalizing pipeline with
  | nil => exact .refl pipeline
  | cons request rest ih => exact (follows_performWith handled pipeline request).trans (ih _)

/-- To handle a message and then do what its hooks asked for leaves the rest alone. -/
theorem follows_handleWith {flush : Pipeline σ → List WriteRequest → Pipeline σ}
    (flushed : ∀ (pipeline : Pipeline σ) requests, pipeline.Follows (flush pipeline requests))
    (pipeline : Pipeline σ) (bytes : Bytes) (incoming fake : Bool) :
    pipeline.Follows (pipeline.handleWith pass flush bytes incoming fake).2 :=
  (follows_passHooks pipeline bytes incoming fake).trans (flushed _ _)

/-- Requests are performed one level deeper, one after the other. -/
theorem flush_succ (levels : Nat) (pipeline : Pipeline σ) (request : WriteRequest)
    (rest : List WriteRequest) :
    flush pass (levels + 1) pipeline (request :: rest) =
      ((request :: rest).foldl (performWith (handleWith pass (flush pass levels)))
        (pipeline.deeper 1)).outer :=
  rfl

/-- **To do what hooks asked for leaves the rest alone**, however deep it nests. -/
theorem follows_flush (levels : Nat) (pipeline : Pipeline σ) (requests : List WriteRequest) :
    pipeline.Follows (flush pass levels pipeline requests) := by
  induction levels generalizing pipeline requests with
  | zero =>
      cases requests with
      | nil => exact .refl pipeline
      | cons request rest => exact follows_remark pipeline _
  | succ levels ih =>
      cases requests with
      | nil => exact .refl pipeline
      | cons request rest =>
          rw [flush_succ]
          exact (follows_foldl_performWith (follows_handleWith ih) _ (pipeline.deeper 1)).outer

/-- To handle a message leaves alone what the hooks cannot change. -/
theorem follows_handle (pipeline : Pipeline σ) (bytes : Bytes) (incoming fake : Bool) :
    pipeline.Follows (pipeline.handle bytes incoming fake).2 :=
  follows_handleWith (follows_flush pipeline.levels) pipeline bytes incoming fake

/-- To write the bytes of a message leaves alone what the hooks cannot change. -/
theorem follows_writeRaw (pipeline : Pipeline σ) (direction : Direction) (bytes : Bytes) :
    pipeline.Follows (pipeline.writeRaw direction bytes).2 :=
  follows_writeRawWith follows_handle pipeline direction bytes

/-- To write a message leaves alone what the hooks cannot change. -/
theorem follows_write (pipeline : Pipeline σ) (direction : Direction) (name : String)
    (version : VersionRequest) (object : Object) :
    pipeline.Follows (pipeline.write direction name version object).2 :=
  follows_writeWith follows_handle pipeline direction name version object

/-! ## The depth tells the levels -/

/-- Bytes are written alike if they are handled alike. -/
theorem writeRawWith_congr {other : Pipeline σ → Bytes → Bool → Bool → Outcome × Pipeline σ}
    {pipeline : Pipeline σ} (same : handle pipeline = other pipeline) (direction : Direction)
    (bytes : Bytes) :
    pipeline.writeRawWith handle direction bytes = pipeline.writeRawWith other direction bytes := by
  rw [writeRawWith, writeRawWith, same]

/-- A request is performed alike if its message is handled alike. -/
theorem performWith_congr {other : Pipeline σ → Bytes → Bool → Bool → Outcome × Pipeline σ}
    {pipeline : Pipeline σ} (same : handle pipeline = other pipeline) (request : WriteRequest) :
    pipeline.performWith handle request = pipeline.performWith other request := by
  cases request with
  | raw direction bytes => rw [performWith, performWith, writeRawWith_congr same]
  | message direction name version object =>
      simp only [performWith, writeWith, writeRawWith_congr same]

/-- **Requests are performed by the pipeline itself.** The messages that hooks ask for are written
as anyone writes them, one level deeper, as long as the depth allows it. -/
theorem flush_levels (pipeline : Pipeline σ) (request : WriteRequest) (rest : List WriteRequest) :
    flush Passage.pass pipeline.levels pipeline (request :: rest) =
      if pipeline.limits.writeDepth ≤ pipeline.depth then
        pipeline.remark (.warning "write nesting limit reached, dropping writes"
          [("dropped", toString (rest.length + 1)), ("depth", toString pipeline.depth)])
      else ((request :: rest).foldl (performWith Pipeline.handle) (pipeline.deeper 1)).outer := by
  split
  next reached =>
    rw [levels, Nat.sub_eq_zero_of_le reached]
    rfl
  next allowed =>
    obtain ⟨left, count⟩ : ∃ left, pipeline.levels = left + 1 :=
      Nat.exists_eq_succ_of_ne_zero (Nat.sub_ne_zero_of_lt (Nat.lt_of_not_le allowed))
    have inside : (pipeline.deeper 1).levels = left := by
      change pipeline.limits.writeDepth - (pipeline.depth + 1) = left
      rw [Nat.sub_succ, ← levels, count]
      rfl
    rw [count, flush_succ]
    -- every message is written at the same depth, so the levels that are left stay the same
    generalize (pipeline.deeper 1) = start, request :: rest = requests at inside ⊢
    congr 1
    induction requests generalizing start with
    | nil => rfl
    | cons request rest ih =>
        have same : handleWith Passage.pass (flush Passage.pass left) start = start.handle := by
          funext bytes incoming fake
          rw [Pipeline.handle, inside]
        rw [List.foldl_cons, List.foldl_cons, performWith_congr same]
        exact ih _ ((follows_performWith follows_handle start request).levels.trans inside)

end Relay.Pipeline
