import Relay.Proofs.Pipeline.Follows

/-! # Two pipelines abreast

Two pipelines can be compared that let messages pass their hooks in different ways. A likeness that
lasts through what is done around the hooks (`Relay.Pipeline.Lasting`) and is kept by the hooks of
one message (`Relay.Pipeline.KeepsHooks`) is kept by a message with all that it causes
(`Relay.Pipeline.keeps_handleWith_flush`). -/

namespace Relay.Pipeline

variable {σ τ : Type} {like : Pipeline σ → Pipeline τ → Prop}
  {pass : Pipeline σ → UInt16 → Passage σ → Hook σ → Passage σ}
  {passing : Pipeline τ → UInt16 → Passage τ → Hook τ → Passage τ}
  {handle : Pipeline σ → Bytes → Bool → Bool → Outcome × Pipeline σ}
  {handling : Pipeline τ → Bytes → Bool → Bool → Outcome × Pipeline τ}

/-- A likeness of pipelines that lasts through all that is done with them around their hooks. -/
structure Lasting (like : Pipeline σ → Pipeline τ → Prop) : Prop where
  store : ∀ {one other}, like one other → one.store = other.store
  protocol : ∀ {one other}, like one other → one.protocol = other.protocol
  depth : ∀ {one other}, like one other → one.depth = other.depth
  remark : ∀ {one other}, like one other → ∀ entry, like (one.remark entry) (other.remark entry)
  send : ∀ {one other}, like one other → ∀ message,
    like { one with outbox := one.outbox.push message }
      { other with outbox := other.outbox.push message }
  deeper : ∀ {one other}, like one other → like (one.deeper 1) (other.deeper 1)
  outer : ∀ {one other}, like one other → like one.outer other.outer

/-- The hooks of alike pipelines do alike with a message, and ask for the same. -/
def KeepsHooks (like : Pipeline σ → Pipeline τ → Prop)
    (pass : Pipeline σ → UInt16 → Passage σ → Hook σ → Passage σ)
    (passing : Pipeline τ → UInt16 → Passage τ → Hook τ → Passage τ) : Prop :=
  ∀ one other, like one other → ∀ bytes incoming fake,
    (one.passHooks pass bytes incoming fake).1 = (other.passHooks passing bytes incoming fake).1 ∧
      like (one.passHooks pass bytes incoming fake).2.1
        (other.passHooks passing bytes incoming fake).2.1 ∧
      (one.passHooks pass bytes incoming fake).2.2 =
        (other.passHooks passing bytes incoming fake).2.2

/-- Alike pipelines handle a message alike. -/
def Keeps (like : Pipeline σ → Pipeline τ → Prop)
    (handle : Pipeline σ → Bytes → Bool → Bool → Outcome × Pipeline σ)
    (handling : Pipeline τ → Bytes → Bool → Bool → Outcome × Pipeline τ) : Prop :=
  ∀ one other, like one other → ∀ bytes incoming fake,
    (handle one bytes incoming fake).1 = (handling other bytes incoming fake).1 ∧
      like (handle one bytes incoming fake).2 (handling other bytes incoming fake).2

section Written

variable {one : Pipeline σ} {other : Pipeline τ}

/-- Two pipelines that are alike stay so when the same bytes are written to both. -/
theorem like_writeRawWith (lasting : Lasting like) (keeps : Keeps like handle handling)
    (alike : like one other) (direction : Direction) (bytes : Bytes) :
    like (one.writeRawWith handle direction bytes).2
      (other.writeRawWith handling direction bytes).2 := by
  have both := keeps one other alike bytes direction.isIncoming true
  rw [writeRawWith, writeRawWith]
  revert both
  rcases handle one bytes direction.isIncoming true with ⟨outcome, after⟩
  rcases handling other bytes direction.isIncoming true with ⟨ending, later⟩
  rintro ⟨rfl, alike⟩
  cases outcome with
  | forward bytes => exact lasting.send alike ⟨direction, bytes⟩
  | dropped => exact alike

/-- Two pipelines that are alike stay so when both do what a hook asked for. -/
theorem like_performWith (lasting : Lasting like) (keeps : Keeps like handle handling)
    (alike : like one other) (request : WriteRequest) :
    like (one.performWith handle request) (other.performWith handling request) := by
  cases request with
  | raw direction bytes => exact like_writeRawWith lasting keeps alike direction bytes
  | message direction name version object =>
      rw [performWith, performWith, writeWith, writeWith, lasting.store alike,
        lasting.protocol alike]
      cases other.store.write other.protocol (.name name) version object with
      | error => exact lasting.remark alike _
      | ok bytes => exact like_writeRawWith lasting keeps alike direction bytes

/-- Two pipelines that are alike stay so when both do the same requests in order. -/
theorem like_foldl_performWith (lasting : Lasting like) (keeps : Keeps like handle handling)
    (alike : like one other) (requests : List WriteRequest) :
    like (requests.foldl (performWith handle) one)
      (requests.foldl (performWith handling) other) := by
  induction requests generalizing one other with
  | nil => exact alike
  | cons request rest ih => exact ih (like_performWith lasting keeps alike request)

end Written

/-- Two pipelines that are alike stay so when both handle a message and do what its hooks asked
for. -/
theorem keeps_handleWith {flush : Pipeline σ → List WriteRequest → Pipeline σ}
    {flushing : Pipeline τ → List WriteRequest → Pipeline τ} (hooks : KeepsHooks like pass passing)
    (flushed : ∀ one other, like one other → ∀ requests,
      like (flush one requests) (flushing other requests)) :
    Keeps like (handleWith pass flush) (handleWith passing flushing) := by
  intro one other alike bytes incoming fake
  obtain ⟨outcome, passed, requests⟩ := hooks one other alike bytes incoming fake
  refine ⟨outcome, ?_⟩
  change like (flush _ (one.passHooks pass bytes incoming fake).2.2)
    (flushing _ (other.passHooks passing bytes incoming fake).2.2)
  rw [requests]
  exact flushed _ _ passed _

/-- Two pipelines that are alike stay so at any depth of nesting. -/
theorem like_flush (lasting : Lasting like) (hooks : KeepsHooks like pass passing) (levels : Nat)
    (one : Pipeline σ) (other : Pipeline τ) (alike : like one other)
    (requests : List WriteRequest) :
    like (flush pass levels one requests) (flush passing levels other requests) := by
  induction levels generalizing one other requests with
  | zero =>
      cases requests with
      | nil => exact alike
      | cons request rest =>
          change like (one.remark (.warning _ [_, ("depth", toString one.depth)])) _
          rw [lasting.depth alike]
          exact lasting.remark alike _
  | succ levels ih =>
      cases requests with
      | nil => exact alike
      | cons request rest =>
          rw [flush_succ, flush_succ]
          exact lasting.outer (like_foldl_performWith lasting (keeps_handleWith hooks ih)
            (lasting.deeper alike) (request :: rest))

/-- **A likeness lasts.** What the hooks of every message keep is kept by a message with all that it
causes. -/
theorem keeps_handleWith_flush (lasting : Lasting like) (hooks : KeepsHooks like pass passing)
    (levels : Nat) :
    Keeps like (handleWith pass (flush pass levels)) (handleWith passing (flush passing levels)) :=
  keeps_handleWith hooks (like_flush lasting hooks levels)

end Relay.Pipeline
