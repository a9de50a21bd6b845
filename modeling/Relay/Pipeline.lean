import Relay.Frame.Header
import Relay.Hook.Table
import Relay.Protocol.Resolve

/-! # The pipeline of a connection

Every message of a connection passes the hooks that are registered for it, and is forwarded or
dropped. Messages that hooks write pass the pipeline themselves once the message that caused them
has passed, and what is forwarded of them waits to be sent. How many messages a message may cause,
and how deep this may nest, is limited. -/

namespace Relay

/-- How many messages the hooks of one message may write, and how deep writing may nest. -/
structure PipelineLimits where
  deferredWrites : Nat
  writeDepth : Nat
  deriving DecidableEq, Repr

namespace PipelineLimits

/-- The usual limits. -/
def standard : PipelineLimits := ⟨64, 8⟩

/-- Small limits. -/
def small : PipelineLimits := ⟨4, 2⟩

/-- The largest limits. -/
def largest : PipelineLimits := ⟨UInt64.size - 1, UInt64.size - 1⟩

end PipelineLimits

/-- Why a hook is not registered or a message is not written. -/
inductive PipelineError where
  | store (cause : StoreError)
  | unmappedMessage (name : String)
  | wildcardVersion (version : UInt32)
  | obsoleteDefinition (name : String) (version : UInt32)
  | definitionNotFound (name : String) (version : VersionRequest)
  deriving DecidableEq, Repr

namespace PipelineError

/-- The wording of a refusal. -/
def message : PipelineError → String
  | .store cause => cause.message
  | .unmappedMessage name => s!"hook: unmapped message \"{name}\""
  | .wildcardVersion version =>
    s!"hook: * hook must request version * or raw (given {version})"
  | .obsoleteDefinition name version => s!"hook: obsolete definition {name}.{version}"
  | .definitionNotFound name version => s!"hook: definition not found {name}.{version.text}"

/-- The wordings of what led to a refusal, nearest first. -/
def causes : PipelineError → List String
  | .store cause => cause.causes
  | _ => []

/-- What was said of the file or the text that led to a refusal. -/
def detail? : PipelineError → Option String
  | .store cause => cause.detail?
  | _ => none

/-- The wording of a refusal and of what led to it. -/
def messages (error : PipelineError) : List String :=
  error.message :: error.causes ++ error.detail?.toList

end PipelineError

/-- What becomes of a message. -/
inductive Outcome where
  | forward (bytes : Bytes)
  | dropped
  deriving DecidableEq, Repr

/-- A message that waits to be sent. -/
structure Outbound where
  direction : Direction
  bytes : Bytes
  deriving DecidableEq, Repr

/-- The state of a connection, over a world `σ` that its callbacks share. -/
structure Pipeline (σ : Type) where
  store : Store
  protocol : UInt32
  limits : PipelineLimits
  table : HookTable σ
  outbox : Array Outbound
  depth : Nat
  world : σ
  remarks : Journal

namespace Pipeline

/-- The pipeline of a connection that speaks a protocol, and what an operator is told. -/
def new (store : Store) (protocol : UInt32) (limits : PipelineLimits) (world : σ) :
    Except PipelineError (Pipeline σ) × Journal :=
  match store.table? protocol with
  | none =>
    (.error (.store (.unmappedProtocol protocol)),
      #[.failure "unmapped protocol version" [("protocol", toString protocol.toNat)]])
  | some _ =>
    (.ok ⟨store, protocol, limits, .empty, #[], 0, world, #[]⟩,
      #[.info "switching to protocol version"
        [("protocol", toString protocol.toNat), ("platform", store.platform.name)]])

/-- Note a remark. -/
def remark (pipeline : Pipeline σ) (entry : Entry) : Pipeline σ :=
  { pipeline with remarks := pipeline.remarks.push entry }

/-- Refuse a version of which no hook can be registered. -/
def checkVersion (store : Store) (name : String) (version : VersionRequest) :
    Except PipelineError Unit :=
  match version, store.latest? name with
  | .latest, some _ => .ok ()
  | .latest, none => .error (.definitionNotFound name version)
  | .exact wanted, latest =>
    if store.hasDefinition name wanted then .ok ()
    else if latest.any fun latest => wanted < latest then
      .error (.obsoleteDefinition name wanted)
    else .error (.definitionNotFound name version)

/-- The code of the messages that a hook is for, none for all messages. -/
def targetCode (pipeline : Pipeline σ) (target : String) (callback : Callback σ) :
    Except PipelineError (Option UInt16) :=
  if target = "*" then
    match callback with
    | .parsed (.exact version) _ => .error (.wildcardVersion version)
    | _ => .ok none
  else
    match (pipeline.store.table? pipeline.protocol).bind (·.code? target), callback with
    | none, _ => .error (.unmappedMessage target)
    | some code, .raw _ => .ok (some code)
    | some code, .parsed version _ => do
      checkVersion pipeline.store target version
      pure (some code)

/-- Register a hook. -/
def hook (pipeline : Pipeline σ) (owner : Option String) (target : String)
    (callback : Callback σ) (options : HookOptions) :
    Except PipelineError Nat × Pipeline σ :=
  match pipeline.targetCode target callback with
  | .error error => (.error error, pipeline)
  | .ok code =>
    let (handle, table) := pipeline.table.insert code fun handle =>
      ⟨handle, options.order, owner, target, options.filter, options.once, callback⟩
    (.ok handle, { pipeline with table := table })

/-- Remove a hook, and tell whether there was one. -/
def unhook (pipeline : Pipeline σ) (handle : Nat) : Bool × Pipeline σ :=
  ((pipeline.table.find? handle).isSome,
    { pipeline with table := pipeline.table.remove handle })

/-- Remove a hook if it belongs to an owner, and tell whether it did. -/
def unhookOwned (pipeline : Pipeline σ) (owner : String) (handle : Nat) : Bool × Pipeline σ :=
  if (pipeline.table.find? handle).any fun hook => hook.owner == some owner then
    (true, { pipeline with table := pipeline.table.remove handle })
  else (false, pipeline)

/-- Remove all hooks of an owner, and count them. -/
def unhookOwner (pipeline : Pipeline σ) (owner : String) : Nat × Pipeline σ :=
  (pipeline.table.countOwnedBy owner,
    { pipeline with table := pipeline.table.removeOwnedBy owner })

/-- Remove all hooks and drop the messages that wait. -/
def reset (pipeline : Pipeline σ) : Pipeline σ :=
  { pipeline with table := pipeline.table.clear, outbox := #[] }

/-- Take out the messages that wait, the oldest first. -/
def drain (pipeline : Pipeline σ) : List Outbound × Pipeline σ :=
  (pipeline.outbox.toList, { pipeline with outbox := #[] })

/-- A message while it passes its hooks. What was read of it is kept by version for as long as its
bytes stay the same; a version of which it could not be read is kept as well. -/
structure Passage (σ : Type) where
  bytes : Bytes
  flags : Flags
  readings : List (UInt32 × Option Object)
  finished : List Nat
  requests : Requests σ

namespace Passage

/-- Note a failure of a hook. -/
def complain (passage : Passage σ) (hook : Hook σ) (text : String)
    (details : List (String × String)) : Passage σ :=
  let place := [("hook", toString hook.handle), ("module", hook.owner.getD "<unknown>")]
  let remarks := passage.requests.remarks.push (.failure text (place ++ details))
  { passage with requests := { passage.requests with remarks := remarks } }

/-- Change the flags by a verdict. -/
def judge (passage : Passage σ) : Verdict → Passage σ
  | .pass => passage
  | .accept => { passage with flags := { passage.flags with silenced := false } }
  | .silence => { passage with flags := { passage.flags with silenced := true } }

/-- Replace the bytes. -/
def replace (passage : Passage σ) (bytes : Bytes) : Passage σ :=
  { passage with bytes := bytes, readings := [] }

/-- A hook that is to run once has run. -/
def finish (passage : Passage σ) (hook : Hook σ) : Passage σ :=
  if hook.once then { passage with finished := passage.finished ++ [hook.handle] } else passage

/-- What the end of a hook on the bytes does. What a failing hook did to the bytes is undone. -/
def endRaw (code : UInt16) (hook : Hook σ) (passage : Passage σ) : Ending Bytes → Passage σ
  | .ok (verdict, bytes) =>
    let passage :=
      if bytes == passage.bytes then passage
      else { passage.replace bytes with flags := { passage.flags with modified := true } }
    (passage.judge verdict).finish hook
  | .error failure =>
    (passage.complain hook "error running raw hook"
      [("target", hook.target), ("opcode", toString code.toNat),
        ("data", Text.hexBytes passage.bytes),
        ("error", chainText (failure.messages "hook"))]).finish hook

/-- Pass a hook on the bytes. -/
def passRaw (pipeline : Pipeline σ) (code : UInt16) (hook : Hook σ)
    (run : HookView → UInt16 → Bytes → Program σ (Ending Bytes)) (passage : Passage σ) :
    Passage σ :=
  let view := hook.view passage.flags pipeline.protocol
  let ran :=
    (run view code passage.bytes).run view pipeline.limits.deferredWrites passage.requests
  { passage with requests := ran.2 }.endRaw code hook ran.1

/-- Keep what a version of the message was read as, and note why it could not be read. -/
def keep (hook : Hook σ) (resolved : Resolved) (read : Except StoreError Object × Journal)
    (passage : Passage σ) : Passage σ :=
  let passage := { passage with
    readings := (resolved.version, read.1.toOption) :: passage.readings
    requests := { passage.requests with remarks := passage.requests.remarks ++ read.2 } }
  match read.1 with
  | .ok _ => passage
  | .error error =>
    passage.complain hook "failed to parse message"
      [("message", s!"{resolved.name}<{resolved.version}>"),
        ("data", Text.hexBytes passage.bytes),
        ("error", chainText (error.message :: error.causes))]

/-- What a version of the message is read as, from what was read before if there is such. -/
def reading (pipeline : Pipeline σ) (hook : Hook σ) (resolved : Resolved) (passage : Passage σ) :
    Option Object × Passage σ :=
  match passage.readings.lookup resolved.version with
  | some found => (found, passage)
  | none =>
    let read := resolved.read pipeline.protocol passage.bytes
    (read.1.toOption, passage.keep hook resolved read)

/-- What the end of a hook on the object does. Only what it accepts is written back. -/
def endParsed (hook : Hook σ) (resolved : Resolved) (passage : Passage σ) :
    Ending Object → Passage σ
  | .ok (.accept, edited) =>
    let passage :=
      { passage with flags := { passage.flags with modified := true, silenced := false } }
    match resolved.encode edited with
    | .ok bytes => (passage.replace bytes).finish hook
    | .error error =>
      (passage.complain hook "failed to generate message"
        [("message", s!"{resolved.name}<{resolved.version}>"),
          ("error", chainText (error.message :: error.causes))]).finish hook
  | .ok (verdict, _) => (passage.judge verdict).finish hook
  | .error failure =>
    (passage.complain hook "error running hook"
      [("message", s!"{resolved.name}<{resolved.version}>"),
        ("error", chainText (failure.messages "hook"))]).finish hook

/-- Pass a hook on the object of the message. -/
def passParsed (pipeline : Pipeline σ) (hook : Hook σ) (resolved : Resolved) (object : Object)
    (run : HookView → Event → Program σ (Ending Object)) (passage : Passage σ) : Passage σ :=
  let view := hook.view passage.flags pipeline.protocol
  let ran := (run view ⟨resolved.name, resolved.version, passage.flags, object⟩).run view
    pipeline.limits.deferredWrites passage.requests
  { passage with requests := ran.2 }.endParsed hook resolved ran.1

/-- Pass a hook, if it sees the message, where `reading` tells what its object is. -/
def passWith (reading : Pipeline σ → Hook σ → Resolved → Passage σ → Option Object × Passage σ)
    (pipeline : Pipeline σ) (code : UInt16) (passage : Passage σ) (hook : Hook σ) : Passage σ :=
  if hook.filter.admits passage.flags then
    match hook.callback with
    | .raw run => passRaw pipeline code hook run passage
    | .parsed version run =>
      match pipeline.store.resolve pipeline.protocol (.code code) version with
      | .error error =>
        passage.complain hook "failed to resolve hooked message"
          [("opcode", toString code.toNat), ("error", error.message)]
      | .ok resolved =>
        match reading pipeline hook resolved passage with
        | (none, passage) => passage
        | (some object, passage) => passParsed pipeline hook resolved object run passage
  else passage

/-- Pass a hook, if it sees the message. -/
def pass : Pipeline σ → UInt16 → Passage σ → Hook σ → Passage σ :=
  passWith reading

end Passage

/-- Let a message pass a hook of its schedule as `pass` tells, if the hook is still there. -/
def passEntry (pass : Pipeline σ → UInt16 → Passage σ → Hook σ → Passage σ)
    (pipeline : Pipeline σ) (code : UInt16) (passage : Passage σ) (entry : Option UInt16 × Nat) :
    Passage σ :=
  match pipeline.table.get? entry.1 entry.2 with
  | none => passage
  | some hook => pass pipeline code passage hook

/-- Let a message pass the hooks of its schedule, one after the other. -/
def passScheduled (pass : Pipeline σ → UInt16 → Passage σ → Hook σ → Passage σ)
    (pipeline : Pipeline σ) (code : UInt16) (start : Passage σ) : Passage σ :=
  (pipeline.table.schedule code).foldl (passEntry pass pipeline code) start

/-- Remove the hooks that are to go once a message has passed. Tells what becomes of the message
and what the hooks asked to be written. -/
def conclude (pipeline : Pipeline σ) (passage : Passage σ) :
    Outcome × Pipeline σ × List WriteRequest :=
  (if passage.flags.silenced then .dropped else .forward passage.bytes,
    { pipeline with
      table := (passage.finished ++ passage.requests.unhooks.toList).foldl HookTable.remove
        pipeline.table
      world := passage.requests.world
      remarks := passage.requests.remarks },
    passage.requests.writes.toList)

/-- Let a message pass its hooks. A message without hooks or without a front is left as it is. -/
def passHooks (pass : Pipeline σ → UInt16 → Passage σ → Hook σ → Passage σ)
    (pipeline : Pipeline σ) (bytes : Bytes) (incoming fake : Bool) :
    Outcome × Pipeline σ × List WriteRequest :=
  match Frame.Header.read bytes with
  | .error _ =>
    (.forward bytes,
      pipeline.remark (.warning "message shorter than its header, forwarding untouched"
        [("len", toString bytes.size)]), [])
  | .ok header =>
    if (pipeline.table.schedule header.code).isEmpty then (.forward bytes, pipeline, [])
    else
      pipeline.conclude (pipeline.passScheduled pass header.code
        ⟨bytes, ⟨fake, incoming, false, false⟩, [], [],
          ⟨pipeline.world, #[], #[], pipeline.remarks⟩⟩)

/-- Let a message pass its hooks, and then do what they asked for. The messages that they asked for
are written by `flush`. -/
def handleWith (pass : Pipeline σ → UInt16 → Passage σ → Hook σ → Passage σ)
    (flush : Pipeline σ → List WriteRequest → Pipeline σ) (pipeline : Pipeline σ)
    (bytes : Bytes) (incoming fake : Bool) : Outcome × Pipeline σ :=
  let (outcome, pipeline, writes) := pipeline.passHooks pass bytes incoming fake
  (outcome, flush pipeline writes)

/-- Let a message of ours pass its hooks as `handle` tells, and put what is forwarded into the
outbox. -/
def writeRawWith (handle : Pipeline σ → Bytes → Bool → Bool → Outcome × Pipeline σ)
    (pipeline : Pipeline σ) (direction : Direction) (bytes : Bytes) : Bool × Pipeline σ :=
  match handle pipeline bytes direction.isIncoming true with
  | (.forward bytes, pipeline) =>
    (true, { pipeline with outbox := pipeline.outbox.push ⟨direction, bytes⟩ })
  | (.dropped, pipeline) => (false, pipeline)

/-- Write a message by the definition that a request asks for. -/
def writeWith (handle : Pipeline σ → Bytes → Bool → Bool → Outcome × Pipeline σ)
    (pipeline : Pipeline σ) (direction : Direction) (name : String) (version : VersionRequest)
    (object : Object) : Except PipelineError Bool × Pipeline σ :=
  match pipeline.store.write pipeline.protocol (.name name) version object with
  | .error error => (.error (.store error), pipeline)
  | .ok bytes =>
    let (forwarded, pipeline) := pipeline.writeRawWith handle direction bytes
    (.ok forwarded, pipeline)

/-- Do what a hook asked for. -/
def performWith (handle : Pipeline σ → Bytes → Bool → Bool → Outcome × Pipeline σ)
    (pipeline : Pipeline σ) : WriteRequest → Pipeline σ
  | .raw direction bytes => (pipeline.writeRawWith handle direction bytes).2
  | .message direction name version object =>
    match pipeline.writeWith handle direction name version object with
    | (.ok _, pipeline) => pipeline
    | (.error error, pipeline) =>
      pipeline.remark (.failure "deferred write failed"
        [("name", name), ("error", chainText error.messages)])

/-- Do what hooks asked for, one level deeper. Below the last of the `levels` that are left it is
dropped. -/
def flush (pass : Pipeline σ → UInt16 → Passage σ → Hook σ → Passage σ) :
    Nat → Pipeline σ → List WriteRequest → Pipeline σ
  | _, pipeline, [] => pipeline
  | 0, pipeline, requests =>
    pipeline.remark (.warning "write nesting limit reached, dropping writes"
      [("dropped", toString requests.length), ("depth", toString pipeline.depth)])
  | levels + 1, pipeline, requests =>
    let inner := { pipeline with depth := pipeline.depth + 1 }
    let after := requests.foldl (performWith (handleWith pass (flush pass levels))) inner
    { after with depth := after.depth - 1 }

/-- The levels of nesting that are left. -/
def levels (pipeline : Pipeline σ) : Nat :=
  pipeline.limits.writeDepth - pipeline.depth

/-- Let a message pass its hooks. -/
def handle (pipeline : Pipeline σ) (bytes : Bytes) (incoming fake : Bool) :
    Outcome × Pipeline σ :=
  pipeline.handleWith Passage.pass (flush Passage.pass pipeline.levels) bytes incoming fake

/-- Write the bytes of a message, and tell whether they are forwarded. -/
def writeRaw (pipeline : Pipeline σ) (direction : Direction) (bytes : Bytes) : Bool × Pipeline σ :=
  pipeline.writeRawWith handle direction bytes

/-- Write a message, and tell whether it is forwarded. -/
def write (pipeline : Pipeline σ) (direction : Direction) (name : String)
    (version : VersionRequest) (object : Object) : Except PipelineError Bool × Pipeline σ :=
  pipeline.writeWith handle direction name version object

end Pipeline

end Relay
