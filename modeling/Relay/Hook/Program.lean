import Relay.Failure
import Relay.Journal
import Relay.Protocol.Version
import Relay.Value

/-! # What hooks do

A hook is a callback that sees a message on its way. While it runs it can ask for messages to be
written and for hooks to be removed; both happen after the message has passed. Its program is a tree
of such requests, so that a callback can do nothing else. -/

namespace Relay

/-- Where a message goes. -/
inductive Direction where
  | toClient
  | toServer
  deriving DecidableEq, Repr

namespace Direction

/-- The direction that the name of a message tells. -/
def ofName? (name : String) : Option Direction :=
  if name.startsWith "S_" || name.startsWith "I_" then some .toClient
  else if name.startsWith "C_" then some .toServer
  else none

/-- Whether messages of a direction come in from the server. -/
def isIncoming : Direction → Bool
  | .toClient => true
  | .toServer => false

end Direction

/-- What is known of a message on its way: whether it was made up, whether it comes in, and whether
hooks before have changed or silenced it. -/
structure Flags where
  fake : Bool
  incoming : Bool
  modified : Bool
  silenced : Bool
  deriving DecidableEq, Repr

/-- What a hook decides about a message. -/
inductive Verdict where
  | pass
  | accept
  | silence
  deriving DecidableEq, Repr

/-- The verdict to keep a message or to silence it. -/
def Verdict.ofKeep (keep : Bool) : Verdict :=
  if keep then .accept else .silence

/-- A message that is to be written. -/
inductive WriteRequest where
  | message (direction : Direction) (name : String) (version : VersionRequest) (object : Object)
  | raw (direction : Direction) (bytes : Bytes)

/-- What a running hook knows of itself and of where it runs. -/
structure HookView where
  handle : Nat
  owner : Option String
  flags : Flags
  protocol : UInt32
  deriving DecidableEq, Repr

/-- The owner, or a word for nobody. -/
def HookView.ownerText (view : HookView) : String :=
  view.owner.getD "<unknown>"

/-- The program of a callback over a world `σ` that it shares with others. -/
inductive Program (σ α : Type) where
  | done (result : α)
  | world (change : σ → σ) (next : σ → Program σ α)
  | write (request : WriteRequest) (next : Bool → Program σ α)
  | unhook (handle : Nat) (next : Program σ α)
  | remark (entry : Entry) (next : Program σ α)

namespace Program

/-- Go on with another program. -/
def bind (program : Program σ α) (after : α → Program σ β) : Program σ β :=
  match program with
  | .done result => after result
  | .world change next => .world change fun state => (next state).bind after
  | .write request next => .write request fun kept => (next kept).bind after
  | .unhook handle next => .unhook handle (next.bind after)
  | .remark entry next => .remark entry (next.bind after)

instance : Monad (Program σ) where
  pure := .done
  bind := bind

/-- The world. -/
def get : Program σ σ := .world id .done

/-- Change the world. -/
def modify (change : σ → σ) : Program σ Unit := .world change fun _ => .done ()

/-- Ask for a message to be written, and learn whether there is room for it. -/
def request (message : WriteRequest) : Program σ Bool := .write message .done

/-- Ask for a message to be written in the direction that its name tells. -/
def send (view : HookView) (name : String) (version : VersionRequest) (object : Object) :
    Program σ Bool :=
  match Direction.ofName? name with
  | some direction => request (.message direction name version object)
  | none =>
    .remark (.warning "unknown message direction" [("module", view.ownerText), ("name", name)])
      (.done false)

end Program

/-- What a running hook has asked for. -/
structure Requests (σ : Type) where
  world : σ
  writes : Array WriteRequest
  unhooks : Array Nat
  remarks : Journal

/-- Run a program. Beyond `limit` messages there is no room. -/
def Program.run (view : HookView) (limit : Nat) : Program σ α → Requests σ → α × Requests σ
  | .done result, requests => (result, requests)
  | .world change next, ⟨state, writes, unhooks, remarks⟩ =>
    let state := change state
    (next state).run view limit ⟨state, writes, unhooks, remarks⟩
  | .write request next, ⟨state, writes, unhooks, remarks⟩ =>
    if limit ≤ writes.size then
      (next false).run view limit ⟨state, writes, unhooks, remarks.push
        (.warning "deferred write limit reached, dropping write"
          [("hook", toString view.handle), ("module", view.ownerText),
            ("limit", toString limit)])⟩
    else (next true).run view limit ⟨state, writes.push request, unhooks, remarks⟩
  | .unhook handle next, ⟨state, writes, unhooks, remarks⟩ =>
    next.run view limit ⟨state, writes, unhooks.push handle, remarks⟩
  | .remark entry next, ⟨state, writes, unhooks, remarks⟩ =>
    next.run view limit ⟨state, writes, unhooks, remarks.push entry⟩

end Relay
