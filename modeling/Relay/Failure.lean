/-! # Failures of callbacks

What a callback that was handed in from outside ends with when it does not end well. -/

namespace Relay

/-- A callback gives up with a chain of messages, outermost first, or breaks off. -/
inductive Failure where
  | failed (messages : List String)
  | panicked (message : String)
  deriving DecidableEq, Repr

/-- The messages of a failure, where `who` broke off. -/
def Failure.messages (who : String) : Failure → List String
  | .failed messages => messages
  | .panicked message => [who ++ " panicked: " ++ message]

/-- A chain of messages on one line. -/
def chainText (messages : List String) : String :=
  ": ".intercalate messages

end Relay
