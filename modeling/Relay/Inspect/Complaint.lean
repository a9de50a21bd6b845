/-! # Complaints

What an inspection ends with when it cannot be done, and its text for an operator. -/

namespace Relay.Inspect

/-- What could not be done, what led to it, nearest first, and what was said of the file or the text
that is to blame. -/
structure Complaint where
  message : String
  causes : List String
  detail : Option String
  deriving DecidableEq, Repr

namespace Complaint

/-- A complaint about something that was tried, by what led to it. -/
def of (message : String) (causes : List String) (detail : Option String := none) : Complaint :=
  ⟨message, causes, detail⟩

/-- A cause whose later lines stand as far to the right as its first. -/
def indented (margin first text : String) : String :=
  first ++ ("\n" ++ margin).intercalate (text.splitOn "\n")

/-- Causes, numbered if there are several. -/
def causeLines : List String → List String
  | [only] => [indented "    " "    " only]
  | causes => causes.zipIdx.map fun (cause, n) =>
    let number := toString n
    indented "       " (String.ofList (List.replicate (5 - number.length) ' ') ++ number ++ ": ")
      cause

/-- The text of a complaint. -/
def text (complaint : Complaint) : String :=
  let causes := complaint.causes ++ complaint.detail.toList
  let listed :=
    if causes.isEmpty then "" else "\n\nCaused by:\n" ++ "\n".intercalate (causeLines causes)
  s!"Error: {complaint.message}{listed}\n"

end Complaint

end Relay.Inspect
