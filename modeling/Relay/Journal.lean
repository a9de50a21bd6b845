/-! # Journal of remarks

Operations never print. What is worth telling an operator is returned as a list of entries in the
order in which they arose, each with a severity, a text and named details. -/

namespace Relay

/-- How serious an entry is. -/
inductive Severity where
  | info
  | warning
  | failure
  deriving DecidableEq, Repr

/-- One remark: a fixed text and the details that belong to it. -/
structure Entry where
  severity : Severity
  text : String
  details : List (String × String) := []
  deriving DecidableEq, Repr

/-- The remarks of a run, oldest first. -/
abbrev Journal := Array Entry

namespace Entry

/-- A remark about normal progress. -/
def info (text : String) (details : List (String × String)) : Entry :=
  ⟨.info, text, details⟩

/-- A remark about something odd that was coped with. -/
def warning (text : String) (details : List (String × String)) : Entry :=
  ⟨.warning, text, details⟩

/-- A remark about something that could not be done. -/
def failure (text : String) (details : List (String × String)) : Entry :=
  ⟨.failure, text, details⟩

end Entry

end Relay
