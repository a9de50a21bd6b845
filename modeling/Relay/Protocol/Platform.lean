/-! # Platforms -/

namespace Relay

/-- The kinds of clients, each of which may have definitions of its own. -/
inductive Platform where
  | pc
  | console
  | classic
  deriving DecidableEq, Repr, Inhabited

namespace Platform

/-- All platforms. -/
def all : List Platform := [.pc, .console, .classic]

/-- The word for a platform. -/
def name : Platform → String
  | .pc => "pc"
  | .console => "console"
  | .classic => "classic"

/-- The platform with a name. -/
def ofName? (name : String) : Option Platform :=
  all.find? (·.name == name)

end Platform

end Relay
