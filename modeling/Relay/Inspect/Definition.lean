import Relay.Files.Tree
import Relay.Inspect.Complaint
import Relay.Layout.Parse

/-! # Reports on definition files -/

namespace Relay.Inspect

/-- What came of reading a definition file: its layout, the lines that were left out, and whether
the layout is at fault. -/
structure DefinitionReport where
  path : String
  layout : Layout
  errors : List Layout.LineError
  fault : Option LayoutError

namespace DefinitionReport

/-- Read a definition file. -/
def load (tree : Files.Tree) (path : String) : Except Complaint (DefinitionReport × Journal) :=
  match tree.readText path with
  | .error cause => .error (.of s!"read definition {path}" [] cause.message)
  | .ok source =>
    let (parsed, remarks) := Layout.parse source path
    let fault :=
      match parsed.layout.check with
      | .ok () => none
      | .error error => some error
    .ok (⟨path, parsed.layout, parsed.errors, fault⟩, remarks)

/-- Whether nothing is at fault. -/
def isClean (report : DefinitionReport) : Bool :=
  report.errors.isEmpty && report.fault.isNone

/-- The text of a report. -/
def text (report : DefinitionReport) : String :=
  let warnings := report.errors.map fun error => s!"warning: {error.message}\n"
  let fault := report.fault.elim "" fun error => s!"error: {error.message}\n"
  s!"# {report.path}\n" ++ report.layout.render ++ String.join warnings ++ fault

end DefinitionReport

end Relay.Inspect
