import Relay.Exchange.Form
import Relay.Files.Tree

/-! # Files as JSON

Files are an object from paths to contents: a text, an object with hexadecimal digits, or false
where a file or a directory is to be removed. A path that ends in a slash stands for a directory.
-/

namespace Relay.Exchange

open Files

/-- Write, make or remove what lies at a path. -/
def applyFile (node : Node) (path : String) : Json → Option Node
  | .bool false => some (node.remove path)
  | .object [("hex", data)] => do pure (node.write path (← ofJson? data))
  | data => do
    if path.endsWith "/" then pure (node.makeDirectory path)
    else pure (node.write path (← text? data).toUTF8.data)

/-- Apply files in the order of their paths. -/
def applyFiles (node : Node) (files : Members) : Option Node :=
  (files.mergeSort fun (path, _) (other, _) => decide (path ≤ other)).foldlM
    (fun node (path, data) => applyFile node path data) node

end Relay.Exchange
