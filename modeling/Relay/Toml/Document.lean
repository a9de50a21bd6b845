/-! # TOML documents

A document is built line by line. A header opens a table and the lines below put values into it;
both may go through tables that were not opened yet. No table is opened twice, and a table that a
header opened is not extended from elsewhere by keys with points. -/

namespace Relay.Toml

/-- What a key stands for. Of numbers with a fraction and of moments nothing is kept. -/
inductive Value where
  | text (value : String)
  | boolean (value : Bool)
  | integer (value : Int)
  | real
  | moment
  | array (items : List Value)
  | table (entries : List (String × Value))
  deriving Inhabited

/-- How a table came about: on the way of a header, on the way of a key with points, or by a header
of its own. -/
inductive Origin where
  | implied
  | dotted
  | opened
  deriving DecidableEq, Repr

/-- What a document holds while it is being built. Values stay as they are; tables and the last of
some tables can grow. -/
inductive Item where
  | value (value : Value)
  | table (origin : Origin) (entries : List (String × Item))
  | tables (rows : List (List (String × Item)))
  deriving Inhabited

/-- The entries of a table that is being built. -/
abbrev Entries := List (String × Item)

namespace Entries

/-- Replace the item of a key, or put it behind the others. -/
def put (entries : Entries) (key : String) (item : Item) : Entries :=
  match entries.findIdx? (·.1 == key) with
  | some place => entries.set place (key, item)
  | none => entries ++ [(key, item)]

/-- Change the last of some rows. -/
def changeLast (change : Entries → Option Entries) : List Entries → Option (List Entries)
  | [] => none
  | [row] => (change row).map ([·])
  | row :: rows => (changeLast change rows).map (row :: ·)

/-- Go down a path and change the table at its end, of which `origin` is told. What is missing is
made. The path of a key must not go through tables that headers opened. -/
def descend (byKey : Bool) (change : Origin → Entries → Option Entries) (origin : Origin) :
    List String → Entries → Option Entries
  | [], entries => change origin entries
  | key :: path, entries =>
    match entries.lookup key with
    | none =>
      let made : Origin := if byKey then .dotted else .implied
      (descend byKey change made path []).map fun inner =>
        entries ++ [(key, .table made inner)]
    | some (.value _) => none
    | some (.table made inner) =>
      if byKey ∧ made = .opened then none
      else
        (descend byKey change made path inner).map fun inner =>
          entries.put key (.table made inner)
    | some (.tables rows) =>
      (changeLast (descend byKey change .opened path) rows).map fun rows =>
        entries.put key (.tables rows)

/-- Put a value under a key with points. The last table on its way was made for such keys. -/
def insert (entries : Entries) (path : List String) (key : String) (item : Item) :
    Option Entries :=
  descend true (fun origin inner =>
    if !path.isEmpty && origin != .dotted then none
    else if (inner.lookup key).isSome then none
    else some (inner ++ [(key, item)])) .opened path entries

/-- Open a table. -/
def openTable (entries : Entries) (path : List String) (key : String) : Option Entries :=
  descend false (fun _ outer =>
    match outer.lookup key with
    | none => some (outer ++ [(key, .table .opened [])])
    | some (.table .implied inner) => some (outer.put key (.table .opened inner))
    | some _ => none) .opened path entries

/-- Open the next row of some tables. -/
def openRow (entries : Entries) (path : List String) (key : String) : Option Entries :=
  descend false (fun _ outer =>
    match outer.lookup key with
    | none => some (outer ++ [(key, .tables [[]])])
    | some (.tables rows) => some (outer.put key (.tables (rows ++ [[]])))
    | some _ => none) .opened path entries

/-- Put a value into the table that a header opened. -/
def insertBelow (entries : Entries) (header path : List String) (key : String) (value : Value) :
    Option Entries :=
  descend false (fun _ inner => inner.insert path key (.value value)) .opened header entries

end Entries

mutual

/-- The value of a finished item. -/
def Item.finish : Item → Value
  | .value value => value
  | .table _ entries => .table (finishEntries entries)
  | .tables rows => .array (finishRows rows)

/-- The entries of a finished table. -/
def finishEntries : List (String × Item) → List (String × Value)
  | [] => []
  | (key, item) :: rest => (key, item.finish) :: finishEntries rest

/-- The rows of finished tables. -/
def finishRows : List (List (String × Item)) → List Value
  | [] => []
  | row :: rest => .table (finishEntries row) :: finishRows rest

end

end Relay.Toml
