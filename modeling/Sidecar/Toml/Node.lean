/-!
# TOML documents

A document is a tree of tables. How a table came about decides who may add to it later
(`TableKind`): a table with a header of its own takes no second header and nothing by dotted keys
from outside; a table that a longer header only passed through may still get its header; a table
made by dotted keys may get more of them; and a table written in braces is closed.

`Node.enter` walks from a table along a path and changes what it finds there. All the rules about
defining things twice are rules about which steps of such a walk are allowed.
-/

namespace Sidecar

namespace Toml

/-- How a table came about. -/
inductive TableKind where
  | headed
  | implied
  | dotted
  | closed
deriving DecidableEq, Repr

/-- A value, a table, or a list of tables under one header, the last of them first. -/
inductive Node where
  | string (value : String)
  | integer (value : Int)
  | boolean (value : Bool)
  | float
  | datetime
  | array (items : List Node)
  | table (kind : TableKind) (entries : List (String × Node))
  | tables (latestFirst : List Node)
deriving Inhabited

/-- Set a key to a node, in its old place or at the end. -/
def setEntry (key : String) (node : Node) : List (String × Node) → List (String × Node)
  | [] => [(key, node)]
  | (k, n) :: rest => if k = key then (key, node) :: rest else (k, n) :: setEntry key node rest

namespace Node

/-- The table a walk makes where there is none yet. -/
def fresh (dotted : Bool) : Node := table (if dotted then .dotted else .implied) []

/-- May a walk pass into a table of this kind? Dotted keys do not pass into a table that has a
header of its own. -/
def mayEnter (dotted : Bool) (kind : TableKind) : Bool :=
  kind != .closed && !(dotted && kind == .headed)

/-- Walk from a table along a path, making what is missing, and change the table at its end. -/
def enter (dotted : Bool) (change : Node → Option Node) : List String → Node → Option Node
  | [], node => change node
  | key :: path, .table kind entries =>
    match entries.lookup key with
    | none => do
      let child ← enter dotted change path (fresh dotted)
      return .table kind (setEntry key child entries)
    | some (.table k es) =>
      if mayEnter dotted k then do
        let child ← enter dotted change path (.table k es)
        return .table kind (setEntry key child entries)
      else none
    | some (.tables (last :: earlier)) => do
      let child ← enter dotted change path last
      return .table kind (setEntry key (.tables (child :: earlier)) entries)
    | some _ => none
  | _ :: _, _ => none

/-- Add a new key to a table. -/
def addKey (node : Node) (key : String) (value : Node) : Option Node :=
  match node with
  | .table kind entries =>
    if (entries.lookup key).isSome then none else some (.table kind (entries ++ [(key, value)]))
  | _ => none

/-- Was the table made by dotted keys? -/
def isDotted : Node → Bool
  | .table .dotted _ => true
  | _ => false

/-- Set the key that a dotted path leads to. The table that gets it must have been made by dotted
keys, unless it is the present one. -/
def setKey (node : Node) (path : List String) (key : String) (value : Node) : Option Node :=
  node.enter true (fun n => if path = [] ∨ n.isDotted then n.addKey key value else none) path

/-- Put a header of its own on the table that a path leads to. -/
def openTable (node : Node) (path : List String) (key : String) : Option Node :=
  let change : Node → Option Node
    | .table kind entries =>
      match entries.lookup key with
      | none => some (.table kind (setEntry key (.table .headed []) entries))
      | some (.table .implied es) =>
        some (.table kind (setEntry key (.table .headed es) entries))
      | some _ => none
    | _ => none
  node.enter false change path

/-- Add a table to the list of tables that a path leads to. -/
def openTables (node : Node) (path : List String) (key : String) : Option Node :=
  let change : Node → Option Node
    | .table kind entries =>
      match entries.lookup key with
      | none => some (.table kind (setEntry key (.tables [.table .headed []]) entries))
      | some (.tables ts) =>
        some (.table kind (setEntry key (.tables (.table .headed [] :: ts)) entries))
      | some _ => none
    | _ => none
  node.enter false change path

end Node

end Toml

end Sidecar
