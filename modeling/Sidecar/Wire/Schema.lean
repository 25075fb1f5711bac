import Sidecar.Dict
import Sidecar.Json.Scan
import Sidecar.Json.Print

/-!
# Schemas

The layout of messages on the wire is data: a `Schema` says which JSON values spell a message, and
a `Datum` is the content that is spelled. `Schema.write` spells a datum in the one way the library
writes it, and `Schema.read?` understands all the ways it accepts: members in any order, records as
arrays of their fields, unions as a pair, bytes as a string.

A union is spelled as an object with the members `type`, the name of the case, and `data`, its
content. Which of the two comes first matters for what is accepted: content whose case is known is
read as it streams in, while content that comes before its case has to be held back as an ordinary
value first (`Value.storable`) and is read from there. `Mode` tells the two ways apart.
-/

namespace Sidecar

open Json

/-! ## Layouts and contents -/

/-- The ways a record is spelled. A `required` record may be an array of all its fields. A `zeroed`
record may lack any field, which then is zero or empty. An `inline` record is an object only. -/
inductive RecordForm where
  | required
  | zeroed
  | inline
deriving DecidableEq, Repr

mutual

/-- A layout. Natural numbers are below their bound, and a `name` is one of a list of names. The
cases of a union are fields whose content is `unit` where the case has none. -/
inductive Schema where
  | unit
  | flag
  | nat (bound : Nat)
  | text
  | name (names : List String)
  | bytes
  | dict
  | option (content : Schema)
  | list (item : Schema)
  | record (form : RecordForm) (fields : Fields)
  | union (cases : Fields)

/-- Named layouts, in the order in which they are declared. -/
inductive Fields where
  | nil
  | cons (name : String) (schema : Schema) (rest : Fields)

end

/-- A content. -/
inductive Datum where
  | unit
  | flag (value : Bool)
  | nat (value : Nat)
  | text (value : String)
  | bytes (value : Bytes)
  | dict (value : Dict String)
  | none
  | some (value : Datum)
  | list (items : List Datum)
  | record (fields : List Datum)
  | case (name : String) (content : Datum)

/-- The names of the fields. -/
def Fields.names : Fields → List String
  | nil => []
  | cons name _ rest => name :: rest.names

/-- The fields of a list. -/
def Fields.ofList : List (String × Schema) → Fields
  | [] => nil
  | (name, schema) :: rest => cons name schema (ofList rest)

/-! ## Values that are not read at once -/

namespace Json

mutual

/-- Is the value accepted where nobody reads it? Its strings must not hold bare control
characters. -/
def Value.ignorable : Value → Bool
  | .string pieces => plain pieces
  | .array items => ignorableItems items
  | .object members => ignorableMembers members
  | _ => true

/-- Are all the items accepted where nobody reads them? -/
def ignorableItems : List Value → Bool
  | [] => true
  | item :: items => item.ignorable && ignorableItems items

/-- Is the member accepted where nobody reads it? -/
def ignorableMember : List Piece × Value → Bool
  | (key, value) => plain key && value.ignorable

/-- Are all the members accepted where nobody reads them? -/
def ignorableMembers : List (List Piece × Value) → Bool
  | [] => true
  | member :: members => ignorableMember member && ignorableMembers members

end

mutual

/-- Can the value be held back, with so many levels of nesting left? Its strings must be texts, its
numbers finite, and the last level is never entered. -/
def Value.storable : Value → Nat → Bool
  | .null, _ | .bool _, _ => true
  | .number n, _ => n.isFinite
  | .string pieces, _ => (text? pieces).isSome
  | .array items, depth => 1 < depth && storableItems items (depth - 1)
  | .object members, depth => 1 < depth && storableMembers members (depth - 1)

/-- Can all the items be held back? -/
def storableItems : List Value → Nat → Bool
  | [], _ => true
  | item :: items, depth => item.storable depth && storableItems items depth

/-- Can the member be held back? -/
def storableMember : List Piece × Value → Nat → Bool
  | (key, value), depth => (text? key).isSome && value.storable depth

/-- Can all the members be held back? -/
def storableMembers : List (List Piece × Value) → Nat → Bool
  | [], _ => true
  | member :: members, depth => storableMember member depth && storableMembers members depth

end

end Json

/-- How a value is read: while it streams in, with so many levels of nesting left, or from a value
that was held back. -/
inductive Mode where
  | streamed (depth : Nat)
  | stored
deriving DecidableEq, Repr

namespace Mode

/-- Enter an array or object. The last level of nesting is never entered. -/
def enter? : Mode → Option Mode
  | streamed depth => if 1 < depth then some (streamed (depth - 1)) else none
  | stored => some stored

/-- Is a value that nobody reads accepted? A value that was held back has been checked already. -/
def accepts (mode : Mode) (value : Value) : Bool :=
  match mode with
  | streamed _ => value.ignorable
  | stored => true

/-- The way content is read that comes before the name of its case: it is held back first. -/
def hold? (mode : Mode) (content : Value) : Option Mode :=
  match mode with
  | streamed depth => if content.storable depth then some stored else none
  | stored => some stored

end Mode

/-! ## Members of objects -/

/-- The members of an object under their keys as texts. -/
def keyed? (members : List (List Piece × Value)) : Option (List (String × Value)) :=
  members.mapM fun (key, value) => (text? key).map fun key => (key, value)

/-- Does each of the names occur at most once as a key, and may all other members be ignored? -/
def wellKeyed (mode : Mode) (names : List String) (members : List (String × Value)) : Bool :=
  names.all (fun name => (members.filter fun m => m.1 = name).length ≤ 1) &&
    members.all fun m => names.contains m.1 || mode.accepts m.2

/-- The names of a union's two members. -/
def unionNames : List String := ["type", "data"]

/-- Does the content come before the name of the case? -/
def contentFirst (members : List (String × Value)) : Bool :=
  match members.find? fun m => unionNames.contains m.1 with
  | some m => m.1 = "data"
  | none => false

/-! ## Reading -/

/-- The text a value spells. -/
def readText? : Value → Option String
  | .string pieces => text? pieces
  | _ => none

/-- The natural number below the bound that a value spells. -/
def readNat? (bound : Nat) : Value → Option Nat
  | .number n => n.nat?.filter (· < bound)
  | _ => none

/-- The bytes a value spells: an array of numbers, or a string. A string that streams in may hold
anything. -/
def readBytes? (mode : Mode) : Value → Option Bytes
  | .string pieces =>
    match mode with
    | .streamed _ => some (lenientBytes pieces)
    | .stored => utf8 <$> text? pieces
  | .array items => do
    let _ ← mode.enter?
    items.mapM fun item => UInt8.ofNat <$> readNat? 256 item
  | _ => none

/-- The dictionary of texts a value spells. -/
def readDict? (mode : Mode) : Value → Option (Dict String)
  | .object members => do
    let _ ← mode.enter?
    let members ← keyed? members
    Dict.ofList <$> members.mapM fun (key, value) => (readText? value).map fun v => (key, v)
  | _ => none

/-- The name of a case: a text, or an object with the name as its only key and nothing in it. -/
def readName? (mode : Mode) : Value → Option String
  | .string pieces => text? pieces
  | .object [(key, content)] => do
    let _ ← mode.enter?
    match content, mode with
    | .null, _ => text? key
    | .object [], .stored => text? key
    | _, _ => none
  | _ => none

/-- The case that the first item of a pair names. A pair that streams in gives the name as a text. A
pair that was held back may give the place of the name among the cases instead. -/
def readPlace? (names : List String) (mode : Mode) : Value → Option String
  | .string pieces => text? pieces
  | .number n =>
    match mode with
    | .streamed _ => none
    | .stored => n.nat? >>= fun i => names[i]?
  | _ => none

/-- The content that a missing member stands for. -/
def Schema.absent? : Schema → Option Datum
  | unit => some .unit
  | option _ => some .none
  | _ => none

/-- The content that is zero or empty. -/
def Schema.zero? : Schema → Option Datum
  | unit => some .unit
  | flag => some (.flag false)
  | nat _ => some (.nat 0)
  | text => some (.text "")
  | bytes => some (.bytes [])
  | dict => some (.dict ∅)
  | option _ => some .none
  | list _ => some (.list [])
  | _ => none

/-- The content of a field that is missing from an object. -/
def RecordForm.missing? (form : RecordForm) (schema : Schema) : Option Datum :=
  if form = .zeroed then schema.zero? else schema.absent?

mutual

/-- The content a value spells under a schema. -/
def Schema.read? : Schema → Mode → Value → Option Datum
  | .unit, _, .null => some .unit
  | .unit, _, _ => none
  | .flag, _, .bool b => some (.flag b)
  | .flag, _, _ => none
  | .nat bound, _, v => .nat <$> readNat? bound v
  | .text, _, v => .text <$> readText? v
  | .name names, mode, v => do
    let name ← readName? mode v
    if names.contains name then some (.text name) else none
  | .bytes, mode, v => .bytes <$> readBytes? mode v
  | .dict, mode, v => .dict <$> readDict? mode v
  | .option _, _, .null => some .none
  | .option content, mode, v => .some <$> content.read? mode v
  | .list item, mode, .array items => do
    let mode ← mode.enter?
    .list <$> items.mapM fun v => item.read? mode v
  | .list _, _, _ => none
  | .record form fields, mode, .object members => do
    let mode ← mode.enter?
    let members ← keyed? members
    if wellKeyed mode fields.names members then .record <$> fields.readMembers? form mode members
    else none
  | .record form fields, mode, .array items => do
    if form = .inline then none
    let mode ← mode.enter?
    .record <$> fields.readItems? form mode items
  | .record .., _, _ => none
  | .union cases, mode, .object members => do
    let mode ← mode.enter?
    let members ← keyed? members
    if wellKeyed mode unionNames members then
      let name ← members.lookup "type" >>= readName? mode
      match members.lookup "data" with
      | none => cases.absentCase? name
      | some content =>
        let mode ← if contentFirst members then mode.hold? content else some mode
        cases.readCase? name mode content
    else none
  | .union cases, mode, .array [name, content] => do
    let mode ← mode.enter?
    let name ← readPlace? cases.names mode name
    cases.readCase? name mode content
  | .union _, _, _ => none

/-- The contents of a record's fields from the members of an object. -/
def Fields.readMembers? : Fields → RecordForm → Mode → List (String × Value) → Option (List Datum)
  | .nil, _, _, _ => some []
  | .cons name schema rest, form, mode, members => do
    let d ← match members.lookup name with
      | some v => schema.read? mode v
      | none => form.missing? schema
    let ds ← rest.readMembers? form mode members
    return d :: ds

/-- The contents of a record's fields from the items of an array, in the order of declaration. -/
def Fields.readItems? : Fields → RecordForm → Mode → List Value → Option (List Datum)
  | .nil, _, _, [] => some []
  | .nil, _, _, _ :: _ => none
  | .cons _ schema rest, form, mode, [] => do
    if form ≠ .zeroed then none
    let d ← schema.zero?
    let ds ← rest.readItems? form mode []
    return d :: ds
  | .cons _ schema rest, form, mode, item :: items => do
    let d ← schema.read? mode item
    let ds ← rest.readItems? form mode items
    return d :: ds

/-- The named case with the content that a value spells. -/
def Fields.readCase? : Fields → String → Mode → Value → Option Datum
  | .nil, _, _, _ => none
  | .cons name schema rest, wanted, mode, v =>
    if name = wanted then .case name <$> schema.read? mode v else rest.readCase? wanted mode v

/-- The named case, when it comes without content. -/
def Fields.absentCase? : Fields → String → Option Datum
  | .nil, _ => none
  | .cons name schema rest, wanted =>
    if name = wanted then .case name <$> schema.absent? else rest.absentCase? wanted

end

/-! ## Writing -/

/-- A text as a value. -/
def writeText (text : String) : Value := .string (ofText text)

/-- A natural number as a value. -/
def writeNat (n : Nat) : Value := .number (ofNat n)

/-- Bytes as a value: the array of their numbers. -/
def writeBytes (bytes : Bytes) : Value := .array (bytes.map fun b => writeNat b.toNat)

/-- A dictionary as a value, its keys in order. -/
def writeDict (dict : Dict String) : Value :=
  .object (dict.entries.map fun (key, value) => (ofText key, writeText value))

mutual

/-- The value that spells a content under a schema. A content that does not fit the schema is
spelled as nothing. -/
def Schema.write : Schema → Datum → Value
  | .flag, .flag b => .bool b
  | .nat _, .nat n => writeNat n
  | .text, .text t => writeText t
  | .name _, .text t => writeText t
  | .bytes, .bytes b => writeBytes b
  | .dict, .dict d => writeDict d
  | .option content, .some d => content.write d
  | .list item, .list ds => .array (ds.map fun d => item.write d)
  | .record _ fields, .record ds => .object (fields.write ds)
  | .union cases, .case name d =>
    .object ((ofText "type", writeText name) :: cases.writeCase name d)
  | _, _ => .null

/-- The members that spell the contents of a record's fields. -/
def Fields.write : Fields → List Datum → List (List Piece × Value)
  | .cons name schema rest, d :: ds => (ofText name, schema.write d) :: rest.write ds
  | _, _ => []

/-- The member that spells the content of the named case, if the case has any. -/
def Fields.writeCase : Fields → String → Datum → List (List Piece × Value)
  | .nil, _, _ => []
  | .cons name schema rest, wanted, d =>
    if name = wanted then
      match schema with
      | .unit => []
      | schema => [(ofText "data", schema.write d)]
    else rest.writeCase wanted d

end

end Sidecar
