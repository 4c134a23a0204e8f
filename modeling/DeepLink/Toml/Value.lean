import DeepLink.Text

/-!
# TOML values

The values of a TOML document, and how its statements build up the table of a document. A
table remembers how it came about, since that decides what may still be added to it:

- a table written in braces is complete;
- a table that stands on the way to a header may be opened once by a header of its own;
- a table that stands on the way to a dotted key takes further dotted keys only;
- a table opened by a header takes the keys that follow the header.

`assign?`, `openTable?` and `openElement?` carry out the three kinds of statement and fail
where a statement would change what is already said.
-/
namespace DeepLink.Toml

/-- How a table came about. -/
inductive Origin where
  | braces
  | dottedKey
  | outerHeader
  | header
  deriving DecidableEq, Repr

/-- A TOML value. Floating-point numbers and dates keep the text that writes them;
`tables` are the elements written under doubly bracketed headers. -/
inductive Value where
  | string (text : Text)
  | integer (value : Int)
  | float (literal : Text)
  | boolean (value : Bool)
  | dateTime (literal : Text)
  | array (items : List Value)
  | table (origin : Origin) (entries : List (Text × Value))
  | tables (elements : List (List (Text × Value)))

/-- Keys with their values, in the order in which they were first written. -/
abbrev Entries := List (Text × Value)

/-! ### Tables -/

/-- A dotted key: the keys before the last dot, and the last key. -/
structure KeyPath where
  outer : List Text
  last : Text
  deriving DecidableEq, Repr

def KeyPath.keys (path : KeyPath) : List Text := path.outer ++ [path.last]

structure Table where
  origin : Origin
  entries : Entries

namespace Table

def toValue (table : Table) : Value := .table table.origin table.entries

def get? (table : Table) (key : Text) : Option Value := table.entries.lookup key

/-- Put a value under a key, in the place of an earlier one. -/
def put (key : Text) (value : Value) : Entries → Entries
  | [] => [(key, value)]
  | (other, held) :: rest =>
    if other = key then (key, value) :: rest else (other, held) :: put key value rest

/-- Change the table at the end of a path. Missing tables on the way come about by the
given origin; an array of tables stands for its last element. -/
def update? (missing : Origin) (change : Table → Option Table) :
    List Text → Table → Option Table
  | [], table => change table
  | key :: path, table =>
    let changed : Option Value :=
      match table.get? key with
      | none => (update? missing change path ⟨missing, []⟩).map toValue
      -- Tables in braces are complete, and a dotted key adds nothing to an opened table.
      | some (.table origin entries) =>
        if origin = .braces ∨ (missing = .dottedKey ∧ origin = .header) then none
        else (update? missing change path ⟨origin, entries⟩).map toValue
      | some (.tables elements) =>
        elements.getLast?.bind fun last =>
          (update? missing change path ⟨.header, last⟩).map fun element =>
            .tables (elements.dropLast ++ [element.entries])
      | some _ => none
    changed.map fun value => { table with entries := put key value table.entries }

/-- Give a key its value; a key has one value, and dotted keys stay among themselves. -/
def assign? (table : Table) (path : KeyPath) (value : Value) : Option Table :=
  update? .dottedKey (fun inner =>
    if (path.outer ≠ [] ∧ inner.origin ≠ .dottedKey) ∨ (inner.get? path.last).isSome then
      none
    else some { inner with entries := inner.entries ++ [(path.last, value)] }) path.outer table

/-- Open the table of a header. -/
def openTable? (table : Table) (path : KeyPath) : Option Table :=
  update? .outerHeader (fun parent =>
    match parent.get? path.last with
    | none => some { parent with entries := put path.last (.table .header []) parent.entries }
    | some (.table .outerHeader entries) =>
      some { parent with entries := put path.last (.table .header entries) parent.entries }
    | some _ => none) path.outer table

/-- Add an element to the array of tables of a doubly bracketed header. -/
def openElement? (table : Table) (path : KeyPath) : Option Table :=
  update? .outerHeader (fun parent =>
    match parent.get? path.last with
    | none => some { parent with entries := put path.last (.tables [[]]) parent.entries }
    | some (.tables elements) =>
      some { parent with entries := put path.last (.tables (elements ++ [[]])) parent.entries }
    | some _ => none) path.outer table

def ofPairs? (pairs : List (KeyPath × Value)) : Option Table :=
  pairs.foldlM (fun table pair => table.assign? pair.1 pair.2) ⟨.braces, []⟩

end Table

/-! ### Statements -/

inductive Statement where
  | assign (path : KeyPath) (value : Value)
  | openTable (path : KeyPath)
  | openElement (path : KeyPath)

/-- The table of a document so far, and the keys of the header that is open. -/
structure Document where
  root : Table
  opened : List Text

namespace Document

def empty : Document := ⟨⟨.header, []⟩, []⟩

def run? (document : Document) : Statement → Option Document
  | .assign path value => do
    let root ← document.root.update? .outerHeader (·.assign? path value) document.opened
    return { document with root }
  | .openTable path => do return ⟨← document.root.openTable? path, path.keys⟩
  | .openElement path => do return ⟨← document.root.openElement? path, path.keys⟩

/-- The entries that statements give to a document. -/
def ofStatements? (statements : List Statement) : Option Entries := do
  return (← statements.foldlM run? empty).root.entries

end Document
end DeepLink.Toml
