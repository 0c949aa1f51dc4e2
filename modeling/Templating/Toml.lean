import Templating.Binary64
import Templating.Toml.DateTime

/-!
# TOML documents

Configuration texts: values, tables, and the ways in which a table can come about, which decide
what may be added to it later.
-/

namespace Templating

/-- How a table came about. -/
inductive TableOrigin where
  /-- By a header of its own. -/
  | header
  /-- By the header of a table inside it. -/
  | implied
  /-- By a dotted key. -/
  | dotted
  /-- As a value in braces. -/
  | inline
  deriving DecidableEq, Repr

/-- A value of a TOML document. -/
inductive Toml where
  | string (value : String)
  | integer (value : Int)
  | float (value : Binary64)
  | bool (value : Bool)
  | dateTime (value : DateTime)
  | array (items : List Toml)
  | table (origin : TableOrigin) (entries : List (String × Toml))
  deriving Inhabited

namespace Toml

/-- The entries of a table. -/
abbrev Entries := List (String × Toml)

/-- The entries of a value that is asked for as a table: a date or time is a table with its text
under one key. -/
def entries? : Toml → Option Entries
  | .table _ es => some es
  | .dateTime t => some [(DateTime.tableKey, .string t.toText)]
  | _ => none

/-- The value of a key. -/
def find? (key : String) (es : Entries) : Option Toml := es.lookup key

/-- Set the value of a key, in its place if it is there. -/
def put (key : String) (value : Toml) : Entries → Entries
  | [] => [(key, value)]
  | (k, v) :: rest => if k = key then (key, value) :: rest else (k, v) :: put key value rest

/-- Add a value under a new key. -/
def add? (key : String) (value : Toml) (es : Entries) : Option Entries :=
  if (find? key es).isSome then none else some (es ++ [(key, value)])

/-- Add a value under a dotted key. The tables on the way are made by dotted keys; those made by
a header of their own, and values in braces, are closed to dotted keys, and the innermost table
must not be one that a header implies. -/
def addDotted? (value : Toml) (key : String) : List String → Entries → Option Entries
  | [], es => add? key value es
  | step :: path, es =>
    match find? step es with
    | none => (addDotted? value key path []).map fun inner => put step (.table .dotted inner) es
    | some (.table .dotted inner) =>
      (addDotted? value key path inner).map fun inner => put step (.table .dotted inner) es
    | some (.table .implied inner) =>
      if path.isEmpty then none
      else (addDotted? value key path inner).map fun inner => put step (.table .implied inner) es
    | _ => none

/-- Open the table of a header. Tables on the way are implied; the table itself may be implied
already, but not be there in any other way. -/
def openTable? (key : String) : List String → Entries → Option Entries
  | [], es =>
    match find? key es with
    | none => some (put key (.table .header []) es)
    | some (.table .implied inner) => some (put key (.table .header inner) es)
    | _ => none
  | step :: path, es =>
    match find? step es with
    | none => (openTable? key path []).map fun inner => put step (.table .implied inner) es
    | some (.table .inline _) => none
    | some (.table origin inner) =>
      (openTable? key path inner).map fun inner => put step (.table origin inner) es
    | _ => none

/-- Change the table that a path of headers leads to. -/
def within? (change : Entries → Option Entries) : List String → Entries → Option Entries
  | [], es => change es
  | step :: path, es =>
    match find? step es with
    | some (.table origin inner) =>
      (within? change path inner).map fun inner => put step (.table origin inner) es
    | _ => none

end Toml

end Templating
