import ReleaseDocs.Toml.Moment
import ReleaseDocs.Toml.Number

/-!
Values and tables, and how a table grows: a path of keys leads to a table in it, and what may be
added there depends on how that table came to be.
-/

namespace ReleaseDocs.Toml

inductive Origin where
  | braces
  /-- It has a header of its own. -/
  | header
  /-- A longer header names it. -/
  | implied
  /-- A dotted key names it. -/
  | dotted
deriving DecidableEq, Repr

inductive Value where
  | string (text : String)
  | boolean (value : Bool)
  | integer (value : Int)
  | fraction (value : Fraction)
  | moment (value : Moment)
  /-- Values in brackets. -/
  | array (elements : List Value)
  | table (origin : Origin) (entries : List (String × Value))
  /-- Tables with one header, written in double brackets. -/
  | tables (elements : List (List (String × Value)))
deriving Repr

abbrev Table := List (String × Value)

namespace Table

def replace (table : Table) (key : String) (value : Value) : Table :=
  table.map fun entry => if entry.1 = key then (key, value) else entry

/-- Whether a path goes on into a table. What is written in braces is complete; a table with a
header is entered by headers, which imply the tables on their way, but not by dotted keys. -/
def isOpenFor (made : Origin) : Origin → Bool
  | .braces => false
  | .header => made == .implied
  | .implied => true
  | .dotted => true

/-- Changes the table that the keys lead to. Tables that are missing on the way are made, with the
origin `made`; of the tables of one header, the last is entered. -/
def alter? (made : Origin) (change : Origin → Table → Option Table) (origin : Origin)
    (table : Table) : List String → Option Table
  | [] => change origin table
  | key :: keys =>
      match table.lookup key with
      | none => do
          let inner ← alter? made change made [] keys
          some (table ++ [(key, .table made inner)])
      | some (.table origin inner) => do
          if isOpenFor made origin then
            let inner ← alter? made change origin inner keys
            some (table.replace key (.table origin inner))
          else none
      | some (.tables elements) => do
          let last ← elements.getLast?
          let last ← alter? made change .header last keys
          some (table.replace key (.tables (elements.dropLast ++ [last])))
      | some _ => none

/-- Adds a value under a dotted key. The last part of the key is new where the others lead, and
those lead to a table that only dotted keys have made. -/
def insert? (path : List String) (key : String) (value : Value) (origin : Origin)
    (table : Table) : Option Table :=
  alter? .dotted
    (fun origin inner =>
      if (path.isEmpty || origin == .dotted) && (inner.lookup key).isNone then
        some (inner ++ [(key, value)])
      else none)
    origin table path

/-- Gives a table a header; it may have been implied before. -/
def addHeader? (path : List String) (key : String) (table : Table) : Option Table :=
  alter? .implied
    (fun _ inner =>
      match inner.lookup key with
      | none => some (inner ++ [(key, .table .header [])])
      | some (.table .implied entries) => some (inner.replace key (.table .header entries))
      | some _ => none)
    .header table path

/-- Adds one more table to those of one header. -/
def addElement? (path : List String) (key : String) (table : Table) : Option Table :=
  alter? .implied
    (fun _ inner =>
      match inner.lookup key with
      | none => some (inner ++ [(key, .tables [[]])])
      | some (.tables elements) => some (inner.replace key (.tables (elements ++ [[]])))
      | some _ => none)
    .header table path

end Table

end ReleaseDocs.Toml
