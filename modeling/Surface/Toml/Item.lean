import Surface.Text.Basic

/-! # TOML items

A table keeps its entries in the order in which they came up, together with how it came to be: that
decides whether later lines may add to it.
-/

namespace Surface.Toml

inductive Origin where
  /-- Written between braces, and complete with them. -/
  | inline
  /-- Opened by a header of its own. -/
  | header
  /-- Only passed through by headers of tables inside it. -/
  | implied
  /-- Brought up by dotted keys. -/
  | dotted
  deriving DecidableEq, Repr

inductive Item where
  | text (t : Text)
  | integer (n : Int)
  | float (written : Text)
  | boolean (b : Bool)
  | dateTime (written : Text)
  | array (items : List Item)
  | table (origin : Origin) (entries : List (Text × Item))
  | tables (elements : List (List (Text × Item)))

abbrev Entries := List (Text × Item)

structure Table where
  origin : Origin
  entries : Entries

namespace Entries

def get? (entries : Entries) (key : Text) : Option Item :=
  (entries.find? fun e => e.1 == key).map Prod.snd

/-- Replaces the item of a key where it stands, or adds the key behind the others. -/
def set (entries : Entries) (key : Text) (item : Item) : Entries :=
  if entries.any fun e => e.1 == key then
    entries.map fun e => if e.1 == key then (key, item) else e
  else entries ++ [(key, item)]

def remove (entries : Entries) (key : Text) : Entries := entries.filter fun e => e.1 != key

end Entries

namespace Table

/-- Headers may pass through every table. Dotted keys may add only to tables that no header and no
braces have written out. -/
def admits (byHeader : Bool) (origin : Origin) : Bool :=
  match origin with
  | .implied | .dotted => true
  | .header => byHeader
  | .inline => false

/-- Changes the table that a path leads to; tables on the way that do not exist yet come up. An
array of tables leads to its last table. -/
def changeAt (byHeader : Bool) (change : Table → Option Table) : List Text → Table → Option Table
  | [], table => change table
  | key :: path, table =>
    let sub := fun origin entries => changeAt byHeader change path ⟨origin, entries⟩
    match table.entries.get? key with
    | none => do
      let new ← sub (if byHeader then .implied else .dotted) []
      some { table with entries := table.entries.set key (.table new.origin new.entries) }
    | some (.table origin entries) =>
      if admits byHeader origin then do
        let new ← sub origin entries
        some { table with entries := table.entries.set key (.table new.origin new.entries) }
      else none
    | some (.tables elements) =>
      match elements.getLast? with
      | some last => do
        let new ← sub .header last
        some { table with
          entries := table.entries.set key (.tables (elements.dropLast ++ [new.entries])) }
      | none => none
    | some _ => none

/-- Adds an item under a key that is not there yet. -/
def add (key : Text) (item : Item) (table : Table) : Option Table :=
  match table.entries.get? key with
  | some _ => none
  | none => some { table with entries := table.entries ++ [(key, item)] }

/-- Adds an item under a dotted key. The table it goes into must have come up by dotted keys just
if the key is dotted. -/
def addDotted (path : List Text) (key : Text) (item : Item) : Table → Option Table :=
  changeAt false
    (fun table => if (table.origin == .dotted) == path.isEmpty then none else add key item table)
    path

/-- Opens the table of a header: a new one, or one that headers have only passed through. It moves
behind the entries that are there already. -/
def openTable (path : List Text) (key : Text) : Table → Option Table :=
  changeAt true
    (fun table =>
      match table.entries.get? key with
      | none => some { table with entries := table.entries ++ [(key, .table .header [])] }
      | some (.table .implied entries) =>
        some { table with
          entries := table.entries.remove key ++ [(key, .table .header entries)] }
      | some _ => none)
    path

/-- Opens a further table of an array of tables. -/
def openElement (path : List Text) (key : Text) : Table → Option Table :=
  changeAt true
    (fun table =>
      match table.entries.get? key with
      | none => some { table with entries := table.entries ++ [(key, .tables [[]])] }
      | some (.tables elements) =>
        some { table with entries := table.entries.set key (.tables (elements ++ [[]])) }
      | some _ => none)
    path

end Table
end Surface.Toml
