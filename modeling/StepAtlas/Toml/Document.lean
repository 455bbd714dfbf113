import StepAtlas.Value

/-
The tables of a settings file while it is being read, and the marks that keep one part of a file
from changing what another part has settled.
-/

namespace StepAtlas
namespace Toml

abbrev Key := List Text

/-- The entries of a table in the order in which they were made. -/
abbrev Entries := List (Text × Value)

def Entries.replace (key : Text) (v : Value) (entries : Entries) : Entries :=
  entries.map fun (k, w) => if k = key then (k, v) else (k, w)

/-- Change the table that a key leads to, making tables that are missing on the way.  A list of
tables stands for its last table, if `throughLists` says so.  There is no result if something else
is in the way. -/
def changeAt (throughLists : Bool) (change : Entries → Option Entries) :
    Key → Entries → Option Entries
  | [], entries => change entries
  | k :: key, entries =>
    match entries.lookup k with
    | none => (changeAt throughLists change key []).map fun new => entries ++ [(k, .table new)]
    | some (.table inner) =>
      (changeAt throughLists change key inner).map fun new => Entries.replace k (.table new) entries
    | some (.list items) =>
      match throughLists, items.getLast? with
      | true, some (.table inner) =>
        (changeAt throughLists change key inner).map fun new =>
          Entries.replace k (.list (items.dropLast ++ [.table new])) entries
      | _, _ => none
    | some _ => none

def addEntry (key : Text) (v : Value) (entries : Entries) : Option Entries :=
  if (entries.lookup key).isSome then none else some (entries ++ [(key, v)])

def addTable (key : Text) (entries : Entries) : Option Entries :=
  match entries.lookup key with
  | none => some (entries ++ [(key, .list [.table []])])
  | some (.list items) => some (Entries.replace key (.list (items ++ [.table []])) entries)
  | some _ => none

structure Marks where
  /-- The keys of values that nothing may be added to, nor to anything inside them. -/
  frozen : List Key
  /-- The keys of tables that have been declared. -/
  declared : List Key
  /-- The keys that count as declared from the next header on. -/
  pending : List Key
deriving DecidableEq, Repr

namespace Marks

def none : Marks := { frozen := [], declared := [], pending := [] }

def isFrozen (m : Marks) (key : Key) : Bool := m.frozen.any fun k => k.isPrefixOf key

def isDeclared (m : Marks) (key : Key) : Bool := m.declared.contains key

def freeze (m : Marks) (key : Key) : Marks := { m with frozen := key :: m.frozen }

def declare (m : Marks) (key : Key) : Marks := { m with declared := key :: m.declared }

def postpone (m : Marks) (key : Key) : Marks := { m with pending := key :: m.pending }

def settle (m : Marks) : Marks := { m with declared := m.pending ++ m.declared, pending := [] }

def forget (m : Marks) (key : Key) : Marks :=
  { m with
    frozen := m.frozen.filter fun k => !key.isPrefixOf k
    declared := m.declared.filter fun k => !key.isPrefixOf k }

end Marks

structure Document where
  entries : Entries
  marks : Marks
  /-- The key of the table that entries are added to. -/
  header : Key
deriving Repr

def Document.empty : Document := { entries := [], marks := .none, header := [] }

def shownKey (key : Key) : Text :=
  match key with
  | [k] => "(" ++ Text.quoted k ++ ",)"
  | _ => "(" ++ Text.join ", " (key.map Text.quoted) ++ ")"

end Toml
end StepAtlas
