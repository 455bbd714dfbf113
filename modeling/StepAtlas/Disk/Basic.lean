import StepAtlas.Path
import StepAtlas.Text.Utf8

/-
Files and folders.
-/

namespace StepAtlas

inductive FileTree where
  | file (content : Bytes)
  | folder (entries : List (Text × FileTree))
deriving Repr, Inhabited

inductive Missing where
  /-- A name is not there. -/
  | absent
  /-- The path leads through a file. -/
  | notFolder
deriving DecidableEq, Repr

namespace FileTree

/-- Follow a path from a node; `above` holds the folders it is in, the nearest one first. -/
def findFrom (above : List FileTree) (node : FileTree) : List Text → Except Missing FileTree
  | [] => .ok node
  | name :: names =>
    match node with
    | .file _ => .error .notFolder
    | .folder entries =>
      if name = ".." then
        match above with
        | [] => .error .absent
        | parent :: above => findFrom above parent names
      else match entries.lookup name with
        | some child => findFrom (node :: above) child names
        | none => .error .absent

def find (node : FileTree) (names : List Text) : Except Missing FileTree := findFrom [] node names

def isFile (node : FileTree) (names : List Text) : Bool :=
  match node.find names with
  | .ok (.file _) => true
  | _ => false

def isFolder (node : FileTree) (names : List Text) : Bool :=
  match node.find names with
  | .ok (.folder _) => true
  | _ => false

def holds (node : FileTree) (names : List Text) : Bool := (node.find names).isOk

def entriesAt (node : FileTree) (names : List Text) : List (Text × FileTree) :=
  match node.find names with
  | .ok (.folder entries) => entries
  | _ => []

mutual

def folders : FileTree → List (List Text)
  | .file _ => []
  | .folder entries => [] :: foldersIn entries

def foldersIn : List (Text × FileTree) → List (List Text)
  | [] => []
  | (name, node) :: rest => (folders node).map (name :: ·) ++ foldersIn rest

end

/-- Put an entry into a folder in the place of the one of that name, or behind the others. -/
def putEntry (name : Text) (node : FileTree) : List (Text × FileTree) → List (Text × FileTree)
  | [] => [(name, node)]
  | (n, old) :: rest => if n = name then (n, node) :: rest else (n, old) :: putEntry name node rest

def put (new : FileTree) : List Text → FileTree → FileTree
  | [], _ => new
  | name :: names, .folder entries =>
    .folder (putEntry name (put new names ((entries.lookup name).getD (.folder []))) entries)
  | name :: names, .file _ => .folder [(name, put new names (.folder []))]

def remove : List Text → FileTree → FileTree
  | [name], .folder entries => .folder (entries.filter (·.1 ≠ name))
  | name :: names, .folder entries =>
    match entries.lookup name with
    | some child => .folder (putEntry name (remove names child) entries)
    | none => .folder entries
  | _, node => node

end FileTree

/-- A part of the file system: everything below one folder. -/
structure Disk where
  root : Path
  top : FileTree
deriving Repr, Inhabited

namespace Disk

def names? (d : Disk) (p : Path) : Option (List Text) := (p.relativeTo? d.root).map (·.names)

def find (d : Disk) (p : Path) : Except Missing FileTree :=
  match d.names? p with
  | some names => d.top.find names
  | none => .error .absent

def isFile (d : Disk) (p : Path) : Bool := ((d.names? p).map d.top.isFile).getD false

def isFolder (d : Disk) (p : Path) : Bool := ((d.names? p).map d.top.isFolder).getD false

def write (d : Disk) (p : Path) (content : Bytes) : Disk :=
  match d.names? p with
  | some names => { d with top := FileTree.put (.file content) names d.top }
  | none => d

end Disk
end StepAtlas
