import StepAtlas.Text.Basic

/-
File paths.  A path is a root and a list of names; empty names and single dots between slashes say
nothing and are dropped when a path is read, while a double dot is kept, because what it leads to
depends on the directories.
-/

namespace StepAtlas

/-- A path: no slash, one slash or exactly two slashes in front, and the names between slashes. -/
structure Path where
  root : Text
  names : List Text
deriving DecidableEq, Repr, Inhabited

namespace Path

def namesOf (t : Text) : List Text :=
  (Text.splitAt (.scalar '/') t).filter fun name => name ≠ [] && name ≠ "."

/-- The slashes that a path starts with; three and more count as one. -/
def rootOf : Text → Text
  | .scalar '/' :: .scalar '/' :: .scalar '/' :: _ => "/"
  | .scalar '/' :: .scalar '/' :: _ => "//"
  | .scalar '/' :: _ => "/"
  | _ => []

def ofText (t : Text) : Path := { root := rootOf t, names := namesOf t }

/-- The text of a path; a path without names is a dot. -/
def toText (p : Path) : Text :=
  match p.root ++ Text.join "/" p.names with
  | [] => "."
  | t => t

def isAbsolute (p : Path) : Bool := p.root ≠ []

def sortKey (p : Path) : List Text := if p.root = [] then p.names else p.root :: p.names

def namesBefore : List Text → List Text → Bool
  | _, [] => false
  | [], _ :: _ => true
  | a :: s, b :: t => Text.before a b || (a = b && namesBefore s t)

/-- Whether a path comes before another: name by name, so that a directory's files stand
together. -/
def before (p q : Path) : Bool := namesBefore p.sortKey q.sortKey

def sort (ps : List Path) : List Path := ps.mergeSort fun p q => !q.before p

/-- One path inside another; an absolute path stays itself. -/
def join (p q : Path) : Path := if q.isAbsolute then q else { p with names := p.names ++ q.names }

def name (p : Path) : Text := p.names.getLast?.getD []

def parent (p : Path) : Path := { p with names := p.names.dropLast }

/-- The last dot of a name and what follows it; empty when the dot is the first or the last code
point. -/
def suffix (p : Path) : Text :=
  let n := p.name
  let tail := n.reverse.takeWhile (· ≠ .scalar '.')
  let before := n.length - tail.length - 1
  if n.contains (.scalar '.') && 0 < before && tail ≠ [] then .scalar '.' :: tail.reverse else []

/-- The names that lead from `base` to a path below it. -/
def below? : (base : List Text) → List Text → Option (List Text)
  | [], names => some names
  | _ :: _, [] => none
  | a :: base, b :: names => if a = b then below? base names else none

def relativeTo? (p base : Path) : Option Path :=
  if p.root = base.root then (below? base.names p.names).map fun names => { root := [], names }
    else none

/-- A path as seen from a directory above it, and itself if it is not below that directory. -/
def seenFrom (p base : Path) : Path := (p.relativeTo? base).getD p

theorem below?_append (base names : List Text) : below? base (base ++ names) = some names := by
  induction base with
  | nil => rfl
  | cons a base ih => simp [below?, ih]

end Path
end StepAtlas
