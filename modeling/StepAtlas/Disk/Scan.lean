import StepAtlas.Disk.Basic
import StepAtlas.Glob.Pattern
import StepAtlas.Log

/-
Finding files by patterns.  A pattern is taken name by name: two stars stand for a folder and every
folder below it, and the names with wildcards are compared with the entries of a folder.
-/

namespace StepAtlas

inductive Component where
  /-- A folder and every folder below it. -/
  | below
  | named (name : Text)
  | like (pattern : Text)
deriving DecidableEq, Repr

namespace Component

def isWildcard (name : Text) : Bool :=
  name.any fun p => p = .scalar '*' || p = .scalar '?' || p = .scalar '['

/-- The component that a name in a pattern stands for, or why it stands for none. -/
def ofName (name : Text) : Except Text Component :=
  if name = "**" then .ok .below
  else if Text.occursIn "**" name then
    .error "Invalid pattern: '**' can only be an entire path component"
  else if isWildcard name then .ok (.like name)
  else .ok (.named name)

/-- The paths that components lead to from the path `here`. -/
def select (top : FileTree) : List Component → (here : List Text) → List (List Text)
  | [], here => [here]
  | .named name :: rest, here =>
    let there := here ++ [name]
    if (if rest = [] then top.holds there else top.isFolder there) then select top rest there
      else []
  | .like pattern :: rest, here =>
    (top.entriesAt here).flatMap fun (name, _) =>
      let there := here ++ [name]
      if (rest = [] || top.isFolder there) && Glob.fits pattern name then select top rest there
        else []
  | .below :: rest, here =>
    match top.find here with
    | .ok node => node.folders.flatMap fun names => select top rest (here ++ names)
    | .error _ => []

end Component

namespace Disk

/-- The files that a pattern without braces leads to from a folder, as names below it; or why it
leads to none. -/
def filesLike (top : FileTree) (folder : List Text) (pattern : Text) :
    Except Fault (Except Text (List (List Text))) :=
  if pattern = [] then .ok (.error "Unacceptable pattern: ''")
  else if (Path.ofText pattern).isAbsolute then .ok (.error "Non-relative patterns are unsupported")
  else
    let onlyFolders := pattern.getLast? = some (.scalar '/')
    match Path.namesOf pattern with
    | [] => if onlyFolders then .ok (.ok []) else .error .emptyPattern
    | names =>
      match names.mapM Component.ofName with
      | .error words => .ok (.error words)
      | .ok components =>
        if onlyFolders then .ok (.ok [])
        else
          let found := (Component.select top components folder).filter top.isFile
          .ok (.ok (found.map (·.drop folder.length)))

/-- The names of the files that a pattern leads to and no excluding pattern fits; a pattern that
makes no sense is warned about and leads to none. -/
def filesOf (top : FileTree) (folder : List Text) (exclude : List Text) (pattern : Text) :
    Except Fault (List (List Text)) := do
  match ← filesLike top folder pattern with
  | .ok files => return files.filter fun names => !Glob.fitsAny exclude (Text.join "/" names)
  | .error words =>
    log (warning ++ "Could not scan " ++ Text.quoted pattern ++ ": " ++ words)
    return []

/-- The files below a folder that a pattern leads to and no excluding pattern fits, in order and
each once. -/
def scan (d : Disk) (root : Path) (exclude : List Text) (pattern : Text) :
    Except Fault (List Path) := do
  match d.names? root with
  | some folder =>
    let found ← (Glob.expand pattern).mapM (filesOf d.top folder exclude)
    return Path.sort
      (found.flatten.eraseDups.map fun names => { root with names := root.names ++ names })
  | none => return []

/-- The folder that a path stands for, without double dots. -/
def resolved (p : Path) : Path :=
  let step (names : List Text) (name : Text) : List Text :=
    if name = ".." then names.dropLast else names ++ [name]
  { p with names := p.names.foldl step [] }

def projectRoot (d : Disk) (p : Path) : Except Fault Path :=
  let root := resolved p
  if d.isFolder root then .ok root
  else .error (.indexing ("Project directory does not exist: " ++ root.toText))

end Disk
end StepAtlas
