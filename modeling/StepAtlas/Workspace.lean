import StepAtlas.Disk.Read
import StepAtlas.Disk.Scan
import StepAtlas.Gherkin.Reader
import StepAtlas.Script.Registration

/-
The workspace that is indexed: what finds its files, reads them and understands them.

A file that cannot be used is passed over with a warning, so that one file does not keep the others
from being indexed.  Only a warning that cannot be shown is a failure.
-/

namespace StepAtlas

inductive FileClass where
  | feature | definition
deriving DecidableEq, Repr

structure Workspace where
  /-- The files that a pattern leads to and no excluding pattern fits. -/
  find : (pattern : Text) → (exclude : List Text) → Except Fault (List Path)
  read : Path → Except Fault FileContent
  /-- The feature in a text, if the text holds one. -/
  feature : Path → Text → Except Fault (Option Feature)
  /-- The definitions in a script. -/
  definitions : Path → Text → Except Fault (List Definition)

inductive Loaded where
  | feature (f : Feature)
  | definitions (ds : List Definition)
  /-- There is no feature in it, or it is gone. -/
  | nothing
  /-- It is too large; what is known of it is kept. -/
  | oversize
  /-- It cannot be read or understood. -/
  | unreadable
deriving DecidableEq, Repr

namespace Workspace

/-- A folder on a disk as a workspace, with the languages that features may be in beside English. -/
def ofDisk (languages : List Gherkin.Language) (d : Disk) (root : Path) : Workspace :=
  { find := fun pattern exclude => d.scan root exclude pattern
    read := d.read
    feature := Gherkin.parse languages
    definitions := Script.definitions .standard }

def sizeLimit : Int := 1048576

def skip (p : Path) (reason : Text) (l : Loaded) : Except Fault Loaded := do
  log (warning ++ "Skipping " ++ p.toText ++ ": " ++ reason)
  return l

def parse (w : Workspace) (cls : FileClass) (p : Path) (t : Text) : Except Fault Loaded :=
  match cls with
  | .feature => do
    match ← w.feature p t with
    | some f => return .feature f
    | none => return .nothing
  | .definition => do return .definitions (← w.definitions p t)

/-- Load a file of at most `limit` bytes. -/
def load (w : Workspace) (limit : Int) (cls : FileClass) (p : Path) : Except Fault Loaded :=
  match w.read p with
  | .error (.indexing words) => skip p words .unreadable
  | .error fault => skip p ("unexpected read error: " ++ fault.message) .unreadable
  | .ok content =>
    if limit < content.size then
      let reason :=
        Text.ofInt content.size ++ " bytes exceeds the " ++ Text.ofInt limit ++ " byte limit"
      skip p reason .oversize
    else match w.parse cls p content.text with
      | .ok l => .ok l
      | .error fault => skip p ("unexpected parse error: " ++ fault.message) .unreadable

def addNew (found new : List Path) : List Path :=
  new.foldl (fun found p => if found.contains p then found else found ++ [p]) found

/-- The files that patterns lead to, each once and in the order in which they are first seen. -/
def search (w : Workspace) (exclude : List Text) (patterns : List Text) :
    Except Fault (List Path) :=
  patterns.foldlM (fun found pattern => do return addNew found (← w.find pattern exclude)) []

end Workspace
end StepAtlas
