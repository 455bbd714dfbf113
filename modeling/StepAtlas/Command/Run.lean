import StepAtlas.Catalog.Build
import StepAtlas.Command.Report
import StepAtlas.Command.Request
import StepAtlas.Settings.Layer

/-
Carrying out a request.
-/

namespace StepAtlas

structure Outcome where
  /-- The exit code. -/
  code : Nat
  /-- What is shown, in order. -/
  items : List Item
  /-- What ended the request before its time. -/
  raised : Option Fault
  /-- A file that is to be written. -/
  written : Option (Path × Bytes)
deriving Repr

namespace Outcome

def shown (code : Nat) (items : List Item) : Outcome :=
  { code, items, raised := none, written := none }

/-- A request that failed after some items were shown.  Faults of the settings and of the project
are reported. -/
def failed (items : List Item) (fault : Fault) : Outcome :=
  match fault with
  | .settings m | .indexing m => shown 1 (items ++ [.line ("[bold red]Error:[/bold red] " ++ m)])
  | fault => { code := 1, items, raised := some fault, written := none }

def printed (terminal : Terminal) : List Item → List Item × Option Fault
  | [] => ([], none)
  | item :: rest =>
    match item.render terminal with
    | .error fault => ([], some fault)
    | .ok _ =>
      let (shown, fault) := printed terminal rest
      (item :: shown, fault)

/-- Print the items.  The first that cannot be printed ends the request there, whatever would have
come of it; a file that is to be written is written before. -/
def rendered (terminal : Terminal) (o : Outcome) : Outcome :=
  match printed terminal o.items with
  | (_, none) => o
  | (items, some fault) => { o with code := 1, items, raised := some fault }

end Outcome

namespace Command

def settingsTemplate : Text :=
  "# Cukedash project configuration\n" ++
  "# feature_globs = [\"features/**/*.feature\", \"**/*.feature\"]\n" ++
  "# step_def_globs = [\"**/*.\x7bsteps,step,stepdefs\x7d.\x7bts,js\x7d\", " ++
  "\"**/*steps*/**/*.\x7bts,js\x7d\"]\n" ++
  "# exclude_globs = [\"**/node_modules/**\", \"**/dist/**\", \"**/build/**\", \"**/.git/**\"]\n" ++
  "# enable_diagnostics = true\n" ++
  "# match_mode = \"both\"  # both | regex | expression\n"

def runInit (h : Host) (dir : Path) : Outcome :=
  let root := Disk.resolved dir
  let file := Host.settingsPath root
  let folder := file.parent
  if h.disk.isFile file then
    .shown 0 [.line ("[yellow]Already initialized:[/yellow] " ++ file.toText ++ " exists")]
  else if h.disk.isFile folder then
    .failed [] (.alreadyThere (Disk.systemMessage 17 "File exists" folder))
  else if h.disk.isFolder file then
    .failed [] (.folderInTheWay (Disk.systemMessage 21 "Is a directory" file))
  else
    let done :=
      .line ("[green]Initialized Cukedash[/green] in [bold]" ++ folder.toText ++ "[/bold]")
    { Outcome.shown 0 [done] with written := some (file, Utf8.encode settingsTemplate) }

def prepare (h : Host) (dir : Path) (mode : Option Text) : Except Fault (Path × Settings) := do
  let root ← h.disk.projectRoot dir
  let s ← h.settings root
  match mode with
  | none => return (root, s)
  | some word =>
    return (root,
      { s with mode := ← Refusal.raise h.machine (MatchMode.parse .noMode (.text word)) })

def catalog (h : Host) (root : Path) (s : Settings) : Except Fault Catalog :=
  Catalog.build (.ofDisk h.languages h.disk root) s { mode := s.mode, machine := h.machine }
    Workspace.sizeLimit .empty

def withCatalog (h : Host) (dir : Path) (mode : Option Text)
    (report : Path → Catalog → Nat × List Item) : Outcome :=
  match prepare h dir mode with
  | .error fault => .failed [] fault
  | .ok (root, s) =>
    let head := Report.head root s.mode
    match catalog h root s with
    | .error fault => .failed [head] fault
    | .ok c =>
      let (code, items) := report root c
      .shown code (head :: items)

/-- The exit code of a check: when it is strict, every step has to have exactly one definition. -/
def checkCode (strict : Bool) (c : Catalog) : Nat :=
  if strict && (c.stats.undefinedSteps ≠ 0 || c.stats.ambiguousSteps ≠ 0) then 1 else 0

/-- What comes of a command in a folder, if everything can be shown. -/
def outcome (h : Host) (dir : Path) : Command → Outcome
  | .init => runInit h dir
  | .check mode strict =>
    withCatalog h dir mode fun root c => (checkCode strict c, Report.ofCatalog root c)
  | .definitions => withCatalog h dir none fun root c => (0, Report.ofDefinitions root c)

end Command

namespace Request

def outcome (h : Host) (dir : Path) : Request → Outcome
  | .help => .shown 0 []
  | .version => .shown 0 [.line ("cukedash " ++ Report.programVersion)]
  | .unclear => .shown 2 []
  | .command c => c.outcome h dir

/-- Carry out a request in a folder and print what comes of it. -/
def run (h : Host) (dir : Path) (terminal : Terminal) (r : Request) : Outcome :=
  (r.outcome h dir).rendered terminal

end Request

end StepAtlas
