import StepAtlas.Command.Run

/-
The program.  It reads the folder that it is started in, carries out its arguments and shows what
came of them.
-/

namespace StepAtlas

/-- A text as it is printed; what is no character is replaced. -/
def Text.printed (t : Text) : String :=
  String.ofList (t.map fun
    | .scalar c => c
    | .surrogate _ => '�')

partial def readEntry (e : IO.FS.DirEntry) : IO (Text × FileTree) := do
  let name := Text.ofString e.fileName
  if ← e.path.isDir then
    let entries ← e.path.readDir
    return (name, .folder (← entries.toList.mapM readEntry))
  else
    return (name, .file (← IO.FS.readBinFile e.path).toList)

def readUserSettings : IO (Option Bytes) := do
  match ← IO.getEnv "HOME" with
  | none => return none
  | some home =>
    try return some (← IO.FS.readBinFile (home ++ "/.config/cukedash/config.toml")).toList
    catch _ => return none

def readVariables : IO (List (Text × Text)) := do
  let names := ["CUKEDASH_FEATURE_GLOBS", "CUKEDASH_STEP_DEF_GLOBS", "CUKEDASH_EXCLUDE_GLOBS",
    "CUKEDASH_ENABLE_DIAGNOSTICS", "CUKEDASH_MATCH_MODE"]
  let mut found := []
  for name in names do
    if let some value ← IO.getEnv name then
      found := found ++ [(Text.ofString name, Text.ofString value)]
  return found

def writeFile (path : Path) (content : Bytes) : IO Unit := do
  IO.FS.createDirAll path.parent.toText.printed
  IO.FS.writeBinFile path.toText.printed ⟨content.toArray⟩

end StepAtlas

open StepAtlas in
def main (args : List String) : IO UInt32 := do
  let here ← IO.currentDir
  let dir := Path.ofText (Text.ofString here.toString)
  let entries ← here.readDir
  let top ← entries.toList.mapM readEntry
  let host : Host :=
    { disk := { root := dir, top := .folder top }
      userSettings := ← readUserSettings
      environment := ← readVariables
      languages := Gherkin.Language.common }
  let outcome := (Request.ofArguments (args.map Text.ofString)).run host dir .utf8
  if let some (path, content) := outcome.written then writeFile path content
  for item in outcome.items do
    for line in item.lines do
      IO.println line.printed
  if let some fault := outcome.raised then IO.eprintln (Text.printed fault.message)
  return UInt32.ofNat outcome.code
