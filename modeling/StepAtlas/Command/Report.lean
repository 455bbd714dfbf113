import StepAtlas.Catalog.Basic
import StepAtlas.Markup

/-
What the program shows.  Texts are written with style tags.
-/

namespace StepAtlas

inductive Item where
  | line (text : Text)
  | panel (body title : Text)
  | table (title : Text) (columns : List Text) (rows : List (List Text))
deriving DecidableEq, Repr

namespace Item

/-- The texts of an item in the order in which their tags are looked at.  A table is gone through
column by column, to find out how wide the columns are, and its title comes last. -/
def texts : Item → List Text
  | .line t => [t]
  | .panel body title => [title, body]
  | .table title columns rows =>
    (columns.zipIdx.flatMap fun (header, i) => header :: rows.map fun cells => cells.getD i []) ++
      [title]

def lines : Item → List Text
  | .line t => [Markup.plain t]
  | .panel body title => [Markup.plain title, Markup.plain body]
  | .table title columns rows =>
    Markup.plain title :: (columns :: rows).map fun cells =>
      Text.join " | " (cells.map Markup.plain)

end Item

/-- What items are printed on.  How an item is laid out there, and which code points can be encoded,
is left open. -/
structure Terminal where
  /-- Why an item cannot be encoded. -/
  refusal? : Item → Option Text

namespace Terminal

def utf8 : Terminal where
  refusal? item :=
    if item.lines.any (·.any fun p => p matches .surrogate _) then
      some "'utf-8' codec can't encode characters: surrogates not allowed"
    else none

end Terminal

/-- Print an item.  One with a text that cannot be shown is not printed at all. -/
def Item.render (terminal : Terminal) (item : Item) : Except Fault (List Text) :=
  match item.texts.findSome? Markup.complaint?, terminal.refusal? item with
  | some complaint, _ => .error (.unshown complaint)
  | none, some words => .error (.unencodable words)
  | none, none => .ok item.lines

namespace Report

def programVersion : Text := "0.1.0"

def head (root : Path) (mode : MatchMode) : Item :=
  .panel ("[bold]Project:[/bold] " ++ root.toText ++ "\n[bold]Match mode:[/bold] " ++ mode.word)
    ("[bold cyan]Cukedash[/bold cyan] v" ++ programVersion)

/-- A count, in a colour that draws the eye unless there is nothing. -/
def count (n : Nat) (color : Text) : Text :=
  if n = 0 then "[green]0[/green]" else "[" ++ color ++ "]" ++ Text.ofNat n ++ "[/" ++ color ++ "]"

def statsTable (s : Stats) : Item :=
  .table "Cukedash" ["Property", "Value"]
    [["Features", Text.ofNat s.features], ["Scenarios", Text.ofNat s.scenarios],
      ["Steps", Text.ofNat s.steps], ["Undefined steps", count s.undefinedSteps "red"],
      ["Ambiguous steps", count s.ambiguousSteps "yellow"],
      ["Unused definitions", count s.unusedDefinitions "yellow"]]

def describe (root : Path) (d : Definition) : Text :=
  d.function ++ "(" ++ d.display ++ ")  [dim]" ++ (d.source.seenFrom root).toText ++ ":" ++
    Text.ofNat (d.span.startLine + 1) ++ "[/dim]"

def stepCells (root : Path) (s : Step) : List Text :=
  [(s.source.seenFrom root).toText ++ ":" ++ Text.ofNat s.line, s.keyword.word ++ " " ++ s.text]

def unlessEmpty (title : Text) (columns : List Text) (rows : List (List Text)) : List Item :=
  if rows = [] then [] else [.table title columns rows]

def ofCatalog (root : Path) (c : Catalog) : List Item :=
  let undefinedSteps := c.undefinedSteps.map fun r => stepCells root r.step ++ [r.step.scenario]
  let ambiguousSteps := c.ambiguousSteps.map fun r =>
    stepCells root r.step ++ [Text.join "\n" (r.found.map (describe root))]
  let unused := c.unusedDefinitions.map fun d => [describe root d]
  [.line [], statsTable c.stats] ++
    unlessEmpty "Undefined steps" ["Location", "Step", "Scenario"] undefinedSteps ++
    unlessEmpty "Ambiguous steps" ["Location", "Step", "Matching definitions"] ambiguousSteps ++
    unlessEmpty "Unused definitions" ["Definition"] unused

def ofDefinitions (root : Path) (c : Catalog) : List Item :=
  let row (d : Definition) : List Text := [Text.ofNat (d.span.startLine + 1), d.function, d.display]
  if c.definitions.entries = [] then [.line "[dim]No step definitions found.[/dim]"]
  else c.definitions.entries.map fun (p, ds) =>
    .table (p.seenFrom root).toText ["Line", "Keyword", "Pattern"] (ds.map row)

end Report
end StepAtlas
