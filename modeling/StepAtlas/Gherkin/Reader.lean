import StepAtlas.Feature
import StepAtlas.Gherkin.Complaint
import StepAtlas.Gherkin.Grammar
import StepAtlas.Log

/-
Reading a feature file: the lines drive the automaton of the grammar, and what they say is
collected.  A line that the grammar does not allow is complained about and passed over, so that one
report names all of them.
-/

namespace StepAtlas
namespace Gherkin

/-- What a feature file says about scenarios and steps, in the order of its lines. -/
inductive Entry where
  /-- A background or a scenario starts. -/
  | block (name : Text) (line : Nat) (tags : List Text)
  | step (keyword : Text) (text : Text) (line : Nat)
deriving DecidableEq, Repr

/-- A table that is being read: the number of cells in its first row, and the first row with another
number. -/
structure Table where
  cells : Nat
  odd : Option Complaint
deriving DecidableEq, Repr

structure Reader where
  state : State
  /-- The languages that a file may ask for. -/
  languages : List Language
  language : Language
  complaints : List Complaint
  /-- The table that the state is in. -/
  table : Option Table
  /-- The tags read for the next title. -/
  tags : List Text
  /-- The name and the tags of the feature. -/
  feature : Option (Text × List Text)
  /-- The entries so far, the last one first. -/
  entries : List Entry
deriving Repr

def backgroundName : Text := "Background"

namespace Reader

/-- Nothing is read yet; `others` are the languages beside English. -/
def start (others : List Language) : Reader :=
  { state := .start, languages := Language.table others, language := .english, complaints := [],
    table := none, tags := [], feature := none, entries := [] }

def complain (r : Reader) (c : Complaint) : Reader :=
  { r with complaints := Complaint.add r.complaints c }

/-- Close the table that is open; its rows must have had the same number of cells. -/
def closeTable (r : Reader) : Reader :=
  let r' := { r with table := none }
  match r.table with
  | some { odd := some c, .. } => r'.complain c
  | _ => r'

/-- Go on in another state.  Leaving a table closes it. -/
def goto (r : Reader) (s : State) : Reader :=
  if s.inTable then { r with state := s } else { r.closeTable with state := s }

/-- Whether the lines to come lead to a title of the given block over nothing but tags, comments and
empty lines. -/
def leadsTo (language : Language) (block : Block) : List Line → Bool
  | [] => false
  | l :: rest =>
    if (l.title? language block).isSome then true
    else if l.isEmpty || l.isComment then leadsTo language block rest
    else match l.tags? with
      | some (.ok _) => leadsTo language block rest
      | _ => false

/-- The block that tags belong to: what the lines to come lead to, and a rule if they lead to
nothing. -/
def owner (r : Reader) (rest : List Line) : Block :=
  match r.state.ownsTags with
  | some b => b
  | none =>
    if (Kind.title .examples) ∈ r.state.accepted && leadsTo r.language .examples rest then .examples
    else if leadsTo r.language .scenario rest then .scenario
    else .rule

def addTitle (r : Reader) (block : Block) (name : Text) (line : Nat) : Reader :=
  let r' := { r with tags := [] }
  match block with
  | .feature => { r' with feature := some (name, r.tags) }
  | .background => { r' with entries := .block backgroundName line [] :: r.entries }
  | .scenario => { r' with entries := .block name line r.tags :: r.entries }
  | .rule | .examples => r'

def addRow (r : Reader) (l : Line) (cells : Nat) : Reader :=
  let table := match r.table with
    | none => { cells, odd := none }
    | some t =>
      if t.cells = cells || t.odd.isSome then t
      else { t with odd := some (.unevenTable l.number l.column) }
  { r with table := some table }

/-- Try to read a line as one kind of token.  Some tokens can be recognised and yet be wrong: then
there is a complaint, and the line is still to be read. -/
def tryKind (r : Reader) (l : Line) (rest : List Line) : Kind → Except Reader Reader
  | .ending => .error r
  | .language =>
    match l.language? with
    | none => .error r
    | some name => match Language.named? r.languages name with
      | some language => .ok { (r.goto .headed) with language }
      | none => .error (r.complain (.unknownLanguage l.number l.column name))
  | .tags =>
    match l.tags? with
    | none => .error r
    | some (.error column) => .error (r.complain (.blankInTag l.number column))
    | some (.ok tags) =>
      let r' := r.goto (.tagged (r.owner rest))
      .ok { r' with tags := r.tags ++ tags }
  | .title block =>
    match l.title? r.language block with
    | none => .error r
    | some name => .ok ((r.goto (.titled block)).addTitle block name l.number)
  | .step =>
    match l.step? r.language with
    | none => .error r
    | some (keyword, text) =>
      let r' := r.goto (.step r.state.holder false false)
      .ok { r' with entries := .step keyword text l.number :: r.entries }
  | .mark =>
    match l.mark? r.state.opened with
    | none => .error r
    | some m => .ok (r.goto (r.state.afterMark m))
  | .row =>
    match l.cells? with
    | none => .error r
    | some cells => .ok ((r.goto r.state.afterRow).addRow l cells)
  | .comment => if l.isComment then .ok r else .error r
  | .empty => if l.isEmpty then .ok r else .error r
  | .other => .ok r

def tryKinds (l : Line) (rest : List Line) (r : Reader) : List Kind → Except Reader Reader
  | [] => .error r
  | k :: ks => match tryKind r l rest k with
    | .ok r => .ok r
    | .error r => tryKinds l rest r ks

def line (r : Reader) (l : Line) (rest : List Line) : Reader :=
  match tryKinds l rest r r.state.accepted with
  | .ok r => r
  | .error r' => r'.complain (.unexpected l.number l.column r.state.accepted l.text.trim)

def lines (r : Reader) : List Line → Reader
  | [] => r
  | l :: rest => lines (r.line l rest) rest

/-- Read the end of the file, which has `n` lines. -/
def finish (r : Reader) (n : Nat) : Reader :=
  if Kind.ending ∈ r.state.accepted then r.goto .finished
  else r.complain (.unexpectedEnd (n + 1) r.state.accepted)

def ofText (others : List Language) (content : Text) : Reader :=
  let lines := Line.ofText content
  ((start others).lines lines).finish lines.length

end Reader

/-- The keyword that a word stands for.  Words of other languages count as the first keyword. -/
def keywordOf (word : Text) : StepKeyword :=
  (StepKeyword.ofWord? (word.filter fun p => !p.isBlank)).getD .given

/-- The scenarios of a feature from its entries, and the steps before the first block. -/
def scenariosOf (source : Path) (feature : Text) :
    List Entry → List (StepKeyword × Text × Nat) × List Scenario
  | [] => ([], [])
  | .step keyword text line :: rest =>
    let (steps, scenarios) := scenariosOf source feature rest
    ((keywordOf keyword, text, line) :: steps, scenarios)
  | .block name line tags :: rest =>
    let (steps, scenarios) := scenariosOf source feature rest
    let steps :=
      steps.map fun (keyword, text, line) =>
        { keyword, text, line, source, scenario := name, feature }
    ([], { name, steps, line, tags } :: scenarios)

def Reader.result? (source : Path) (r : Reader) : Option Feature :=
  r.feature.map fun (name, tags) =>
    { name, source, scenarios := (scenariosOf source name r.entries.reverse).2, tags }

/-- Read a feature file in English or in one of the other languages.  There is no feature in a file
that breaks the grammar, and none in one without a feature line. -/
def parse (others : List Language) (source : Path) (content : Text) :
    Except Fault (Option Feature) := do
  let r := Reader.ofText others content
  if r.complaints.isEmpty then return r.result? source
  else
    log (warning ++ "Failed to parse feature file " ++ source.toText ++ ": " ++
      Complaint.report r.complaints)
    return none

end Gherkin
end StepAtlas
