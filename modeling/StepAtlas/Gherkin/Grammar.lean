import StepAtlas.Gherkin.Line

/-
The grammar of feature files as an automaton over lines:

    document  = feature?
    feature   = language? tags? title background? scenario* rule*
    rule      = tags? title background? scenario*
    background = title step*
    scenario  = tags? title step* examples*
    examples  = tags? title row*
    step      = step line with a table, a doc string, or one after the other

Every title may be followed by a description, which is any text.  Blank lines and comments may stand
everywhere.  Rules need no states of their own: what may follow inside a rule may also follow
outside.
-/

namespace StepAtlas
namespace Gherkin

inductive Holder where
  | background | scenario
deriving DecidableEq, Repr

inductive State where
  | start
  /-- Behind the line that names the language. -/
  | headed
  /-- Behind tags that belong to a block. -/
  | tagged (owner : Block)
  /-- Behind a title or in the description behind it. -/
  | titled (block : Block)
  /-- Behind a step that has a table or a doc string, or not. -/
  | step (holder : Holder) (hasTable hasDoc : Bool)
  /-- In the table of a step that has a doc string, or not. -/
  | rows (holder : Holder) (hasDoc : Bool)
  /-- In the doc string of a step that has a table, or not. -/
  | doc (holder : Holder) (hasTable : Bool) (mark : Mark)
  /-- In a table of examples. -/
  | exampleRows
  | finished
deriving DecidableEq, Repr

namespace State

def followers (withExamples : Bool) : List Kind :=
  [.tags] ++ (if withExamples then [.title .examples] else []) ++ [.title .scenario, .title .rule]

def accepted : State → List Kind
  | .start => [.ending, .language, .tags, .title .feature, .comment, .empty]
  | .headed => [.tags, .title .feature, .comment, .empty]
  | .tagged owner => [.tags, .title owner, .comment, .empty]
  | .titled .feature | .titled .rule =>
    [.ending, .empty, .comment, .title .background] ++ followers false ++ [.other]
  | .titled .background => [.ending, .empty, .comment, .step] ++ followers false ++ [.other]
  | .titled .scenario => [.ending, .empty, .comment, .step] ++ followers true ++ [.other]
  | .titled .examples => [.ending, .empty, .comment, .row] ++ followers true ++ [.other]
  | .step holder hasTable hasDoc =>
    [.ending] ++ (if hasTable then [] else [.row]) ++ (if hasDoc then [] else [.mark]) ++ [.step] ++
      followers (holder = .scenario) ++ [.comment, .empty]
  | .rows holder hasDoc =>
    [.ending, .row] ++ (if hasDoc then [] else [.mark]) ++ [.step] ++
      followers (holder = .scenario) ++ [.comment, .empty]
  | .doc _ _ _ => [.mark, .other]
  | .exampleRows => [.ending, .row] ++ followers true ++ [.comment, .empty]
  | .finished => []

def holder : State → Holder
  | .titled .background => .background
  | .step h _ _ | .rows h _ | .doc h _ _ => h
  | _ => .scenario

def opened : State → Option Mark
  | .doc _ _ m => some m
  | _ => none

def ownsTags : State → Option Block
  | .start | .headed => some .feature
  | .tagged owner => some owner
  | _ => none

def afterRow : State → State
  | .step h _ hasDoc => .rows h hasDoc
  | .rows h hasDoc => .rows h hasDoc
  | _ => .exampleRows

def afterMark (m : Mark) : State → State
  | .doc h hasTable _ => .step h hasTable true
  | .step h hasTable _ => .doc h hasTable m
  | .rows h _ => .doc h true m
  | s => s

def inTable : State → Bool
  | .rows _ _ | .exampleRows => true
  | _ => false

end State
end Gherkin
end StepAtlas
