import StepAtlas.Script.Parser.Statement

/-
The grammar as a whole.  One definition ties the rules together: with fuel for one level more, a
rule may use every part with the fuel of one level less.
-/

namespace StepAtlas
namespace Script
namespace Parser

def rule (d : Dialect) (self : Reading) : Reading
  | .statement => statementRule d self
  | .block => blockRule self
  | .expression => expressionRule self
  | .assignment => assignmentRule d self
  | .unary => unaryRule d self
  | .type => typeRule self
  | .object => objectLiteral d.hasTypes self
  | .array => arrayLiteral self
  | .parameters => parameters d.hasTypes (decorators d.hasTypes self) self
  | .classTail =>
    classTail d.hasTypes (decorators d.hasTypes self) (do return [← operand d self]) self
  | .element => elementRule d.hasTypes self

/-- A reader for parts that are nested at most `depth` deep. -/
def reading (d : Dialect) : (depth : Nat) → Reading
  | 0 => fun _ => failure
  | depth + 1 => rule d (reading d depth)

/-- A whole script.  What is no statement is passed token by token. -/
def script (self : Reading) : Parser (List Tree) := do
  let found ← many (self .statement <|> skipToken)
  return found.flatten

end Parser

/-- The tree of a script, and whether the script breaks the rules somewhere.  Every level of nesting
takes at least one character in a bounded number of rules, which bounds the depth. -/
def parse (d : Dialect) (s : List Char) : Tree × Bool :=
  let cursor := Cursor.start s
  match (Parser.script (Parser.reading d (4 * s.length + 16))).run cursor with
  | some (found, after) =>
    let origin : Place := { line := 0, column := 0 }
    (.node { kind := .other } (origin.to after.stop) found, after.damaged)
  | none => (.node { kind := .other } ⟨0, 0, 0, 0⟩ [], true)

end Script
end StepAtlas
