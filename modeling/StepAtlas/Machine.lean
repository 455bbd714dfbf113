import StepAtlas.Pattern.Expression
import StepAtlas.Regex.Reader
import StepAtlas.Value

/-
The machine that the program runs on, as far as results depend on it: which characters it knows by
name, and which work it gives up because its stack does not suffice.  Only work that goes into
nested things is ever given up.
-/

namespace StepAtlas

/-- Work that goes as deep as what is worked on nests. -/
inductive Work where
  /-- Compile a regular expression. -/
  | compile (pattern : Text) (flags : List Regex.Flag)
  /-- Read a settings file. -/
  | parse (file : Text)
  /-- Show a value in a message. -/
  | quote (v : Value)
  /-- Make a value plain text. -/
  | spell (v : Value)

structure Machine where
  /-- The character that has a name. -/
  named? : String → Option Char
  /-- The words with which some work is given up. -/
  exhausted? : Work → Option Text
  /-- The rules of an expression nest two deep, however many there are. -/
  compiles_expressions : ∀ e : Text, exhausted? (.compile (Expression.source e) [.ascii]) = none

namespace Machine

/-- A machine that knows no character by name and gives up no work. -/
def boundless : Machine := ⟨fun _ => none, fun _ => none, fun _ => rfl⟩

instance : Inhabited Machine := ⟨boundless⟩

/-- Why a value cannot be put into words, if it cannot: it nests too deep for `work` on it, or there
is a number in it that is too long. -/
def unwritable? (m : Machine) (work : Value → Work) (v : Value) : Option Fault :=
  let exhausted := if v.isNested then (m.exhausted? (work v)).map Fault.stackExhausted else none
  let tooLong := v.integers.any fun n => Text.numberLimit ≤ n.natAbs
  exhausted <|> if tooLong then some .unwritableNumber else none

end Machine
end StepAtlas
