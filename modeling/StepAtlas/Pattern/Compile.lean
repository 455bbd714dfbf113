import StepAtlas.Log
import StepAtlas.Machine
import StepAtlas.Pattern.RegexLiteral

/-
From expressions and literals to patterns that can be matched, or to warnings about them.
-/

namespace StepAtlas

open Regex

/-- What comes of a reading.  A pattern that is refused is none, after a warning that begins with
`refusal`; the failures that are not complaints stop the work. -/
def Regex.Pattern.ofReading (refusal source : Text) :
    Except Failure Pattern → Except Fault (Option Pattern)
  | .ok p => .ok (some p)
  | .error .repetitionTooLarge => .error .repetitionTooLarge
  | .error (.numberTooLong digits) => .error (.numberTooLong digits)
  | .error .repertoiresClash => .error .repertoiresClash
  | .error (.complaint c place) => do
    log (warning ++ refusal ++ ": " ++ placedMessage source c place)
    return none

def Regex.Pattern.compile (m : Machine) (refusal source : Text) (flags : List Flag) :
    Except Fault (Option Pattern) :=
  match m.exhausted? (.compile source flags) with
  | some words => .error (.stackExhausted words)
  | none => ofReading refusal source (Pattern.parse m.named? source flags)

def Expression.compile (m : Machine) (e : Text) : Except Fault (Option Pattern) :=
  Pattern.compile m ("Failed to compile cucumber expression " ++ Text.quoted e) (source e) [.ascii]

/-- Compile a literal.  One that cannot be compiled is none, after a warning that shows it. -/
def RegexLiteral.compile (m : Machine) (body : Text) (flags : Option Text) :
    Except Fault (Option Pattern) :=
  let letters := flags.getD []
  match letters.find? fun p => (flag? p).isNone with
  | some bad => do
    log (warning ++ "Invalid regex flag " ++ Text.quoted [bad] ++ " in /" ++ body ++ "/" ++ letters)
    return none
  | none =>
    Pattern.compile m ("Invalid regex pattern /" ++ body ++ "/") (nameGroups body)
      (letters.filterMap fun p => (flag? p).getD none)

end StepAtlas
