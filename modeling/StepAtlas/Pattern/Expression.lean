import StepAtlas.Fault

/-
Step expressions: literal text with placeholders such as `{int}` in it.  An expression becomes a
regular expression that has to cover the whole text: all its code points are taken literally, and
then every placeholder gives way to a rule of its own.  Only ASCII digits count as digits here and
only ASCII blanks as blanks.
-/

namespace StepAtlas
namespace Expression

inductive Placeholder where
  | int | float | word | string | anything
deriving DecidableEq, Repr

namespace Placeholder

def all : List Placeholder := [.int, .float, .word, .string, .anything]

def spelling : Placeholder → Text
  | .int => "\x7bint\x7d"
  | .float => "\x7bfloat\x7d"
  | .word => "\x7bword\x7d"
  | .string => "\x7bstring\x7d"
  | .anything => "\x7b\x7d"

def source : Placeholder → Text
  | .int => "(-?\\d+)"
  | .float => "(-?\\d+(?:\\.\\d+)?)"
  | .word => "(\\S+)"
  | .string => "(?:\"([^\"]*)\"|'([^']*)'|(\\S+))"
  | .anything => "(.+)"

def groups : Placeholder → Nat
  | .string => 3
  | _ => 1

def at? (known : List Placeholder) (t : Text) : Option Placeholder :=
  known.find? fun h => Text.startsWith t h.spelling

end Placeholder

inductive Token where
  | literal (p : CodePoint)
  | hole (h : Placeholder)
deriving DecidableEq, Repr

/-- The tokens of an expression, out of the placeholders given; `skip` counts the code points of a
placeholder that are still to be passed. -/
def tokensFrom (known : List Placeholder) (skip : Nat) : Text → List Token
  | [] => []
  | p :: r =>
    match skip with
    | n + 1 => tokensFrom known n r
    | 0 =>
      match Placeholder.at? known (p :: r) with
      | some h => .hole h :: tokensFrom known (h.spelling.length - 1) r
      | none => .literal p :: tokensFrom known 0 r

def tokens (e : Text) : List Token := tokensFrom Placeholder.all 0 e

/-- The code points that have a meaning in regular expressions. -/
def special : List Char :=
  ['(', ')', '[', ']', '\x7b', '\x7d', '?', '*', '+', '-', '|', '^', '$', '\\', '.', '&', '~', '#',
    ' ', '\t',
   '\n', '\r', '\x0b', '\x0c']

/-- The regular expression that a text stands for when nothing in it has a meaning. -/
def escaped (t : Text) : Text :=
  t.flatMap fun p => if p.test special.contains then [.scalar '\\', p] else [p]

/-- The regular expression of an expression.  The placeholders are replaced one kind after the
other, each of them looked for in what the ones before it have left. -/
def source (e : Text) : Text :=
  "^" ++
    Placeholder.all.foldl (fun t h => t.replace (escaped h.spelling) h.source) (escaped e) ++ "$"

/-- One argument for each placeholder, out of the groups of a match.  Of the three groups of a
quoted or bare word, the one that has caught something counts, and a placeholder whose groups have
caught nothing is a failure. -/
def argumentsOf : List Token → List (Option Text) → Except Fault (List Text)
  | [], _ => .ok []
  | .literal _ :: ts, groups => argumentsOf ts groups
  | .hole h :: ts, groups =>
    match (groups.take h.groups).findSome? id with
    | none => .error (.internal "a placeholder has caught nothing")
    | some argument => do return argument :: (← argumentsOf ts (groups.drop h.groups))

end Expression
end StepAtlas
