import StepAtlas.Text.Quoted
import StepAtlas.Value

/-
Reading a settings file from left to right.  What is left of the file is the state; trouble keeps
what was left when it arose, so that its place can be told from the whole file afterwards.
-/

namespace StepAtlas
namespace Toml

/-- What is wrong, and the rest of the file from the place where it is wrong. -/
structure Trouble where
  words : Text
  rest : Text
deriving DecidableEq, Repr

def placeOf (file rest : Text) : Text :=
  if rest = [] then "end of document"
  else
    let before := file.take (file.length - rest.length)
    let line := before.countP (· = .scalar '\n') + 1
    let column := (before.reverse.takeWhile (· ≠ .scalar '\n')).length + 1
    "line " ++ Text.ofNat line ++ ", column " ++ Text.ofNat column

def Trouble.message (file : Text) (t : Trouble) : Text :=
  t.words ++ " (at " ++ placeOf file t.rest ++ ")"

/-- Why reading ends early: something is wrong with the file, or a number in it has too many digits
to be read. -/
inductive Failure where
  | trouble (t : Trouble)
  | numberTooLong (digits : Nat)
deriving DecidableEq, Repr

abbrev Reader := StateT Text (Except Failure)

def fail {α : Type} (words : Text) : Reader α := do throw (.trouble { words, rest := ← get })

def failAt {α : Type} (rest : Text) (words : Text) : Reader α := throw (.trouble { words, rest })

def isBlank (p : CodePoint) : Bool := p = .scalar ' ' || p = .scalar '\t'

def isBlankOrBreak (p : CodePoint) : Bool := isBlank p || p = .scalar '\n'

def isControl (p : CodePoint) : Bool := (p.toNat < 32 || p.toNat = 127) && p ≠ .scalar '\t'

/-- Whether a code point is a control character other than the tab and the line break. -/
def isControlInLines (p : CodePoint) : Bool := isControl p && p ≠ .scalar '\n'

def skipBlanks : Reader Unit := modify (·.dropWhile isBlank)

def looking (t : Text) : Reader Bool := do return Text.startsWith (← get) t

def accept (t : Text) : Reader Bool := do
  match Text.after? t (← get) with
  | some rest =>
    set rest
    return true
  | none => return false

/-- The text before the first place where `stop` stands. -/
def before? (stop : Text) : Text → Option Text
  | [] => if stop = [] then some [] else none
  | p :: r => if Text.startsWith (p :: r) stop then some [] else (before? stop r).map (p :: ·)

def refuse (forbidden : CodePoint → Bool) (stretch : Text) : Reader Unit := do
  match stretch.dropWhile fun p => !forbidden p with
  | [] => return ()
  | p :: r =>
    let rest := (← get).drop (stretch.length - (r.length + 1))
    failAt rest ("Found invalid character " ++ Text.quoted [p])

/-- Pass the text up to `stop`, which has to come, and `stop` itself. -/
def readUntil (forbidden : CodePoint → Bool) (stop : Text) : Reader Text := do
  match before? stop (← get) with
  | none => failAt [] ("Expected " ++ Text.quoted stop)
  | some body =>
    refuse forbidden body
    modify (·.drop (body.length + stop.length))
    return body

/-- Pass a comment if there is one; its end is the end of the line. -/
def skipComment : Reader Unit := do
  if ← accept "#" then
    let body := (← get).takeWhile (· ≠ .scalar '\n')
    refuse isControl body
    modify (·.drop body.length)

/-- Pass blanks, line breaks and comments, at most `fuel` comments. -/
def skipGaps : (fuel : Nat) → Reader Unit
  | 0 => return ()
  | fuel + 1 => do
    modify (·.dropWhile isBlankOrBreak)
    if ← looking "#" then
      skipComment
      skipGaps fuel

end Toml
end StepAtlas
