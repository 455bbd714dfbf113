import StepAtlas.Text.Basic

/-
Alternatives in braces: `*.{ts,js}` stands for `*.ts` and `*.js`.  A group without a comma is kept
as it is.
-/

namespace StepAtlas
namespace Glob

def isBrace (p : CodePoint) : Bool := p = .scalar '\x7b' || p = .scalar '\x7d'

/-- The body of a group behind its opening brace, and what follows the group.  There are no braces
in it. -/
def body? (t : Text) : Option (Text × Text) :=
  let body := t.takeWhile fun p => !isBrace p
  match t.drop body.length with
  | .scalar '\x7d' :: rest => some (body, rest)
  | _ => none

/-- The first group with a comma and without braces inside: what stands before it, its body, and
what follows. -/
def group? : Text → Option (Text × Text × Text)
  | [] => none
  | p :: r =>
    let here := if p = .scalar '\x7b' then
        match body? r with
        | some (body, rest) => if body.contains (.scalar ',') then some (body, rest) else none
        | none => none
      else none
    match here with
    | some (body, rest) => some ([], body, rest)
    | none => (group? r).map fun (head, body, rest) => (p :: head, body, rest)

/-- The alternatives that a pattern stands for, with at most `fuel` groups expanded one inside the
other. -/
def expandFrom : (fuel : Nat) → Text → List Text
  | 0, t => [t]
  | fuel + 1, t =>
    match group? t with
    | none => [t]
    | some (head, body, rest) =>
      ((Text.splitAt (.scalar ',') body).flatMap fun option =>
        expandFrom fuel (head ++ option ++ rest)).eraseDups

/-- The alternatives that a pattern stands for, each once.  Every expansion takes a pair of braces
away, so their number bounds the expansions. -/
def expand (t : Text) : List Text := expandFrom (t.count (.scalar '\x7b')) t

end Glob
end StepAtlas
