import StepAtlas.Glob.Braces

/-
File patterns.  A star stands for any text, slashes and line breaks included, a question mark for
any code point, and brackets for one code point of a set.
-/

namespace StepAtlas
namespace Glob

/-- The code points of a set: the bounds of its ranges, and whether the others are meant. -/
structure CodeSet where
  negated : Bool
  ranges : List (CodePoint × CodePoint)
deriving DecidableEq, Repr

def CodeSet.contains (s : CodeSet) (p : CodePoint) : Bool :=
  s.negated != s.ranges.any fun (low, high) => low.toNat ≤ p.toNat && p.toNat ≤ high.toNat

inductive Piece where
  | star
  | any
  | one (p : CodePoint)
  | set (s : CodeSet)
deriving DecidableEq, Repr

/-- The parts of a set between the hyphens that make ranges.  A hyphen at the start or right behind
a range makes none; `kept` holds the current part, last code point first, and `fixed` is the number
of code points before the next hyphen that may make a range. -/
def partsFrom (kept : Text) (fixed : Nat) : Text → List Text
  | [] => [kept.reverse]
  | p :: r =>
    match fixed with
    | n + 1 => partsFrom (p :: kept) n r
    | 0 => if p = .scalar '-' then kept.reverse :: partsFrom [] 2 r else partsFrom (p :: kept) 0 r

/-- The parts of a set.  A hyphen at the end stands for itself. -/
def parts (body : Text) : List Text :=
  let fixed := if body.head? = some (.scalar '!') then 2 else 1
  let ps := partsFrom [] fixed body
  if ps.length ≥ 2 && ps.getLast? = some [] then
    ps.dropLast.dropLast ++ [(ps.dropLast.getLast?.getD []) ++ [.scalar '-']]
  else ps

/-- Join the parts whose range is empty, dropping its bounds; from the last range to the first. -/
def dropEmptyRanges (ps : List Text) : List Text :=
  ps.foldr (fun part done =>
    match done with
    | [] => [part]
    | next :: rest =>
      match part.getLast?, next with
      | some low, high :: tail =>
        if high.toNat < low.toNat then (part.dropLast ++ tail) :: rest else part :: next :: rest
      | _, _ => part :: next :: rest) []

/-- The ranges that a part and the parts behind it make: the last code point of a part and the first
of the next are the bounds of one, and the others stand for themselves, as does a hyphen that lacks
a bound. -/
def rangesOf (part : Text) : (rest : List Text) → List (CodePoint × CodePoint)
  | [] => part.map fun p => (p, p)
  | next :: rest =>
    match part.getLast?, next with
    | some low, high :: tail =>
      part.dropLast.map (fun p => (p, p)) ++ (low, high) :: rangesOf tail rest
    | _, _ => part.map (fun p => (p, p)) ++ (.scalar '-', .scalar '-') :: rangesOf next rest

def setOf (body : Text) : CodeSet :=
  match dropEmptyRanges (parts body) with
  | (.scalar '!' :: part) :: rest => { negated := true, ranges := rangesOf part rest }
  | part :: rest => { negated := false, ranges := rangesOf part rest }
  | [] => { negated := false, ranges := [] }

/-- The body of a set behind its bracket, and what follows the set.  A closing bracket at its start
belongs to it. -/
def setBody? (t : Text) : Option (Text × Text) :=
  let start : Nat := if t.head? = some (.scalar '!') then 1 else 0
  let start := if (t.drop start).head? = some (.scalar ']') then start + 1 else start
  let inner := (t.drop start).takeWhile (· ≠ .scalar ']')
  let length := start + inner.length
  match t.drop length with
  | _ :: rest => some (t.take length, rest)
  | [] => none

/-- The pieces of a pattern; `skip` counts the code points of a set that are still to be passed. -/
def piecesFrom (skip : Nat) : Text → List Piece
  | [] => []
  | p :: r =>
    match skip with
    | n + 1 => piecesFrom n r
    | 0 =>
      if p = .scalar '*' then .star :: piecesFrom 0 r
      else if p = .scalar '?' then .any :: piecesFrom 0 r
      else if p = .scalar '[' then
        match setBody? r with
        | some (body, _) => .set (setOf body) :: piecesFrom (body.length + 1) r
        | none => .one p :: piecesFrom 0 r
      else .one p :: piecesFrom 0 r

def pieces (t : Text) : List Piece := piecesFrom 0 t

def ends : Text → List Text
  | [] => [[]]
  | p :: r => (p :: r) :: ends r

/-- What may be left of a text behind a piece, given what may be left before it, longest first.  A
star may leave every end of the longest rest, and so every end of the others. -/
def Piece.leave (piece : Piece) (rests : List Text) : List Text :=
  let pass (test : CodePoint → Bool) : List Text := rests.filterMap fun
    | p :: r => if test p then some r else none
    | [] => none
  match piece with
  | .star => match rests with
    | [] => []
    | longest :: _ => ends longest
  | .any => pass fun _ => true
  | .one p => pass (· = p)
  | .set s => pass s.contains

def fits (pattern t : Text) : Bool :=
  ((pieces pattern).foldl (fun rests piece => piece.leave rests) [t]).contains []

/-- Whether one of some patterns with braces stands for a path below a root.  The path may be taken
with a slash in front, so that a pattern that starts with two stars and a slash reaches the names at
the top as well. -/
def fitsAny (patterns : List Text) (path : Text) : Bool :=
  patterns.any fun pattern =>
    (expand pattern).any fun p => fits p path || fits p (.scalar '/' :: path)

end Glob
end StepAtlas
