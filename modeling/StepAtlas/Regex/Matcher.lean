import StepAtlas.Regex.Syntax
import StepAtlas.Text.Blank
import StepAtlas.Text.Case
import StepAtlas.Text.Letter

/-
Matching by backtracking.  A node is run at a spot with a continuation for the rest of the pattern,
and the first way through that the continuation accepts is the match: alternatives in order, a
greedy repetition from its longest way down, a lazy one from its shortest way up.

A failed run tells where it last entered an alternation, a repetition or a lookaround.  Only a
possessive repetition reads that: the iteration that fails ends it, and the pattern goes on from the
place told.
-/

namespace StepAtlas
namespace Regex

namespace Category

def holds (ascii : Bool) (p : CodePoint) : Category → Bool
  | .digit => if ascii then p.test Char.isDigit else p.isDigit
  | .space =>
    if ascii then p.test (fun c => c = ' ' || ('\t' ≤ c && c ≤ '\r')) else p.isBlank
  | .word =>
    if ascii then p.test (fun c => c.isAlphanum || c = '_') else p.isAlphanumeric || p = .scalar '_'

end Category

/-- The largest code point of the basic plane.  Sets that ignore case fold only those. -/
def basicPlane : Nat := 0xFFFF

namespace SetItem

def holds (ascii : Bool) (p : CodePoint) : SetItem → Bool
  | .single n => p.toNat == n
  | .range lo hi => lo ≤ p.toNat && p.toNat ≤ hi
  | .category c negated => c.holds ascii p != negated

/-- Whether a set member holds the code point with lower case `low`, case ignored.  Beyond the basic
plane a single member stands for its own lower case only, and a range is asked for the lower case
and the upper case. -/
def holdsFolded (low : Nat) : SetItem → Bool
  | .single n =>
    if lowerCase n ≤ basicPlane then (caseVariants low).contains n else low == n
  | .range lo hi =>
    (caseVariants low).any (fun n => lo ≤ n && n ≤ hi && n ≤ basicPlane) ||
      (hi > basicPlane && ((lo ≤ low && low ≤ hi) || (lo ≤ upperCase low && upperCase low ≤ hi)))
  | .category c negated =>
    match CodePoint.ofNat? low with
    | some p => c.holds false p != negated
    | none => negated

/-- Whether a set member holds a code point when the case of the letters `a` to `z` is ignored. -/
def holdsFoldedAscii (p : CodePoint) : SetItem → Bool
  | .single n => p.lowerAscii.toNat == n || (p.lowerAscii.toNat == n + 32 && 65 ≤ n && n ≤ 90)
  | .range lo hi =>
    let low := p.lowerAscii.toNat
    (lo ≤ low && low ≤ hi && !(65 ≤ low && low ≤ 90)) ||
      (97 ≤ low && low ≤ 122 && lo ≤ low - 32 && low - 32 ≤ hi)
  | .category c negated => c.holds true p.lowerAscii != negated

end SetItem

namespace Atom

def literalAccepts (o : Options) (n : Nat) (p : CodePoint) : Bool :=
  if !o.ignoreCase then p.toNat == n
  else if o.ascii then (SetItem.single n).holdsFoldedAscii p
  else (lowerCaseClass (lowerCase n)).contains (lowerCase p.toNat)

def accepts (o : Options) (p : CodePoint) : Atom → Bool
  | .any => o.dotAll || p ≠ .scalar '\n'
  | .literal n => literalAccepts o n p
  | .notLiteral n => !literalAccepts o n p
  | .set negated items =>
    let held :=
      if !o.ignoreCase then items.any (·.holds o.ascii p)
      else if o.ascii then items.any (·.holdsFoldedAscii p)
      else items.any (·.holdsFolded (lowerCase p.toNat))
    held != negated

end Atom

/-- Where the matcher stands: the text behind it, nearest first, the text ahead, and what the groups
have caught, latest first. -/
structure Spot where
  pos : Nat
  behind : Text
  ahead : Text
  /-- A group's number with the start and the end of what it caught. -/
  caught : List (Nat × Nat × Nat)
  /-- Where an alternation, a repetition or a lookaround was last entered. -/
  entered : Nat
deriving Repr

namespace Spot

def start (t : Text) : Spot := { pos := 0, behind := [], ahead := t, caught := [], entered := 0 }

def advance (s : Spot) : Spot :=
  match s.ahead with
  | [] => s
  | p :: r => { s with pos := s.pos + 1, behind := p :: s.behind, ahead := r }

def retreat (s : Spot) : Spot :=
  match s.behind with
  | [] => s
  | p :: r => { s with pos := s.pos - 1, behind := r, ahead := p :: s.ahead }

def moveTo (s : Spot) (pos : Nat) : Spot :=
  if pos ≤ s.pos then (s.pos - pos).fold (fun _ _ s => s.retreat) s
  else (pos - s.pos).fold (fun _ _ s => s.advance) s

def enter (s : Spot) : Spot := { s with entered := s.pos }

/-- Take down what a group has caught, from `start` to here. -/
def catchGroup (s : Spot) (number start : Nat) : Spot :=
  { s with caught := (number, start, s.pos) :: s.caught }

def caughtBy? (s : Spot) (number : Nat) : Option (Nat × Nat) := s.caught.lookup number

def slice (s : Spot) (start stop : Nat) : Text :=
  ((s.behind.drop (s.pos - stop)).take (stop - start)).reverse

/-- Whether an anchor holds here.  The end of the text counts as a line end, and so does a place
before a line feed; without line mode only a line feed that ends the text counts.  An empty text has
no boundaries and no place that is none. -/
def holds (o : Options) (s : Spot) : Anchor → Bool
  | .textStart => s.behind.isEmpty
  | .textEnd => s.ahead.isEmpty
  | .lineStart => s.behind.isEmpty || (o.multiline && s.behind.head? = some (.scalar '\n'))
  | .lineEnd =>
    s.ahead.isEmpty || s.ahead = [.scalar '\n'] ||
      (o.multiline && s.ahead.head? = some (.scalar '\n'))
  | .boundary => atBoundary
  | .notBoundary => !(s.behind.isEmpty && s.ahead.isEmpty) && !atBoundary
where
  isWord (p : Option CodePoint) : Bool := p.any fun p => Category.word.holds o.ascii p
  atBoundary : Bool := isWord s.behind.head? != isWord s.ahead.head?

/-- The spots after zero, one, two and more code points that an atom accepts, at most `most` of
them. -/
def reach (o : Options) (a : Atom) : (most : Nat) → Spot → List Spot
  | 0, s => [s]
  | most + 1, s =>
    match s.ahead with
    | [] => [s]
    | p :: _ => if a.accepts o p then s :: reach o a most s.advance else [s]

end Spot

/-- A match ends at a spot; a failure tells where something was last entered. -/
abbrev Outcome := Except Nat Spot

abbrev Continuation := Spot → Outcome

/-- The first of several spots from which the rest matches; `told` is what a failure tells
otherwise. -/
def firstOf (k : Continuation) (told : Nat) : List Spot → Outcome
  | [] => .error told
  | s :: rest =>
    match k s with
    | .ok r => .ok r
    | .error _ => firstOf k told rest

def tell (place : Nat) : Outcome → Outcome
  | .ok r => .ok r
  | .error _ => .error place

def orTry (first : Outcome) (second : Unit → Outcome) : Outcome :=
  match first with
  | .ok r => .ok r
  | .error _ => second ()

def belowMost (count : Nat) : Option Nat → Bool
  | none => true
  | some most => count < most

/-- The iterations of a greedy repetition after `count` of them.  `last` is where the last free
iteration began: one that ends there has matched nothing, and no other follows it. -/
def greedyLoop (body : Spot → Continuation → Outcome) (lo : Nat) (hi : Option Nat)
    (k : Continuation) :
    (fuel count : Nat) → (last : Option Nat) → Spot → Outcome
  | 0, _, _, s => k s
  | fuel + 1, count, last, s =>
    if count < lo then tell s.pos (body s (greedyLoop body lo hi k fuel (count + 1) last))
    else if belowMost count hi && last ≠ some s.pos then
      orTry (body s (greedyLoop body lo hi k fuel (count + 1) (some s.pos))) fun _ =>
        tell s.pos (k s)
    else tell s.pos (k s)

def lazyLoop (body : Spot → Continuation → Outcome) (lo : Nat) (hi : Option Nat)
    (k : Continuation) :
    (fuel count : Nat) → (last : Option Nat) → Spot → Outcome
  | 0, _, _, s => k s
  | fuel + 1, count, last, s =>
    if count < lo then tell s.pos (body s (lazyLoop body lo hi k fuel (count + 1) last))
    else orTry (k s) fun _ =>
      if belowMost count hi && last ≠ some s.pos then
        tell s.pos (body s (lazyLoop body lo hi k fuel (count + 1) (some s.pos)))
      else .error s.pos

/-- The iterations of a possessive repetition after `count` of them, each matched on its own. -/
def possessiveLoop (body : Spot → Continuation → Outcome) (lo : Nat) (hi : Option Nat) :
    (fuel count : Nat) → Spot → Outcome
  | 0, _, s => .ok s
  | fuel + 1, count, s =>
    if count < lo then
      match body s .ok with
      | .ok s' => possessiveLoop body lo hi fuel (count + 1) s'.enter
      | .error place => .error place
    else if belowMost count hi then
      match body s .ok with
      | .ok s' =>
        if s'.pos = s.pos then .ok s'.enter else possessiveLoop body lo hi fuel (count + 1) s'.enter
      | .error place => .ok (s.moveTo place).enter
    else .ok s

namespace Node

/-- The atom that a node starts with, when a mismatch with it can be seen without entering the
node. -/
def firstAtom? : Node → Option Atom
  | .atom .any | .atom (.notLiteral _) => none
  | .atom a => some a
  | .seq a _ => a.firstAtom?
  | .scoped [] [] body => body.firstAtom?
  | _ => none

/-- Whether a node is seen not to match here without being entered. -/
def blocked (o : Options) (n : Node) (s : Spot) : Bool :=
  match n.firstAtom? with
  | none => false
  | some a => !o.ignoreCase && !(s.ahead.head?.any fun p => a.accepts o p)

def isAlt : Node → Bool
  | .alt .. => true
  | _ => false

def run (o : Options) : Node → Spot → Continuation → Outcome
  | .empty, s, k => k s
  | .atom a, s, k =>
    match s.ahead with
    | [] => .error s.entered
    | p :: _ => if a.accepts o p then k s.advance else .error s.entered
  | .anchor a, s, k => if s.holds o a then k s else .error s.entered
  | .seq a b, s, k => a.run o s fun s => b.run o s k
  | .alt a b, s, k =>
    let first := if a.blocked o s then .error s.entered else a.run o s.enter k
    match first with
    | .ok r => .ok r
    | .error place =>
      if b.isAlt then b.run o { s with entered := place } k
      else if b.blocked o s then .error place
      else b.run o s.enter k
  | .repeatAtom greed lo hi a, s, k =>
    let spots := Spot.reach o a (match hi with
      | some most => min most s.ahead.length
      | none => s.ahead.length) s.enter
    match greed with
    | .greedy => firstOf k s.pos (spots.drop lo).reverse
    | .lazy => firstOf k s.pos (spots.drop lo)
    | .possessive => firstOf k s.pos (spots.drop lo).getLast?.toList
  | .loop greed lo hi body, s, k =>
    let fuel := lo + s.ahead.length + 2
    match greed with
    | .greedy => greedyLoop (body.run o) lo hi k fuel 0 none s.enter
    | .lazy => lazyLoop (body.run o) lo hi k fuel 0 none s.enter
    | .possessive =>
      match possessiveLoop (body.run o) lo hi fuel 0 s.enter with
      | .ok s' => k s'
      | .error _ => .error s.pos
  | .group number body, s, k => body.run o s fun s' => k (s'.catchGroup number s.pos)
  | .scoped on off body, s, k => body.run (o.adjust on off) s k
  | .atomic body, s, k =>
    match body.run o s.enter .ok with
    | .ok s' => k s'.enter
    | .error _ => .error s.pos
  | .lookahead negated body, s, k =>
    match body.run o s.enter .ok with
    | .ok s' =>
      if negated then .error s'.pos else k { s with caught := s'.caught, entered := s'.pos }
    | .error place => if negated then k { s with entered := place } else .error place
  | .lookbehind negated (width, _) body, s, k =>
    if s.pos < width then if negated then k s else .error s.entered
    else
      match body.run o (s.moveTo (s.pos - width)).enter .ok with
      | .ok s' =>
        if negated then .error s'.pos else k { s with caught := s'.caught, entered := s'.pos }
      | .error place => if negated then k { s with entered := place } else .error place
  | .backreference number, s, k =>
    match s.caughtBy? number with
    | none => .error s.entered
    | some (start, stop) =>
      let wanted := s.slice start stop
      let found := s.ahead.take wanted.length
      let fold (p : CodePoint) : Nat :=
        if !o.ignoreCase then p.toNat else if o.ascii then p.lowerAscii.toNat else lowerCase p.toNat
      if found.map fold = wanted.map fold then k (s.moveTo (s.pos + wanted.length))
        else .error s.entered
  | .conditional number yes no, s, k =>
    match s.caughtBy? number with
    | some _ => yes.run o s k
    | none => no.run o s k

end Node

namespace Pattern

/-- The text of each group in order; none for a group that caught nothing. -/
def groupTexts (p : Pattern) (s : Spot) : List (Option Text) :=
  let whole := s.behind.reverse ++ s.ahead
  (List.range p.groups).map fun i =>
    (s.caughtBy? (i + 1)).map fun (start, stop) => (whole.drop start).take (stop - start)

/-- The first match at or after a spot, trying at most `fuel` further starts. -/
def searchFrom (p : Pattern) : (fuel : Nat) → Spot → Option Spot
  | 0, s => (p.root.run p.options s.enter .ok).toOption
  | fuel + 1, s =>
    match p.root.run p.options s.enter .ok with
    | .ok r => some r
    | .error _ => searchFrom p fuel s.advance

def search (p : Pattern) (t : Text) : Option (List (Option Text)) :=
  (p.searchFrom t.length (Spot.start t)).map p.groupTexts

def atEnd : Continuation := fun s => if s.ahead.isEmpty then .ok s else .error s.entered

def fullMatch (p : Pattern) (t : Text) : Option (List (Option Text)) :=
  ((p.root.run p.options (Spot.start t) atEnd).toOption).map p.groupTexts

end Pattern
end Regex
end StepAtlas
