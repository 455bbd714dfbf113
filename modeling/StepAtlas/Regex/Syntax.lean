import StepAtlas.Text.Basic

/-
The syntax tree of a regular expression.  Alternation and sequence are binary, and a repetition of
single code points is kept apart from a repetition of larger parts: the first needs no recursion to
match, and the second has to guard against iterations that match nothing.
-/

namespace StepAtlas
namespace Regex

inductive Flag where
  | ignoreCase | locale | multiline | dotAll | verbose | ascii | template | unicode
deriving DecidableEq, Repr

namespace Flag

def ofLetter? : Char → Option Flag
  | 'i' => some .ignoreCase
  | 'L' => some .locale
  | 'm' => some .multiline
  | 's' => some .dotAll
  | 'x' => some .verbose
  | 'a' => some .ascii
  | 't' => some .template
  | 'u' => some .unicode
  | _ => none

/-- The flags that choose a character repertoire; at most one of them holds at a time. -/
def isRepertoire : Flag → Bool
  | .ascii | .locale | .unicode => true
  | _ => false

end Flag

/-- How a pattern is read and matched at some place. -/
structure Options where
  ignoreCase : Bool := false
  multiline : Bool := false
  dotAll : Bool := false
  ascii : Bool := false
deriving DecidableEq, Repr

namespace Options

/-- The options inside a group that turns `on` and `off` some flags. -/
def adjust (o : Options) (on off : List Flag) : Options where
  ignoreCase := (o.ignoreCase || on.contains .ignoreCase) && !off.contains .ignoreCase
  multiline := (o.multiline || on.contains .multiline) && !off.contains .multiline
  dotAll := (o.dotAll || on.contains .dotAll) && !off.contains .dotAll
  ascii := if on.any Flag.isRepertoire then on.contains .ascii else o.ascii

end Options

inductive Category where
  | digit | space | word
deriving DecidableEq, Repr

inductive SetItem where
  | single (n : Nat)
  | range (lo hi : Nat)
  | category (c : Category) (negated : Bool)
deriving DecidableEq, Repr

inductive Atom where
  | any
  | literal (n : Nat)
  | notLiteral (n : Nat)
  | set (negated : Bool) (items : List SetItem)
deriving DecidableEq, Repr

inductive Anchor where
  | lineStart | lineEnd | textStart | textEnd | boundary | notBoundary
deriving DecidableEq, Repr

/-- Which iterations a repetition prefers: as many as possible, as few as possible, or as many as
possible without ever giving one back. -/
inductive Greed where
  | greedy | lazy | possessive
deriving DecidableEq, Repr

inductive Node where
  | empty
  | atom (a : Atom)
  | anchor (a : Anchor)
  | seq (first second : Node)
  | alt (first second : Node)
  | repeatAtom (greed : Greed) (lo : Nat) (hi : Option Nat) (a : Atom)
  | loop (greed : Greed) (lo : Nat) (hi : Option Nat) (body : Node)
  | group (number : Nat) (body : Node)
  | scoped (on off : List Flag) (body : Node)
  | atomic (body : Node)
  | lookahead (negated : Bool) (body : Node)
  | lookbehind (negated : Bool) (width : Nat × Nat) (body : Node)
  | backreference (number : Nat)
  | conditional (number : Nat) (yes no : Node)
deriving Repr

namespace Node

def maxWidth : Nat := Nat.pow 2 64

/-- The least and the greatest number of code points that a node can match, given those of the
groups. -/
def width (groups : Nat → Nat × Nat) : Node → Nat × Nat
  | .empty | .anchor _ | .lookahead .. | .lookbehind .. => (0, 0)
  | .atom _ => (1, 1)
  | .seq a b =>
    let (l, h) := a.width groups
    let (l', h') := b.width groups
    (min (l + l') maxWidth, min (h + h') maxWidth)
  | .alt a b =>
    let (l, h) := a.width groups
    let (l', h') := b.width groups
    (min l l', max h h')
  | .repeatAtom _ lo hi _ => (min lo maxWidth, min (hi.getD maxWidth) maxWidth)
  | .loop _ lo hi body =>
    let (l, h) := body.width groups
    let top := match hi with
      | some n => h * n
      | none => if h = 0 then 0 else maxWidth
    (min (l * lo) maxWidth, min top maxWidth)
  | .group _ body | .scoped _ _ body | .atomic body => body.width groups
  | .backreference n => groups n
  | .conditional _ yes no =>
    let (l, h) := yes.width groups
    let (l', h') := no.width groups
    (min l l', max h h')

def ofList : List Node → Node
  | [] => .empty
  | [n] => n
  | n :: ns => .seq n (ofList ns)

def ofAlternatives : List Node → Node
  | [] => .empty
  | [n] => n
  | n :: ns => .alt n (ofAlternatives ns)

/-- The atom that a node is, up to groups that capture nothing and set no flag. -/
def asAtom? : Node → Option Atom
  | .atom a => some a
  | .scoped [] [] body => body.asAtom?
  | _ => none

def repeated (greed : Greed) (lo : Nat) (hi : Option Nat) (n : Node) : Node :=
  match n.asAtom? with
  | some a => .repeatAtom greed lo hi a
  | none => .loop greed lo hi n

def repeats : Node → Bool
  | .repeatAtom .. | .loop .. => true
  | .seq a b | .alt a b | .conditional _ a b => a.repeats || b.repeats
  | .group _ body | .scoped _ _ body | .atomic body => body.repeats
  | .lookahead _ body | .lookbehind _ _ body => body.repeats
  | .empty | .atom _ | .anchor _ | .backreference _ => false

end Node

structure Pattern where
  root : Node
  options : Options
  groups : Nat
deriving Repr

end Regex
end StepAtlas
