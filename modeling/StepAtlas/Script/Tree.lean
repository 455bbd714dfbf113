import StepAtlas.Definition

/-
Syntax trees of scripts.  A node has a label, the stretch of the script it covers and its parts in
order.  Only what decides about registrations has a kind of its own; everything else is `other`,
there for its parts.
-/

namespace StepAtlas
namespace Script

inductive Kind where
  | call
  | arguments
  /-- A bare name. -/
  | identifier
  /-- A property of something, reached by a dot. -/
  | member
  /-- The name of a property. -/
  | property
  | string
  | template
  /-- An expression in a template. -/
  | substitution
  | regex
  | comment
  /-- A parenthesis or a comma of a call. -/
  | sign
  | other
deriving DecidableEq, Repr

/-- What a node is to the node that it is a part of. -/
inductive Role where
  | function | arguments | property | pattern | flags
deriving DecidableEq, Repr

structure Label where
  kind : Kind
  role : Option Role := none
  /-- How a name or a string is written, its quotes included, and so the body and the flags of a
  regular expression. -/
  text : Text := []
deriving DecidableEq, Repr

inductive Tree where
  | node (label : Label) (span : Span) (parts : List Tree)
deriving Repr

namespace Tree

def label : Tree → Label
  | .node l _ _ => l

def span : Tree → Span
  | .node _ s _ => s

def parts : Tree → List Tree
  | .node _ _ ps => ps

def kind (t : Tree) : Kind := t.label.kind

def text (t : Tree) : Text := t.label.text

def inRole (role : Role) : Tree → Tree
  | .node l s ps => .node { l with role := some role } s ps

/-- The part that is something to a node; the first one if there are several. -/
def child? (role : Role) (t : Tree) : Option Tree := t.parts.find? (·.label.role = some role)

mutual

/-- The nodes of a tree, each before its parts and the parts from left to right. -/
def preorder : Tree → List Tree
  | .node l s ps => .node l s ps :: preorderAll ps

def preorderAll : List Tree → List Tree
  | [] => []
  | t :: ts => preorder t ++ preorderAll ts

end

mutual

def size : Tree → Nat
  | .node _ _ ps => sizeAll ps + 1

def sizeAll : List Tree → Nat
  | [] => 0
  | t :: ts => size t + sizeAll ts

end

theorem sizeAll_append (ts us : List Tree) : sizeAll (ts ++ us) = sizeAll ts + sizeAll us := by
  induction ts with
  | nil => simp [sizeAll]
  | cons t ts ih => simp only [List.cons_append, sizeAll, ih]; omega

theorem preorderAll_append (ts us : List Tree) :
    preorderAll (ts ++ us) = preorderAll ts ++ preorderAll us := by
  induction ts with
  | nil => simp [preorderAll]
  | cons t ts ih => simp [preorderAll, ih]

/-- The nodes still to be listed are kept on a stack, the next one on top; listing a node puts its
parts on the stack in its place. -/
def walkFrom : (stack : List Tree) → List Tree
  | [] => []
  | .node l s ps :: stack => .node l s ps :: walkFrom (ps ++ stack)
termination_by stack => sizeAll stack
decreasing_by
  simp only [sizeAll_append, sizeAll, size]; omega

/-- The nodes of a tree in the order of a walk with a stack, which needs no deep recursion. -/
def walk (t : Tree) : List Tree := walkFrom [t]

end Tree
end Script
end StepAtlas
