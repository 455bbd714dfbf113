import Mathlib.Algebra.GroupWithZero.Nat
import StepAtlas.Pattern.Compile
import StepAtlas.Proofs.Pattern.Source
import StepAtlas.Proofs.Regex.Reading

/-
The pattern that an expression is compiled into.  Every expression compiles: its translation spells
one item for each token, between a line start and a line end.
-/

namespace StepAtlas
namespace Expression

open Regex Regex.Reader

/-! ## Rules -/

def digits : Node := .repeatAtom .greedy 1 none (.set false [.category .digit false])

def sign : Node := .repeatAtom .greedy 0 (some 1) (.literal '-'.toNat)

def nonBlanks : Node := .repeatAtom .greedy 1 none (.set false [.category .space true])

/-- What stands between two equal quotes, caught without them. -/
def quotedText (quote : Char) (group : Nat) : Node :=
  .seq (.atom (.literal quote.toNat))
    (.seq (.group group (.repeatAtom .greedy 0 none (.notLiteral quote.toNat)))
      (.atom (.literal quote.toNat)))

def Placeholder.node (group : Nat) : Placeholder → Node
  | .int => .group group (.seq sign digits)
  | .float =>
    .group group (.seq sign (.seq digits
      (.loop .greedy 0 (some 1) (.scoped [] [] (.seq (.atom (.literal '.'.toNat)) digits)))))
  | .word => .group group nonBlanks
  | .string =>
    .scoped [] []
      (.alt (quotedText '"' group)
        (.alt (quotedText '\'' (group + 1)) (.group (group + 2) nonBlanks)))
  | .anything => .group group (.repeatAtom .greedy 1 none .any)

section Rules

open CodePoint (scalar)

variable {g : Nat}

theorem spells_digits : SpellsItem g ([scalar '\\', scalar 'd'] ++ [scalar '+']) digits g :=
  SpellsItem.repeated (.category rfl) rfl rfl

theorem spells_sign : SpellsItem g ([scalar '-'] ++ [scalar '?']) sign g :=
  SpellsItem.repeated (.literal rfl) rfl rfl

theorem spells_nonBlanks : SpellsItem g ([scalar '\\', scalar 'S'] ++ [scalar '+']) nonBlanks g :=
  SpellsItem.repeated (.category rfl) rfl rfl

theorem spells_word : SpellsItem g "(\\S+)" (.group g nonBlanks) (g + 1) :=
  SpellsItem.capture (.last (.cons spells_nonBlanks .nil))

theorem spells_fraction :
    SpellsItem g "(?:\\.\\d+)?"
      (.loop .greedy 0 (some 1) (.scoped [] [] (.seq (.atom (.literal '.'.toNat)) digits))) g :=
  SpellsItem.repeated (.plain (.last (.cons (.escape rfl) (.cons spells_digits .nil)))) rfl rfl

theorem spells_quotedText {quote : Char}
    (hquote : (CodePoint.scalar quote).test signs.contains = false) :
    SpellsItems g
      ([scalar quote] ++
        (scalar '(' :: (([scalar '[', scalar '^', scalar quote, scalar ']'] ++ [scalar '*'] ++
          []) ++ [scalar ')']) ++ ([scalar quote] ++ [])))
      [.atom (.literal quote.toNat),
        .group g (.repeatAtom .greedy 0 none (.notLiteral quote.toNat)),
        .atom (.literal quote.toNat)] (g + 1) :=
  .cons (.literal hquote) (.cons (.capture (.last (.cons
    (.repeated (.notLiteral (ne_of_test hquote (by decide))) rfl rfl) .nil)))
      (.cons (.literal hquote) .nil))

theorem Placeholder.spells (h : Placeholder) : SpellsItem g h.source (h.node g) (g + h.groups) := by
  cases h with
  | int => exact SpellsItem.capture (.last (.cons spells_sign (.cons spells_digits .nil)))
  | float =>
    exact SpellsItem.capture
      (.last (.cons spells_sign (.cons spells_digits (.cons spells_fraction .nil))))
  | word => exact spells_word
  | string =>
    exact SpellsItem.plain
      (.more (spells_quotedText (by decide)) (.more (spells_quotedText (by decide))
        (.last (.cons spells_word .nil))))
  | anything => exact SpellsItem.capture (.last (.cons (.repeated .any rfl rfl) .nil))

end Rules

/-! ## Expressions -/

def Token.node (group : Nat) : Token → Node
  | .literal p => .atom (.literal p.toNat)
  | .hole h => h.node group

def Token.groups : Token → Nat
  | .literal _ => 0
  | .hole h => h.groups

def nodesFrom (group : Nat) : List Token → List Node
  | [] => []
  | tok :: ts => tok.node group :: nodesFrom (group + tok.groups) ts

theorem Token.spells {g : Nat} (tok : Token) :
    SpellsItem g tok.source (tok.node g) (g + tok.groups) := by
  cases tok with
  | hole h => exact h.spells
  | literal p =>
    rcases escaped_singleton p with ⟨hp, hp'⟩ | ⟨hp, hp'⟩
    · have hsigns : signs.all special.contains = true := by decide
      have hplain : p.test signs.contains = false := by
        cases p with
        | surrogate k => rfl
        | scalar c =>
          rw [CodePoint.test, Bool.eq_false_iff, ne_eq, List.contains_iff_mem] at hp' ⊢
          exact fun hc => hp' (List.contains_iff_mem.mp (List.all_eq_true.mp hsigns c hc))
      rw [Token.source, hp]
      exact .literal hplain
    · cases p with
      | surrogate k => exact absurd hp' Bool.false_ne_true
      | scalar c =>
        have hspecial : special.all (fun c => !c.isAlphanum) = true := by decide
        rw [CodePoint.test, List.contains_iff_mem] at hp'
        rw [Token.source, hp]
        exact .escape (Bool.not_eq_true' _ |>.mp (List.all_eq_true.mp hspecial c hp'))

theorem spells_tokens (ts : List Token) (g : Nat) :
    SpellsItems g (ts.flatMap Token.source ++ "$") (nodesFrom g ts ++ [.anchor .lineEnd])
      (g + (ts.map Token.groups).sum) := by
  induction ts generalizing g with
  | nil => exact SpellsItems.cons (t := "$") .lineEnd .nil
  | cons tok ts ih =>
    have h := SpellsItems.cons tok.spells (ih (g + tok.groups))
    rw [List.flatMap_cons, List.append_assoc, List.map_cons, List.sum_cons, ← Nat.add_assoc]
    exact h

def pattern (e : Text) : Pattern where
  root := Node.ofList (.anchor .lineStart :: (nodesFrom 1 (tokens e) ++ [.anchor .lineEnd]))
  options := { ascii := true }
  groups := ((tokens e).map Token.groups).sum

theorem complaint?_ofList {ns : List Node} (h : ∀ n ∈ ns, n.complaint? false = none) :
    (Node.ofList ns).complaint? false = none := by
  match ns, h with
  | [], _ => rfl
  | [n], h => exact h n (List.mem_singleton_self n)
  | n :: m :: ns, h =>
    have hrest := complaint?_ofList (fun k hk => h k (List.mem_cons_of_mem n hk))
    rw [Node.ofList, Node.complaint?, h n List.mem_cons_self, hrest]
    · rfl
    · nofun

theorem Token.complaint?_node (tok : Token) (g : Nat) : (tok.node g).complaint? false = none := by
  rcases tok with p | h
  · rfl
  · cases h <;> rfl

theorem complaint?_nodesFrom (ts : List Token) (g : Nat) :
    ∀ n ∈ nodesFrom g ts, n.complaint? false = none := by
  induction ts generalizing g with
  | nil => exact fun n hn => absurd hn List.not_mem_nil
  | cons tok ts ih =>
    intro n hn
    rcases List.mem_cons.mp hn with rfl | hn
    · exact tok.complaint?_node g
    · exact ih (g + tok.groups) n hn

theorem parse_source (named? : String → Option Char) (e : Text) :
    Pattern.parse named? (source e) [.ascii] = .ok (pattern e) := by
  have hspells : SpellsChoices 1 (source e) [(pattern e).root] (1 + (pattern e).groups) := by
    rw [source_eq, List.append_assoc]
    exact .last (.cons .lineStart (spells_tokens (tokens e) 1))
  have hcomplaint : (pattern e).root.complaint? false = none := by
    refine complaint?_ofList fun n hn => ?_
    rcases List.mem_cons.mp hn with rfl | hn
    · rfl
    · rcases List.mem_append.mp hn with hn | hn
      · exact complaint?_nodesFrom _ _ n hn
      · rw [List.mem_singleton.mp hn]
        rfl
  have hparse := Pattern.parse_eq hspells named? [.ascii] (by decide) (by decide) hcomplaint
  rw [Nat.add_sub_cancel_left] at hparse
  exact hparse

theorem compile_eq (m : Machine) (e : Text) : compile m e = .ok (some (pattern e)) := by
  rw [compile, Pattern.compile, m.compiles_expressions e, parse_source]
  rfl

end Expression
end StepAtlas
