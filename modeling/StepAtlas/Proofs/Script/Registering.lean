import Mathlib.Data.List.ReduceOption
import StepAtlas.Proofs.Matching
import StepAtlas.Proofs.Script.Oversized

/-
The calls that register something.  Whether a node does is a matter of the nodes just below it: its
callee, which has a name or a property with a name, and the first of its arguments, signs and
comments aside, which has to be a literal.  A tree is walked node by node, and the definitions are
those of its registering calls, unless a literal of one of them cannot be decoded.
-/

namespace StepAtlas

theorem map_eq_ok_iff {α β : Type} {f : α → β} {x : Except Fault α} {b : β} :
    f <$> x = .ok b ↔ ∃ a, x = .ok a ∧ f a = b := by
  cases x with
  | error fault => simp [Functor.map, Except.map]
  | ok a => simp [Functor.map, Except.map]

theorem filterMapM_eq_ok_iff {α β : Type} {f : α → Except Fault (Option β)} {xs : List α}
    {ys : List β} :
    xs.filterMapM f = .ok ys ↔ ∃ vs, List.Forall₂ (fun x v => f x = .ok v) xs vs ∧
      ys = vs.reduceOption := by
  induction xs generalizing ys with
  | nil =>
    rw [List.filterMapM_nil, pure_eq_ok_iff]
    simp [eq_comm]
  | cons x xs ih =>
    rw [List.filterMapM_cons, bind_eq_ok_iff]
    constructor
    · rintro ⟨v, hv, h⟩
      cases v with
      | none =>
        obtain ⟨vs, hvs, rfl⟩ := ih.mp h
        exact ⟨none :: vs, .cons hv hvs, by rw [List.reduceOption_cons_of_none]⟩
      | some y =>
        obtain ⟨ys', hys, h⟩ := bind_eq_ok_iff.mp h
        obtain ⟨vs, hvs, rfl⟩ := ih.mp hys
        obtain rfl := pure_eq_ok_iff.mp h
        exact ⟨some y :: vs, .cons hv hvs, by rw [List.reduceOption_cons_of_some]⟩
    · rintro ⟨_, hall, rfl⟩
      obtain ⟨v, vs, hv, hvs, rfl⟩ := List.forall₂_cons_left_iff.mp hall
      refine ⟨v, hv, ?_⟩
      cases v with
      | none => exact ih.mpr ⟨vs, hvs, by rw [List.reduceOption_cons_of_none]⟩
      | some y =>
        refine bind_eq_ok_iff.mpr ⟨vs.reduceOption, ih.mpr ⟨vs, hvs, rfl⟩, ?_⟩
        rw [pure_eq_ok_iff, List.reduceOption_cons_of_some]

theorem exists_filterMapM_iff {α β : Type} {f : α → Except Fault (Option β)} {xs : List α} :
    (∃ ys, xs.filterMapM f = .ok ys) ↔ ∀ x ∈ xs, ∃ v, f x = .ok v := by
  simp only [filterMapM_eq_ok_iff]
  induction xs with
  | nil => simp
  | cons x xs ih =>
    rw [List.forall_mem_cons, ← ih]
    constructor
    · rintro ⟨_, _, hall, rfl⟩
      obtain ⟨v, vs, hv, hvs, rfl⟩ := List.forall₂_cons_left_iff.mp hall
      exact ⟨⟨v, hv⟩, _, vs, hvs, rfl⟩
    · rintro ⟨⟨v, hv⟩, _, vs, hvs, rfl⟩
      exact ⟨_, v :: vs, .cons hv hvs, rfl⟩

theorem exists_of_filterMapM_eq_error {α β : Type} {f : α → Except Fault (Option β)} {xs : List α}
    {fault : Fault} (h : xs.filterMapM f = .error fault) : ∃ x ∈ xs, f x = .error fault := by
  induction xs with
  | nil => cases h
  | cons x xs ih =>
    rw [List.filterMapM_cons] at h
    cases hx : f x with
    | error e =>
      rw [hx] at h
      cases h
      exact ⟨x, List.mem_cons_self, hx⟩
    | ok v =>
      have hrest : xs.filterMapM f = .error fault := by
        rw [hx] at h
        cases v with
        | none => exact h
        | some y =>
          cases hxs : xs.filterMapM f with
          | error e =>
            rw [hxs] at h
            exact h
          | ok ys =>
            rw [hxs] at h
            cases h
      obtain ⟨z, hz, hfz⟩ := ih hrest
      exact ⟨z, List.mem_cons_of_mem x hz, hfz⟩

namespace Script

/-! ## Nodes -/

namespace Tree

theorem inductionOn {motive : Tree → Prop} (t : Tree)
    (node : ∀ l s ps, (∀ p ∈ ps, motive p) → motive (.node l s ps)) : motive t :=
  match t with
  | .node l s ps => node l s ps fun p _ => inductionOn p node

/-- The walk with a stack lists the nodes in preorder. -/
theorem walkFrom_eq (stack : List Tree) : walkFrom stack = preorderAll stack := by
  fun_induction walkFrom stack with
  | case1 => rfl
  | case2 l s ps stack ih => rw [ih, preorderAll_append, preorderAll, preorder, List.cons_append]

theorem preorderAll_eq_flatMap (ts : List Tree) : preorderAll ts = ts.flatMap preorder := by
  induction ts with
  | nil => rfl
  | cons t ts ih => rw [preorderAll, ih, List.flatMap_cons]

theorem walk_eq (t : Tree) : t.walk = t.preorder := by
  rw [walk, walkFrom_eq, preorderAll, preorderAll, List.append_nil]

theorem preorder_eq (t : Tree) : t.preorder = t :: t.parts.flatMap preorder := by
  cases t with
  | node l s ps => rw [preorder, preorderAll_eq_flatMap, parts]

end Tree

/-! ## Registering calls -/

namespace Tree

/-- The first of some nodes that has a property. -/
def FirstOf (P : Tree → Prop) (ts : List Tree) (a : Tree) : Prop :=
  ∃ before rest, ts = before ++ a :: rest ∧ P a ∧ ∀ b ∈ before, ¬ P b

/-- What a call may be made by: a bare name, or a property with a name. -/
inductive Names : Tree → Text → Prop
  | identifier {t : Tree} (h : t.kind = .identifier) : Names t t.text
  | member {t p : Tree} (h : t.kind = .member) (hp : t.child? .property = some p)
      (hname : p.kind = .property) : Names t p.text

/-- Neither a sign nor a comment. -/
def IsArgument (a : Tree) : Prop := a.kind ≠ .sign ∧ a.kind ≠ .comment

/-- A call that hands something to a registering function: the function, its keyword, and the first
argument. -/
inductive Hands (functions : Registry) (c : Tree) : Text → DefinitionKeyword → Tree → Prop
  | call {f : Text} {k : DefinitionKeyword} {callee arguments a : Tree} (hcall : c.kind = .call)
      (hfunction : c.child? .function = some callee) (hname : callee.Names f)
      (hf : functions.lookup f = some k) (harguments : c.child? .arguments = some arguments)
      (hkind : arguments.kind = .arguments) (hfirst : FirstOf IsArgument arguments.parts a) :
      Hands functions c f k a

/-- The raw text of a string, or of a template in which nothing is substituted. -/
inductive Quotes : Tree → Text → Prop
  | string {t : Tree} (h : t.kind = .string) : Quotes t t.unquoted
  | template {t : Tree} (h : t.kind = .template) (hparts : ∀ p ∈ t.parts, p.kind ≠ .substitution) :
      Quotes t t.unquoted

/-- What a literal stands for: a pattern with its kind and its flags. -/
inductive Stands : Tree → Text → PatternKind → Option Text → Prop
  | quoted {t : Tree} {raw pattern : Text} (hraw : t.Quotes raw) (h : unescape raw = .ok pattern) :
      Stands t pattern .expression none
  | regex {t : Tree} (h : t.kind = .regex) :
      Stands t (((t.child? .pattern).map text).getD []) .regex
        (((t.child? .flags).map text).filter (· ≠ []))

/-- A string, a template in which nothing is substituted, or a regular expression. -/
def IsLiteral (t : Tree) : Prop := (∃ raw, t.Quotes raw) ∨ t.kind = .regex

/-- A call of a registering function with a literal as its first argument. -/
def Registering (functions : Registry) (c : Tree) : Prop :=
  ∃ f k a, Hands functions c f k a ∧ a.IsLiteral

def Registers (functions : Registry) (source : Path) (c : Tree) (d : Definition) : Prop :=
  ∃ a, Hands functions c d.function d.keyword a ∧ a.Stands d.pattern d.kind d.flags ∧
    d.source = source ∧ d.span = c.span

variable {functions : Registry} {source : Path} {c a : Tree} {f : Text} {k : DefinitionKeyword}

theorem Stands.isLiteral {t : Tree} {pattern : Text} {kind : PatternKind} {flags : Option Text}
    (h : t.Stands pattern kind flags) : t.IsLiteral := by
  cases h with
  | quoted hraw => exact .inl ⟨_, hraw⟩
  | regex hregex => exact .inr hregex

theorem Registers.registering {d : Definition} (h : Registers functions source c d) :
    Registering functions c := by
  obtain ⟨a, hhands, hstands, -⟩ := h
  exact ⟨_, _, a, hhands, hstands.isLiteral⟩

theorem find?_eq_some_iff {P : Tree → Prop} [DecidablePred P] {ts : List Tree} :
    ts.find? (fun t => P t) = some a ↔ FirstOf P ts a := by
  rw [List.find?_eq_some_iff_append]
  constructor
  · rintro ⟨ha, before, rest, rfl, hbefore⟩
    exact ⟨before, rest, rfl, by simpa using ha, by simpa using hbefore⟩
  · rintro ⟨before, rest, rfl, ha, hbefore⟩
    exact ⟨by simpa using ha, before, rest, rfl, by simpa using hbefore⟩

theorem calleeName?_eq_some_iff {t : Tree} : t.calleeName? = some f ↔ t.Names f := by
  constructor
  · intro h
    rw [calleeName?] at h
    split at h
    · next hkind =>
      cases h
      exact .identifier hkind
    · next hkind =>
      obtain ⟨p, hp, rfl⟩ := Option.map_eq_some_iff.mp h
      obtain ⟨hchild, hname⟩ := Option.filter_eq_some_iff.mp hp
      exact .member hkind hchild (by simpa using hname)
    · cases h
  · rintro (hkind | ⟨hkind, hp, hname⟩)
    · rw [calleeName?, hkind]
    · simp [calleeName?, hkind, hp, hname]

theorem firstArgument?_eq_some_iff {t : Tree} :
    t.firstArgument? = some a ↔ t.kind = .arguments ∧ FirstOf IsArgument t.parts a := by
  have hfind : t.parts.find? (fun a => a.kind ≠ .sign && a.kind ≠ .comment) =
      t.parts.find? fun a => a.kind ≠ .sign ∧ a.kind ≠ .comment := by
    simp only [Bool.decide_and, ne_eq]
  rw [firstArgument?]
  split
  · next hkind =>
    rw [hfind, find?_eq_some_iff]
    exact ⟨fun h => ⟨hkind, h⟩, fun h => h.2⟩
  · next hkind => exact ⟨nofun, fun h => absurd h.1 hkind⟩

theorem registration?_eq_some_iff :
    c.registration? functions = some (f, k, a) ↔ Hands functions c f k a := by
  constructor
  · intro h
    rw [registration?] at h
    split at h
    · next hcall =>
      obtain ⟨_, hname, h⟩ := Option.bind_eq_some_iff.mp h
      obtain ⟨_, hf, h⟩ := Option.bind_eq_some_iff.mp h
      obtain ⟨_, hfirst, h⟩ := Option.bind_eq_some_iff.mp h
      obtain ⟨callee, hfunction, hname⟩ := Option.bind_eq_some_iff.mp hname
      obtain ⟨arguments, harguments, hfirst⟩ := Option.bind_eq_some_iff.mp hfirst
      obtain ⟨hkind, hfirst⟩ := firstArgument?_eq_some_iff.mp hfirst
      cases h
      exact .call hcall hfunction (calleeName?_eq_some_iff.mp hname) hf harguments hkind hfirst
    · cases h
  · rintro ⟨hcall, hfunction, hname, hf, harguments, hkind, hfirst⟩
    have hname' := calleeName?_eq_some_iff.mpr hname
    have hfirst' := firstArgument?_eq_some_iff.mpr ⟨hkind, hfirst⟩
    simp [registration?, hcall, hfunction, hname', hf, harguments, hfirst']

theorem raw?_eq_some_iff {raw : Text} : a.raw? = some raw ↔ a.Quotes raw := by
  constructor
  · intro h
    rw [raw?] at h
    split at h
    · next hkind =>
      cases h
      exact .string hkind
    · next hkind =>
      split at h
      · cases h
      · next hparts =>
        cases h
        exact .template hkind (by simpa using hparts)
    · cases h
  · rintro (hkind | ⟨hkind, hparts⟩)
    · rw [raw?, hkind]
    · simpa [raw?, hkind] using hparts

theorem pattern?_of_quotes {raw : Text} (h : a.Quotes raw) :
    a.pattern? = (fun t => some (t, .expression, none)) <$> unescape raw := by
  rw [pattern?, raw?_eq_some_iff.mpr h]
  dsimp only
  cases unescape raw <;> rfl

/-! ## What a call registers -/

theorem definition?_of_not_hands (h : ∀ f k a, ¬ Hands functions c f k a) :
    c.definition? functions source = .ok none := by
  have hnone : c.registration? functions = none := by
    refine Option.eq_none_iff_forall_not_mem.mpr fun (f, k, a) ha => h f k a ?_
    exact registration?_eq_some_iff.mp ha
  rw [definition?, hnone]

/-- A node that is no call registers nothing. -/
theorem definition?_of_ne (h : c.kind ≠ .call) : c.definition? functions source = .ok none :=
  definition?_of_not_hands fun _ _ _ ⟨hcall, _, _, _, _, _, _⟩ => h hcall

/-- The definition of a call at a place, whose first argument stands for a pattern. -/
def definitionOf (f : Text) (k : DefinitionKeyword) (source : Path) (span : Span)
    (pattern : Text × PatternKind × Option Text) : Definition :=
  { pattern := pattern.1, kind := pattern.2.1, keyword := k, source, span, function := f
    flags := pattern.2.2 }

theorem definition?_of_hands (h : Hands functions c f k a) :
    c.definition? functions source = Option.map (definitionOf f k source c.span) <$>
      a.pattern? := by
  rw [definition?, registration?_eq_some_iff.mpr h]
  dsimp only
  cases a.pattern? with
  | error fault => rfl
  | ok pattern => cases pattern <;> rfl

theorem Hands.argument_eq {f' : Text} {k' : DefinitionKeyword} {a' : Tree}
    (h : Hands functions c f k a) (h' : Hands functions c f' k' a') : a = a' := by
  cases (registration?_eq_some_iff.mpr h).symm.trans (registration?_eq_some_iff.mpr h')
  rfl

/-- An argument is no literal, or it stands for a pattern, or it cannot be decoded. -/
theorem pattern?_cases (a : Tree) :
    ¬ a.IsLiteral ∧ a.pattern? = .ok none ∨
      (∃ pattern kind flags, a.Stands pattern kind flags ∧
        a.pattern? = .ok (some (pattern, kind, flags))) ∨
      (∃ raw, a.Quotes raw ∧ Oversized raw) ∧ a.pattern? = .error .codePointTooLarge := by
  cases hraw : a.raw? with
  | some raw =>
    have hquotes := raw?_eq_some_iff.mp hraw
    by_cases hbig : Oversized raw
    · refine .inr (.inr ⟨⟨raw, hquotes, hbig⟩, ?_⟩)
      rw [pattern?_of_quotes hquotes, unescape_of_oversized hbig]
      rfl
    · obtain ⟨t, ht⟩ := exists_unescape_iff.mpr hbig
      refine .inr (.inl ⟨t, .expression, none, .quoted hquotes ht, ?_⟩)
      rw [pattern?_of_quotes hquotes, ht]
      rfl
  | none =>
    have hno : ∀ raw, ¬ a.Quotes raw := by
      intro raw hquotes
      rw [raw?_eq_some_iff.mpr hquotes] at hraw
      cases hraw
    by_cases hregex : a.kind = .regex
    · refine .inr (.inl ⟨_, _, _, .regex hregex, ?_⟩)
      rw [pattern?, hraw, hregex]
    · refine .inl ⟨?_, ?_⟩
      · rintro (⟨raw, hquotes⟩ | h)
        · exact hno raw hquotes
        · exact hregex h
      · rw [pattern?, hraw]
        split
        · next h => cases h
        · next h => exact absurd h hregex
        · rfl

/-- A node registers nothing, or it registers a definition, or its literal cannot be decoded. -/
theorem definition?_cases (functions : Registry) (source : Path) (c : Tree) :
    ¬ Registering functions c ∧ c.definition? functions source = .ok none ∨
      (∃ d, Registers functions source c d ∧ c.definition? functions source = .ok (some d)) ∨
      (∃ f k a raw, Hands functions c f k a ∧ a.Quotes raw ∧ Oversized raw) ∧
        c.definition? functions source = .error .codePointTooLarge := by
  by_cases hhands : ∃ f k a, Hands functions c f k a
  · obtain ⟨f, k, a, h⟩ := hhands
    rw [definition?_of_hands h]
    obtain ⟨hno, hp⟩ | ⟨pattern, kind, flags, hstands, hp⟩ | ⟨⟨raw, hquotes, hbig⟩, hp⟩ :=
      pattern?_cases a
    · refine .inl ⟨fun ⟨_, _, a', h', hliteral⟩ => hno ?_, by rw [hp]; rfl⟩
      rwa [h.argument_eq h']
    · refine .inr
        (.inl ⟨definitionOf f k source c.span (pattern, kind, flags), ?_, by rw [hp]; rfl⟩)
      exact ⟨a, h, hstands, rfl, rfl⟩
    · exact .inr (.inr ⟨⟨f, k, a, raw, h, hquotes, hbig⟩, by rw [hp]; rfl⟩)
  · simp only [not_exists] at hhands
    exact .inl ⟨fun ⟨f, k, a, h, _⟩ => hhands f k a h, definition?_of_not_hands hhands⟩

/-! ## What a tree registers -/

/-- The literals of all registering calls can be decoded. -/
def Legible (functions : Registry) (t : Tree) : Prop :=
  ∀ c ∈ t.preorder, ∀ f k a raw, Hands functions c f k a → a.Quotes raw → ¬ Oversized raw

theorem exists_definition?_iff :
    (∃ v, c.definition? functions source = .ok v) ↔
      ∀ f k a raw, Hands functions c f k a → a.Quotes raw → ¬ Oversized raw := by
  constructor
  · rintro ⟨v, hv⟩ f k a raw h hquotes hbig
    rw [definition?_of_hands h, pattern?_of_quotes hquotes, unescape_of_oversized hbig] at hv
    cases hv
  · intro hsmall
    obtain ⟨-, h⟩ | ⟨d, -, h⟩ | ⟨⟨f, k, a, raw, hhands, hquotes, hbig⟩, -⟩ :=
      definition?_cases functions source c
    · exact ⟨_, h⟩
    · exact ⟨_, h⟩
    · exact absurd hbig (hsmall f k a raw hhands hquotes)

variable {t : Tree} {ds : List Definition}

theorem exists_definitions_iff :
    (∃ ds, t.definitions functions source = .ok ds) ↔ t.Legible functions := by
  rw [definitions, walk_eq, exists_filterMapM_iff]
  exact forall₂_congr fun c _ => exists_definition?_iff

theorem definitions_of_not_legible (h : ¬ t.Legible functions) :
    t.definitions functions source = .error .codePointTooLarge := by
  cases hdefinitions : t.definitions functions source with
  | ok ds => exact absurd (exists_definitions_iff.mp ⟨ds, hdefinitions⟩) h
  | error fault =>
    obtain ⟨c, -, hc⟩ := exists_of_filterMapM_eq_error hdefinitions
    obtain ⟨-, h⟩ | ⟨d, -, h⟩ | ⟨-, h⟩ := definition?_cases functions source c
    all_goals
      rw [h] at hc
      cases hc
    rfl

instance (t : Tree) : Decidable t.IsLiteral :=
  decidable_of_iff (t.raw?.isSome ∨ t.kind = .regex) (by
    rw [Option.isSome_iff_exists, IsLiteral]
    simp only [raw?_eq_some_iff])

instance (functions : Registry) : DecidablePred (Registering functions) := fun c =>
  decidable_of_iff ((c.registration? functions).any fun x => x.2.2.IsLiteral) (by
    rw [Option.any_eq_true]
    constructor
    · rintro ⟨⟨f, k, a⟩, ha, hliteral⟩
      exact ⟨f, k, a, registration?_eq_some_iff.mp ha, by simpa using hliteral⟩
    · rintro ⟨f, k, a, h, hliteral⟩
      exact ⟨_, registration?_eq_some_iff.mpr h, by simpa using hliteral⟩)

/-- The definitions are those of the registering calls, one of each, in the order of the walk. -/
theorem forall₂_registers (h : t.definitions functions source = .ok ds) :
    List.Forall₂ (Registers functions source) (t.preorder.filter (Registering functions)) ds := by
  rw [definitions, walk_eq, filterMapM_eq_ok_iff] at h
  obtain ⟨vs, hvs, rfl⟩ := h
  generalize t.preorder = cs at hvs ⊢
  induction hvs with
  | nil => exact .nil
  | @cons c v cs vs hv _ ih =>
    obtain ⟨hnot, h⟩ | ⟨d, hd, h⟩ | ⟨-, h⟩ := definition?_cases functions source c
    all_goals
      rw [h] at hv
      cases hv
    · rw [List.filter_cons_of_neg (by simpa using hnot), List.reduceOption_cons_of_none]
      exact ih
    · rw [List.filter_cons_of_pos (by simpa using hd.registering), List.reduceOption_cons_of_some]
      exact .cons hd ih

/-! ## Two registrations on a line -/

/-- The tree of `f('raw')` at a column of the first line. -/
def callAt (column : Nat) (f raw : Text) : Tree :=
  let opened := column + f.length
  let closed := opened + raw.length + 3
  .node { kind := .call } ⟨0, column, 0, closed + 1⟩
    [.node { kind := .identifier, role := some .function, text := f } ⟨0, column, 0, opened⟩ [],
      .node { kind := .arguments, role := some .arguments } ⟨0, opened, 0, closed + 1⟩
        [.node { kind := .sign } ⟨0, opened, 0, opened + 1⟩ [],
          .node { kind := .string, text := "'" ++ raw ++ "'" } ⟨0, opened + 1, 0, closed⟩ [],
          .node { kind := .sign } ⟨0, closed, 0, closed + 1⟩ []]]

/-- The tree of `Given('b'); When('a');` with another raw text for the first literal. -/
def twoWith (raw : Text) : Tree :=
  .node { kind := .other } ⟨0, 0, 0, raw.length + 21⟩
    [callAt 0 "Given" raw, callAt (raw.length + 11) "When" "a"]

end Tree
end Script
end StepAtlas
