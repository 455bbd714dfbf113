import StepAtlas.Proofs.Script.Layout
import StepAtlas.Proofs.Script.Reading

/-
Reading a registration.  The grammar is followed rule by rule, from the arguments of the call up to
the statement.  Most of a rule's tests fail, and it is enough to know why: what stands at the cursor
is a quote or a name that is no reserved word.  Nothing here depends on the dialect.
-/

namespace StepAtlas
namespace Script

/-- The name of a registering function starts with a letter. -/
theorem Registrar.exists_cons (f : Registrar) :
    ∃ x t, f.name.toList = x :: t ∧ x.isAlpha = true ∧ isNameStart x = true := by
  cases f <;> exact ⟨_, _, rfl, rfl, by rw [isNameStart, isNamePart_eq]; decide⟩

theorem Place.afterAll_argumentsOf (body : List Char) (p : Place) : p.afterAll (argumentsOf body) =
    ((((p.after '(').afterAll (quoted body)).afterAll [',', ' ']).afterAll emptyFunction).after
      ')' := by
  rw [show argumentsOf body = ['('] ++ (quoted body ++ ([',', ' '] ++ (emptyFunction ++ [')'])))
    from rfl]
  simp only [Place.afterAll_append]
  rfl

def signNode (c : Char) (p : Place) : Tree := .node { kind := .sign } (p.to (p.after c)) []

def stringNode (body : List Char) (p : Place) : Tree :=
  .node { kind := .string, text := .ofChars (quoted body) } (p.to (p.afterAll (quoted body))) []

def functionNode (p : Place) : Tree := .node { kind := .other } (p.to (p.afterAll emptyFunction)) []

def nameNode (f : Registrar) (p : Place) : Tree :=
  .node { kind := .identifier, text := .ofChars f.name.toList } (p.to (p.afterAll f.name.toList)) []

def argumentNodes (body : List Char) (p : Place) : List Tree :=
  let first := p.after '('
  let comma := first.afterAll (quoted body)
  let second := comma.afterAll [',', ' ']
  [signNode '(' p, stringNode body first, signNode ',' comma, functionNode second,
    signNode ')' (second.afterAll emptyFunction)]

def argumentsNode (body : List Char) (p : Place) : Tree :=
  .node { kind := .arguments } (p.to (p.afterAll (argumentsOf body))) (argumentNodes body p)

def callNode (f : Registrar) (body : List Char) (p : Place) : Tree :=
  let opened := p.afterAll f.name.toList
  .node { kind := .call } (p.to (opened.afterAll (argumentsOf body)))
    [(nameNode f p).inRole .function, (argumentsNode body opened).inRole .arguments]

namespace Parser

/-- A reader takes some characters when they stand before a given one, whatever comes behind it. -/
def Takes {α : Type} (x : Parser α) (t : List Char) (next : Char) (found : Place → α) : Prop :=
  ∀ r p q b m,
    x.run ⟨t ++ next :: r, p, q, b, m⟩ =
      some (found p, ⟨next :: r, p.afterAll t, p.afterAll t, false, m⟩)

variable (d : Dialect) (self : Reading) (k : Nat)

/-! ## The empty function -/

section
variable (r : List Char) (p q : Place) (b m : Bool)

theorem run_target_paren : (target self).run ⟨')' :: r, p, q, b, m⟩ = none :=
  run_else rfl
    (run_else rfl (run_bind_none (run_name_of_none (run_peekName_of_sign (by decide) ..))))

theorem run_parameter_paren :
    (parameter d.hasTypes (decorators d.hasTypes self) self).run ⟨')' :: r, p, q, b, m⟩ = none := by
  have hdecorators : (decorators d.hasTypes self).run ⟨')' :: r, p, q, b, m⟩ =
      some ([], ⟨')' :: r, p, q, b, m⟩) := rfl
  have hwords : (atAnyWord parameterModifiers).run ⟨')' :: r, p, q, b, m⟩ =
      some (false, ⟨')' :: r, p, q, b, m⟩) :=
    run_atAnyWord_of_ne (run_peekName_of_sign (by decide) r p q b m) (by decide)
  refine run_bind hdecorators ?_
  cases d.hasTypes with
  | true =>
    refine run_bind (run_many_none (run_bind hwords rfl)) ?_
    exact run_bind rfl (run_bind_none (run_target_paren ..))
  | false => exact run_bind rfl (run_bind_none (run_target_paren ..))

theorem run_parameters_empty :
    (parameters d.hasTypes (decorators d.hasTypes self) self).run ⟨'(' :: ')' :: ' ' :: '=' :: r, p,
        q, b, m⟩ =
      some ([], ⟨'=' :: r, p.afterAll ['(', ')', ' '], p.afterAll ['(', ')'], false, m⟩) := by
  have hopen : (token "(").run ⟨'(' :: ')' :: ' ' :: '=' :: r, p, q, b, m⟩ =
      some ((), ⟨')' :: ' ' :: '=' :: r, p.after '(', p.after '(', false, m⟩) := rfl
  exact run_bind hopen (run_bind (run_many_none (run_bind_none (run_parameter_paren ..))) rfl)

end

theorem takes_arrowRest :
    Takes (arrowRest d.hasTypes (reading d (k + 1))) emptyFunction ')' fun _ => [] := by
  intro r p q b m
  refine run_then rfl (run_bind (run_parameters_empty d (reading d k) _ p q b m) ?_)
  cases d.hasTypes <;> rfl

theorem takes_emptyFunction : Takes (reading d (k + 2) .assignment) emptyFunction ')'
    fun p => [functionNode p] := by
  intro r p q b m
  have hasync : (word "async").run ⟨emptyFunction ++ ')' :: r, p, q, b, m⟩ = none :=
    run_word_of_ne (run_peekName_of_sign (by decide) ..) (by decide)
  exact run_left
    (run_bind rfl (run_bind (run_right (run_bind_none hasync) (takes_arrowRest d k r p q b m)) rfl))

/-! ## Behind an operand -/

section
variable {x : Char} (hx : x = ',' ∨ x = ';')
include hx

theorem run_suffix_none (start : Place) (t : Tree) (r p q b m) :
    (suffix d self start t).run ⟨x :: r, p, q, b, m⟩ = none := by
  rcases hx with rfl | rfl <;> cases d <;> rfl

theorem run_operation_none (r p q b m) : (operation d self).run ⟨x :: r, p, q, b, m⟩ = none := by
  have hquestion : (looking "?").run ⟨x :: r, p, q, b, m⟩ = some (false, ⟨x :: r, p, q, b, m⟩) := by
    rcases hx with rfl | rfl <;> rfl
  have hpeek : peekName.run ⟨x :: r, p, q, b, m⟩ = some ([], ⟨x :: r, p, q, b, m⟩) :=
    run_peekName_of_sign (by rcases hx with rfl | rfl <;> decide) ..
  have hoperator : peekOperator.run ⟨x :: r, p, q, b, m⟩ = some (none, ⟨x :: r, p, q, b, m⟩) := by
    rcases hx with rfl | rfl <;> rfl
  refine run_bind hquestion (run_bind rfl (run_else (run_atAnyWord_of_ne hpeek (by decide)) ?_))
  refine run_bind (run_atAnyWord_of_ne hpeek (by decide)) ?_
  cases d.hasTypes <;> exact run_bind hoperator rfl

end

theorem run_suffix_paren {start : Place} {t : Tree} {r p q b m} {v : Option (Tree × Cursor)}
    (h : (callOf self start t).run ⟨'(' :: r, p, q, b, m⟩ = v) :
    (suffix d self start t).run ⟨'(' :: r, p, q, b, m⟩ = v := by
  rw [← h]
  cases d <;> rfl

theorem run_suffixes_none {c : Cursor} {start : Place} {t : Tree}
    (h : (suffix d self start t).run c = none) (n : Nat) :
    (suffixes d self start n t).run c = some (t, c) := by
  cases n with
  | zero => rfl
  | succ n => exact run_bind (run_optional_none h) rfl

/-! ## Before an operand -/

/-- The words that mean something at the start of a statement or of an expression. -/
def reserved : List String :=
  ["function", "async", "class", "if", "for", "while", "with", "do", "switch", "try", "return",
    "throw", "break",
   "continue", "debugger", "import", "export", "var", "let", "const", "enum", "interface", "type",
     "abstract", "global",
   "declare", "namespace", "module", "typeof", "void", "delete", "await", "yield", "new", "this",
     "super", "null",
   "true", "false"]

/-- Whether a token starts neither with a letter nor with the quote. -/
def startsWithSign (s : String) : Bool := s.toList.head?.any fun y => y ≠ '\'' && !y.isAlpha

/-- An operand stands at the cursor that starts with the quote or with a letter, and with no
reserved word; `n` is the name there, empty if there is none. -/
structure Bare (n : List Char) (c : Cursor) : Prop where
  peek : peekName.run c = some (n, c)
  unreserved : ∀ s ∈ reserved, s.toList ≠ n
  head : c.rest.head?.any (fun y => y = '\'' || y.isAlpha) = true

namespace Bare
variable {n : List Char} {c : Cursor} {s : String} (h : Bare n c)
include h

theorem atWord (hs : s ∈ reserved) : (atWord s).run c = some (false, c) :=
  run_atWord_of_ne h.peek (h.unreserved s hs)

theorem atAnyWord {ws : List String} (hws : ∀ s ∈ ws, s ∈ reserved) :
    (atAnyWord ws).run c = some (false, c) :=
  run_atAnyWord_of_ne h.peek fun s hs => h.unreserved s (hws s hs)

theorem word (hs : s ∈ reserved) : (word s).run c = none :=
  run_word_of_ne h.peek (h.unreserved s hs)

theorem acceptWord (hs : s ∈ reserved) : (acceptWord s).run c = some (false, c) :=
  run_acceptWord_of_ne h.peek (h.unreserved s hs)

/-- Nothing can be read that starts with a reserved word. -/
theorem canRead {α : Type} {f : Unit → Parser α} (hs : s ∈ reserved) :
    (canRead (Parser.word s >>= f)).run c = some (false, c) :=
  run_canRead_none (run_bind_none (h.word hs))

theorem isPrefixOf (hs : startsWithSign s = true) : s.toList.isPrefixOf c.rest = false := by
  have hhead := h.head
  rw [startsWithSign] at hs
  cases hl : s.toList with
  | nil => simp [hl] at hs
  | cons y ys =>
    cases hc : c.rest with
    | nil => rfl
    | cons z zs =>
      have hyz : y ≠ z := by
        rintro rfl
        simp only [hl, hc, List.head?_cons, Option.any_some, Bool.and_eq_true, decide_eq_true_eq,
          Bool.not_eq_true', Bool.or_eq_true] at hs hhead
        rcases hhead with heq | halpha
        · exact hs.1 heq
        · exact Bool.false_ne_true (hs.2.symm.trans halpha)
      rw [List.isPrefixOf_cons_cons, beq_false_of_ne hyz, Bool.false_and]

theorem looking (hs : startsWithSign s = true) : (looking s).run c = some (false, c) := by
  rw [show (Parser.looking s).run c = some (s.toList.isPrefixOf c.rest, c) from rfl,
    h.isPrefixOf hs]

theorem accept (hs : startsWithSign s = true) : (accept s).run c = some (false, c) :=
  run_else (h.looking hs) rfl

end Bare

theorem bare_string (t : List Char) (p q b m) : Bare [] ⟨'\'' :: t, p, q, b, m⟩ where
  peek := run_peekName_of_sign (by decide) ..
  unreserved := by decide
  head := rfl

theorem bare_name (f : Registrar) (r p q b m) :
    Bare f.name.toList ⟨f.name.toList ++ '(' :: r, p, q, b, m⟩ where
  peek := by
    refine run_peekName_of_name ?_ ?_ (isNamePart_of_sign '(' (by decide)) (by decide) r p q b m
    · have hall : (f.name.toList.all fun x => isNamePart x) = true := by
        simp only [isNamePart_eq]
        cases f <;> decide
      exact List.all_eq_true.mp hall
    · cases f <;> decide
  unreserved := by cases f <;> decide
  head := by cases f <;> rfl

section
variable {n : List Char} {c : Cursor} (h : Bare n c)
include h

theorem run_unaryRule {t : Tree} {c' : Cursor} (hoperand : (operand d self).run c = some (t, c')) :
    (unaryRule d self).run c = some ([t], c') := by
  refine run_bind rfl (run_else (h.atAnyWord (by decide)) (run_else (h.canRead (by decide)) ?_))
  refine run_bind (h.looking (by decide)) (run_else (h.looking (by decide)) ?_)
  refine run_bind (h.looking (by decide)) (run_bind (h.looking (by decide)) ?_)
  refine run_bind (h.looking (by decide)) (run_else (h.looking (by decide)) ?_)
  refine run_bind (h.looking (by decide)) ?_
  rw [Bool.and_false, if_neg Bool.false_ne_true]
  exact run_bind hoperand rfl

/-- An operand that nothing continues is an expression. -/
theorem run_assignmentRule (harrow : (arrow d.hasTypes self).run c = none) {x : Char}
    (hx : x = ',' ∨ x = ';') {found : List Tree} {r p q b m}
    (hunary : (self .unary).run c = some (found, ⟨x :: r, p, q, b, m⟩)) :
    (assignmentRule d self).run c = some (found, ⟨x :: r, p, q, b, m⟩) := by
  refine run_right harrow
    (run_bind rfl (run_else (h.atWord (by decide)) (run_bind hunary (run_bind rfl ?_))))
  refine run_bind (run_many_none (run_operation_none d self hx ..)) (run_bind rfl ?_)
  rw [if_neg (Nat.lt_irrefl _)]
  rfl

end

/-! ## Strings -/

section
variable {body : List Char} (h : Quotable body)
include h

theorem run_stringLiteral {x : Char} (hx : isGap x = false) (hslash : x ≠ '/') (r p q b m) :
    stringLiteral.run ⟨quoted body ++ x :: r, p, q, b, m⟩ =
      some (body, ⟨x :: r, p.afterAll (quoted body), p.afterAll (quoted body), false, m⟩) := by
  have hlength : (quoted body).length = body.length + 2 := by simp [quoted]
  have hpass := Cursor.pass_append (quoted body) hx hslash r p q b m
  have hrest : quoted body ++ x :: r = '\'' :: (body ++ '\'' :: x :: r) := by simp [quoted]
  rw [hlength, hrest] at hpass
  simp only [hrest, stringLiteral, StateT.run_bind, StateT.run_get, Option.pure_def,
    Option.bind_eq_bind, Option.bind_some, h.stringBody?]
  rw [← hpass]
  rfl

theorem takes_string {x : Char} (hx : x = ',' ∨ x = ';') : Takes (operand d self) (quoted body) x
    (stringNode body) := by
  intro r p q b m
  have hgap : isGap x = false ∧ x ≠ '/' := by rcases hx with rfl | rfl <;> decide
  have hstring := run_stringLiteral h hgap.1 hgap.2 r p q b m
  have hprimary : ∀ n, (primaryFrom d self (n + 1)).run ⟨quoted body ++ x :: r, p, q, b, m⟩ =
      some (stringNode body p,
        ⟨x :: r, p.afterAll (quoted body), p.afterAll (quoted body), false, m⟩) := fun n =>
    run_bind rfl (run_bind rfl (run_bind hstring rfl))
  refine run_bind rfl (run_bind (run_bind rfl (hprimary _)) (run_bind rfl ?_))
  exact run_suffixes_none d self (run_suffix_none d self hx ..) _

theorem takes_assignment_string : Takes (reading d (k + 2) .assignment) (quoted body) ','
    fun p => [stringNode body p] := by
  intro r p q b m
  have hbare : Bare [] ⟨quoted body ++ ',' :: r, p, q, b, m⟩ := bare_string ..
  have hrest :
      (arrowRest d.hasTypes (reading d (k + 1))).run ⟨quoted body ++ ',' :: r, p, q, b, m⟩ =
        none := by
    refine run_else rfl (run_bind rfl ?_)
    cases d.hasTypes <;> exact run_bind_none (run_name_of_none hbare.peek)
  have harrow : (arrow d.hasTypes (reading d (k + 1))).run ⟨quoted body ++ ',' :: r, p, q, b, m⟩ =
      none :=
    run_bind rfl (run_bind_none (run_right (run_bind_none (hbare.word (by decide))) hrest))
  exact run_assignmentRule d _ hbare harrow (.inl rfl)
    (run_unaryRule d _ hbare (takes_string d _ h (.inl rfl) r p q b m))

end

/-! ## Arguments -/

section
variable {c : Cursor} {found : List Tree} {r : List Char} {p q : Place} {b m : Bool}
  (hclose : (looking ")").run c = some (false, c))
  (hspread : (accept "...").run c = some (false, c))
include hclose hspread

theorem run_argument_comma
    (h : (self .assignment).run c = some (found, ⟨',' :: ' ' :: '(' :: r, p, q, b, m⟩)) :
    (argument self).run c =
      some (found ++ [signNode ',' p],
        ⟨'(' :: r, p.afterAll [',', ' '], p.afterAll [','], false, m⟩) :=
  run_bind hclose (run_bind rfl (run_bind rfl (run_else hspread (run_bind h rfl))))

theorem run_argument_last (h : (self .assignment).run c = some (found, ⟨')' :: r, p, q, b, m⟩)) :
    (argument self).run c = some (found, ⟨')' :: r, p, q, b, m⟩) :=
  run_bind hclose (run_bind rfl (run_bind rfl (run_else hspread (run_bind h rfl))))

end

section
variable {body : List Char} (h : Quotable body)
include h

theorem takes_argumentList :
    Takes (argumentList (reading d (k + 2))) (argumentsOf body) ';' fun p =>
      (true, argumentNodes body p) := by
  intro r p q b m
  let first := p.after '('
  let second := (first.afterAll (quoted body)).afterAll [',', ' ']
  let tail := emptyFunction ++ ')' :: ';' :: r
  have hrest : argumentsOf body ++ ';' :: r = '(' :: (quoted body ++ ',' :: ' ' :: tail) := by
    simp [argumentsOf, tail]
  have hopen : (sign "(").run ⟨'(' :: (quoted body ++ ',' :: ' ' :: tail), p, q, b, m⟩ =
      some ((signNode '(' p, []),
        ⟨quoted body ++ ',' :: ' ' :: tail, first, first, false, m⟩) := rfl
  have hfirst : (argument (reading d (k + 2))).run
        ⟨quoted body ++ ',' :: ' ' :: tail, first, first, false, m⟩ =
      some ([stringNode body first, signNode ',' (first.afterAll (quoted body))],
        ⟨tail, second, (first.afterAll (quoted body)).afterAll [','], false, m⟩) :=
    run_argument_comma _ rfl rfl (takes_assignment_string d k h (' ' :: tail) first first false m)
  have hsecond := run_argument_last _ rfl rfl
    (takes_emptyFunction d k (';' :: r) second ((first.afterAll (quoted body)).afterAll [','])
      false m)
  have hshort : tail.length < (quoted body ++ ',' :: ' ' :: tail).length := by
    simp only [List.length_append, List.length_cons]
    omega
  rw [hrest, Place.afterAll_argumentsOf]
  refine run_bind hopen
    (run_bind (run_many_cons hfirst hshort (run_many_cons hsecond ?_ (run_many_none rfl))) rfl)
  simp [tail, emptyFunction]

theorem run_callOf (start : Place) (callee : Tree) (r p q b m) :
    (callOf (reading d (k + 2)) start callee).run ⟨argumentsOf body ++ ';' :: r, p, q, b, m⟩ =
      some (.node { kind := .call } (start.to (p.afterAll (argumentsOf body)))
          [callee.inRole .function, (argumentsNode body p).inRole .arguments],
        ⟨';' :: r, p.afterAll (argumentsOf body), p.afterAll (argumentsOf body), false, m⟩) :=
  run_bind rfl (run_bind (takes_argumentList d k h r p q b m) rfl)

end

/-! ## Calls -/

section
variable (f : Registrar) (r : List Char) (p q : Place) (b m : Bool)

theorem run_name_registrar : name.run ⟨f.name.toList ++ '(' :: r, p, q, b, m⟩ =
    some (f.name.toList,
      ⟨'(' :: r, p.afterAll f.name.toList, p.afterAll f.name.toList, false, m⟩) := by
  rw [run_name_of_peek (bare_name f r p q b m).peek (by cases f <;> decide),
    Cursor.pass_append f.name.toList (by decide) (by decide)]

/-- A name with arguments behind it is no arrow function. -/
theorem run_arrow_registrar (types : Bool) :
    (arrow types self).run ⟨f.name.toList ++ '(' :: r, p, q, b, m⟩ = none := by
  have h := bare_name f r p q b m
  have hrest : (arrowRest types self).run ⟨f.name.toList ++ '(' :: r, p, q, b, m⟩ = none := by
    refine run_else (h.looking (by decide)) (run_bind (h.looking (by decide)) ?_)
    rw [Bool.and_false, if_neg Bool.false_ne_true]
    exact run_bind (run_name_registrar f r p q b m) rfl
  exact run_bind rfl (run_bind_none (run_right (run_bind_none (h.word (by decide))) hrest))

theorem run_wordOperand (primary : Parser Tree) :
    (wordOperand d primary self).run ⟨f.name.toList ++ '(' :: r, p, q, b, m⟩ =
      some (nameNode f p,
        ⟨'(' :: r, p.afterAll f.name.toList, p.afterAll f.name.toList, false, m⟩) := by
  have h := bare_name f r p q b m
  refine run_bind rfl (run_else (h.atWord (by decide)) (run_else (h.canRead (by decide)) ?_))
  refine run_else (h.atWord (by decide))
    (run_else (h.atWord (by decide)) (run_else (h.atAnyWord (by decide)) ?_))
  exact run_bind (run_name_registrar f r p q b m) rfl

end

theorem run_primaryFrom_of_letter {c : Cursor} {x : Char} {t : List Char} (hc : c.rest = x :: t)
    (hx : x.isAlpha = true) (hstart : isNameStart x = true) (n : Nat) :
    (primaryFrom d self (n + 1)).run c = (wordOperand d (primaryFrom d self n) self).run c := by
  have hne : ∀ y : Char, y.isAlpha = false → x ≠ y := by
    rintro y hy rfl
    exact Bool.false_ne_true (hy.symm.trans hx)
  obtain ⟨rest, p, q, b, m⟩ := c
  cases hc
  refine run_bind rfl (run_bind rfl ?_)
  simp only [hne '(' rfl, hne '[' rfl, hne '\x7b' rfl, hne '"' rfl, hne '\'' rfl, hne '`' rfl,
    hne '/' rfl, hne '<' rfl, hne '@' rfl, hne '#' rfl, hstart, if_false, Bool.true_or, if_true,
    decide_false, Bool.or_false, Bool.false_eq_true]

theorem run_primary_registrar (f : Registrar) (r p q b m) :
    (primary d self).run ⟨f.name.toList ++ '(' :: r, p, q, b, m⟩ =
      some (nameNode f p,
        ⟨'(' :: r, p.afterAll f.name.toList, p.afterAll f.name.toList, false, m⟩) := by
  obtain ⟨x, t, hname, halpha, hstart⟩ := f.exists_cons
  have hrest : f.name.toList ++ '(' :: r = x :: (t ++ '(' :: r) := by rw [hname, List.cons_append]
  refine run_bind rfl ?_
  rw [run_primaryFrom_of_letter d self hrest halpha hstart]
  exact run_wordOperand d self f r p q b m _

theorem exists_append_paren (f : Registrar) (body r : List Char) :
    ∃ t, f.name.toList ++ argumentsOf body ++ r = f.name.toList ++ '(' :: t :=
  ⟨_, List.append_assoc ..⟩

section
variable (f : Registrar) {body : List Char} (h : Quotable body)
include h

theorem takes_call :
    Takes (operand d (reading d (k + 2))) (f.name.toList ++ argumentsOf body) ';'
      (callNode f body) := by
  intro r p q b m
  rw [List.append_assoc, Place.afterAll_append]
  have hcall := run_callOf d k h p (nameNode f p) r
    (p.afterAll f.name.toList) (p.afterAll f.name.toList) false m
  refine run_bind rfl (run_bind (run_primary_registrar d _ f _ p q b m) (run_bind rfl ?_))
  refine run_bind (run_optional (run_suffix_paren d _ hcall)) ?_
  exact run_suffixes_none d _ (run_suffix_none d _ (.inr rfl) ..) _

theorem takes_expression :
    Takes (reading d (k + 5) .expression) (f.name.toList ++ argumentsOf body) ';' fun p =>
      [callNode f body p] := by
  intro r p q b m
  have hcall := takes_call d k f h r p q b m
  obtain ⟨t, hrest⟩ := exists_append_paren f body (';' :: r)
  rw [hrest] at hcall ⊢
  have hbare := bare_name f t p q b m
  have hassignment :=
    run_assignmentRule d (reading d (k + 3)) hbare (run_arrow_registrar _ f t p q b m _) (.inr rfl)
      (run_unaryRule d _ hbare hcall)
  exact run_bind hassignment (run_bind (run_many_none rfl) rfl)

end

/-! ## Statements -/

section
variable (types : Bool) {n : List Char} {c : Cursor} (h : Bare n c)
include h

theorem run_hiddenLine : hiddenLine.run c = none :=
  run_bind (h.looking (by decide)) (run_bind (h.looking (by decide)) rfl)

theorem run_typedDeclaration : (typedDeclaration self).run c = none := by
  refine run_else
    (run_canRead_none (run_bind (h.acceptWord (by decide)) (run_bind_none (h.word (by decide))))) ?_
  refine run_else (h.canRead (by decide)) (run_else (h.canRead (by decide)) ?_)
  refine run_else (h.canRead (by decide))
    (run_else (h.canRead (by decide)) (run_else (h.canRead (by decide)) ?_))
  exact run_bind (h.atAnyWord (by decide)) rfl

theorem run_declarators : (declarators types self).run c = none :=
  run_bind (h.atAnyWord (by decide)) rfl

theorem run_announced : (announced types self).run c = none := by
  refine run_else (h.acceptWord (by decide)) (run_else (h.canRead (by decide)) ?_)
  refine run_else (h.acceptWord (by decide)) (run_else (h.acceptWord (by decide)) ?_)
  refine run_else (h.acceptWord (by decide)) (run_else (h.atAnyWord (by decide)) ?_)
  refine run_else (h.acceptWord (by decide)) (run_else (h.acceptWord (by decide)) ?_)
  refine run_else (h.acceptWord (by decide)) (run_else (h.atAnyWord (by decide)) ?_)
  refine run_else (h.atAnyWord (by decide)) (run_else (h.canRead (by decide)) ?_)
  exact run_else (h.atWord (by decide)) rfl

/-- What starts with no reserved word and is no label is an expression with its end. -/
theorem run_statementRule (hlabel : (do let _ ← name; token ":" : Parser Unit).run c = none)
    {found : List Tree} {c' : Cursor} (hexpression : (self .expression).run c = some (found, c')) :
    (statementRule d self).run c = (do terminator; return found : Parser (List Tree)).run c' := by
  have htyped : (do guard d.hasTypes; typedDeclaration self : Parser (List Tree)).run c = none := by
    cases d.hasTypes with
    | true => exact run_bind rfl (run_typedDeclaration self h)
    | false => rfl
  refine run_else (h.accept (by decide)) (run_bind (run_optional_none (run_hiddenLine h)) ?_)
  rw [Option.isSome_none, if_neg Bool.false_ne_true]
  refine run_else (h.looking (by decide))
    (run_else (h.looking (by decide)) (run_else (run_canRead_none hlabel) ?_))
  refine run_right htyped
    (run_right (run_bind_none (run_declarators self _ h)) (run_right (run_announced self _ h) ?_))
  exact run_bind hexpression rfl

end

/-- A registration is read up to the end of its statement. -/
theorem run_statement (f : Registrar) {body : List Char} (h : Quotable body) (r p q b m) :
    (reading d (k + 6) .statement).run ⟨f.name.toList ++ argumentsOf body ++ ';' :: r, p, q, b, m⟩ =
      some ([callNode f body p],
        Cursor.pass 1 ⟨';' :: r, p.afterAll (f.name.toList ++ argumentsOf body),
          p.afterAll (f.name.toList ++ argumentsOf body), false, m⟩) := by
  have hexpression := takes_expression d k f h r p q b m
  obtain ⟨t, hrest⟩ := exists_append_paren f body (';' :: r)
  rw [hrest] at hexpression ⊢
  refine (run_statementRule d _ (bare_name f t p q b m) ?_ hexpression).trans rfl
  exact run_bind (run_name_registrar f t p q b m) rfl

end Parser
end Script
end StepAtlas
