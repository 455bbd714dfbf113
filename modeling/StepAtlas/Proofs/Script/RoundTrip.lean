import StepAtlas.Proofs.Script.Calls
import StepAtlas.Proofs.Script.Registering

/-
Reading what was written.  The script of some registrations is read line by line: each line is one
statement, which gives one call, and behind it the cursor stands at the start of the next line.  Of
the nodes of a call only the call itself registers something, so that the definitions are those of
the registrations, each on its line.
-/

namespace StepAtlas
namespace Script

/-! ## The tree of a script -/

def Registration.tree (line : Nat) (r : Registration) : Tree :=
  callNode r.function r.body { line, column := 0 }

def callsFrom (line : Nat) : List Registration → List Tree
  | [] => []
  | r :: rs => r.tree line :: callsFrom (line + 1) rs

theorem Registration.afterAll_call (r : Registration) (line : Nat) :
    Place.afterAll { line, column := 0 } r.call =
      { line, column := (Text.ofChars r.call).utf8Size } := by
  rw [Place.afterAll_of_not_mem r.not_mem_call, Nat.zero_add]

/-- A script starts with a name, unless it is empty. -/
theorem scriptOf_cases (ended : Bool) (rs : List Registration) :
    scriptOf ended rs = [] ∨ ∃ x t, scriptOf ended rs = x :: t ∧ isNameStart x = true := by
  cases rs with
  | nil => exact .inl rfl
  | cons r rs =>
    obtain ⟨x, t, hname, -, hx⟩ := r.function.exists_cons
    rw [scriptOf, Registration.call, hname, List.cons_append, List.cons_append]
    exact .inr ⟨x, _, rfl, hx⟩

theorem ne_of_isNameStart {x y : Char} (hx : isNameStart x = true) (hy : isNamePart y = false) :
    x ≠ y := by
  rintro rfl
  simp [isNameStart, hy] at hx

/-- Nothing stands before the first line. -/
theorem skipGap_scriptOf (b : Bool) (p : Place) (ended : Bool) (rs : List Registration) :
    skipGap b [] p .blank (scriptOf ended rs) = (b, [], p, scriptOf ended rs) := by
  obtain h | ⟨x, t, h, hx⟩ := scriptOf_cases ended rs
  · rw [h]
    rfl
  · have hslash : x ≠ '/' := ne_of_isNameStart hx (by rw [isNamePart_eq]; decide)
    have hgap : isGap x = false := by
      simp only [isNameStart, isNamePart, Bool.and_eq_true, Bool.not_eq_true'] at hx
      exact hx.1.1.1
    rw [h, skipGap_of_token hgap hslash]

theorem start_scriptOf (ended : Bool) (rs : List Registration) :
    Cursor.start (scriptOf ended rs) =
      ⟨scriptOf ended rs, { line := 0, column := 0 }, { line := 0, column := 0 }, false,
        false⟩ := by
  have hmark : ∀ t, scriptOf ended rs ≠ '#' :: '!' :: t := by
    intro t ht
    obtain h | ⟨x, u, h, hx⟩ := scriptOf_cases ended rs
    · simp [h] at ht
    · have hne : x ≠ '#' := ne_of_isNameStart hx (by rw [isNamePart_eq]; decide)
      rw [h] at ht
      exact hne (List.cons.inj ht).1
  rw [Cursor.start.eq_2 _ hmark, Cursor.settle, skipGap_scriptOf]

theorem Registration.run_statement (r : Registration) (d : Dialect) (k : Nat) (line : Nat)
    (t q b m) :
    (Parser.reading d (k + 6) .statement).run ⟨r.call ++ ';' :: t, { line, column := 0 }, q, b, m⟩ =
      some ([r.tree line],
        Cursor.pass 1 ⟨';' :: t, { line, column := (Text.ofChars r.call).utf8Size },
          { line, column := (Text.ofChars r.call).utf8Size }, false, m⟩) := by
  rw [← r.afterAll_call line]
  exact Parser.run_statement d k r.function r.quotable_body t _ q b m

/-- Behind a statement the next line follows. -/
theorem pass_semicolon (ended : Bool) (rs : List Registration) (p q : Place) (b m : Bool) :
    Cursor.pass 1 ⟨';' :: '\n' :: scriptOf ended rs, p, q, b, m⟩ =
      ⟨scriptOf ended rs, { line := p.line + 1, column := 0 }, p.after ';', true, m⟩ := by
  have hskip : skipGap false [] (p.after ';') .blank ('\n' :: scriptOf ended rs) =
      (true, [], { line := p.line + 1, column := 0 }, scriptOf ended rs) :=
    skipGap_scriptOf true ((p.after ';').after '\n') ended rs
  change Cursor.settle ⟨'\n' :: scriptOf ended rs, p.after ';', p.after ';', false, m⟩ = _
  simp only [Cursor.settle, hskip]

/-- Line by line, every statement is a call and nothing is passed over. -/
theorem run_statements_scriptOf (d : Dialect) (k : Nat) (ended : Bool) (rs : List Registration)
    (line : Nat) (q : Place) (b : Bool) :
    ∃ c : Cursor, c.damaged = false ∧
      (Parser.many (Parser.reading d (k + 6) .statement <|> Parser.skipToken)).run
          ⟨scriptOf ended rs, { line, column := 0 }, q, b, false⟩ =
        some ((callsFrom line rs).map ([·]), c) := by
  induction rs generalizing line q b with
  | nil => exact ⟨_, rfl, Parser.run_many_of_end _ rfl⟩
  | cons r rs ih =>
    rw [scriptOf]
    split
    · next h =>
      -- the last line, which is not ended
      have hrs : rs = [] := by simp_all
      subst hrs
      have hstatement := r.run_statement d k line [] q b false
      refine ⟨_, rfl, Parser.run_many_cons (Parser.run_left hstatement) ?_
        (Parser.run_many_of_end _ rfl)⟩
      rw [List.length_append]
      exact Nat.lt_add_left _ Nat.zero_lt_one
    · next h =>
      have hstatement := r.run_statement d k line ('\n' :: scriptOf ended rs) q b false
      rw [pass_semicolon] at hstatement
      obtain ⟨c, hc, hmany⟩ := ih (line + 1) _ true
      refine ⟨c, hc, Parser.run_many_cons (Parser.run_left hstatement) ?_ hmany⟩
      simp only [List.length_append, List.length_cons]
      omega

theorem parse_scriptOf (d : Dialect) (ended : Bool) (rs : List Registration) :
    ∃ span, parse d (scriptOf ended rs) =
      (.node { kind := .other } span (callsFrom 0 rs), false) := by
  obtain ⟨c, hc, hmany⟩ :=
    run_statements_scriptOf d (4 * (scriptOf ended rs).length + 10) ended rs 0
      { line := 0, column := 0 } false
  have hscript : (Parser.script (Parser.reading d (4 * (scriptOf ended rs).length + 16))).run
      (Cursor.start (scriptOf ended rs)) = some (callsFrom 0 rs, c) := by
    rw [start_scriptOf]
    refine Parser.run_bind hmany ?_
    rw [← List.flatMap_def, List.flatMap_singleton']
    rfl
  refine ⟨Place.to { line := 0, column := 0 } c.stop, ?_⟩
  simp only [parse, hscript, hc]

/-! ## The definitions of a tree -/

section
variable (source : Path) (line : Nat) (r : Registration)

theorem Registration.span_tree :
    (r.tree line).span = ⟨line, 0, line, (Text.ofChars r.call).utf8Size⟩ := by
  have hstop := r.afterAll_call line
  rw [call, Place.afterAll_append] at hstop
  change Place.to _ (Place.afterAll (Place.afterAll _ _) _) = _
  rw [hstop]
  rfl

theorem quotes_stringNode (body : List Char) (p : Place) :
    (stringNode body p).Quotes (Text.ofChars body) := by
  have hunquoted : (stringNode body p).unquoted = Text.ofChars body := by
    simp [Tree.unquoted, stringNode, Tree.text, Tree.label, quoted, Text.ofChars]
  exact hunquoted ▸ .string rfl

theorem Registration.hands_tree : ∃ p, Tree.Hands .standard (r.tree line)
    (Text.ofString r.function.name) r.function.keyword (stringNode r.body p) := by
  let opened := Place.afterAll { line, column := 0 } r.function.name.toList
  refine ⟨opened.after '(', .call rfl rfl (.identifier rfl) r.function.lookup_standard rfl rfl ?_⟩
  refine ⟨[signNode '(' opened], _, rfl, ?_, ?_⟩
  · exact ⟨nofun, nofun⟩
  · exact List.forall_mem_singleton.mpr fun h => h.1 rfl

theorem Registration.definition?_tree :
    (r.tree line).definition? .standard source = .ok (some (r.definition source line)) := by
  obtain ⟨p, hhands⟩ := r.hands_tree line
  rw [Tree.definition?_of_hands hhands, Tree.pattern?_of_quotes (quotes_stringNode _ p),
    r.unescape_body, r.span_tree]
  rfl

theorem filterMapM_of_ne {ts : List Tree} (h : ∀ t ∈ ts, t.kind ≠ .call) (us : List Tree) :
    (ts ++ us).filterMapM (Tree.definition? .standard source) =
      us.filterMapM (Tree.definition? .standard source) := by
  induction ts with
  | nil => rfl
  | cons t ts ih =>
    obtain ⟨ht, hts⟩ := List.forall_mem_cons.mp h
    rw [List.cons_append, List.filterMapM_cons, Tree.definition?_of_ne ht]
    exact ih hts

/-- Of the nodes of a call only the call itself registers something. -/
theorem Registration.filterMapM_preorder (ts : List Tree) :
    ((r.tree line).preorder ++ ts).filterMapM (Tree.definition? .standard source) =
      (r.definition source line :: ·) <$> ts.filterMapM (Tree.definition? .standard source) := by
  have hparts : ∀ t ∈ Tree.preorderAll (r.tree line).parts, t.kind ≠ .call := by
    simp [tree, callNode, nameNode, argumentsNode, argumentNodes, signNode, stringNode,
      functionNode, Tree.inRole, Tree.preorderAll, Tree.preorder, Tree.parts, Tree.kind, Tree.label]
  have hpreorder : (r.tree line).preorder =
      r.tree line :: Tree.preorderAll (r.tree line).parts := by
    rw [tree, callNode, Tree.preorder, Tree.parts]
  rw [hpreorder, List.cons_append, List.filterMapM_cons, r.definition?_tree,
    ← filterMapM_of_ne source hparts ts]
  rfl

end

/-- The definitions of registrations on lines that are counted from a number. -/
theorem filterMapM_callsFrom (source : Path) (line : Nat) (rs : List Registration) :
    (Tree.preorderAll (callsFrom line rs)).filterMapM (Tree.definition? .standard source) =
      .ok (rs.mapIdx fun i r => r.definition source (line + i)) := by
  induction rs generalizing line with
  | nil => rfl
  | cons r rs ih =>
    rw [callsFrom, Tree.preorderAll, r.filterMapM_preorder, ih, List.mapIdx_cons]
    simp only [Nat.add_zero, Nat.add_assoc, Nat.add_comm 1]
    rfl

/-- Whatever the texts of some registrations and however their control characters are spelled, the
definitions in their script are theirs, in order, and each spans the call on its line.  It is so for
every dialect. -/
theorem definitions_scriptOf (source : Path) (ended : Bool) (rs : List Registration) :
    definitions .standard source (Text.ofChars (scriptOf ended rs)) =
      .ok (rs.mapIdx fun line r => r.definition source line) := by
  obtain ⟨span, hparse⟩ := parse_scriptOf (Dialect.ofPath source) ended rs
  have hroot : (Tree.node { kind := .other } span (callsFrom 0 rs)).walk =
      [.node { kind := .other } span (callsFrom 0 rs)] ++ Tree.preorderAll (callsFrom 0 rs) := by
    rw [Tree.walk, Tree.walkFrom_eq, Tree.preorderAll, Tree.preorder, Tree.preorderAll,
      List.append_nil]
    rfl
  have hcalls := filterMapM_callsFrom source 0 rs
  simp only [Nat.zero_add] at hcalls
  rw [definitions, Text.chars?_ofChars]
  dsimp only
  rw [hparse]
  dsimp only
  rw [Tree.definitions, hroot, filterMapM_of_ne source (by simp [Tree.kind, Tree.label]), hcalls]
  rfl

/-- How a quote, a line break and the character for deletion are written. -/
example :
    String.ofList
      (scriptOf true [⟨.when, [⟨'\'', true, true⟩, ⟨'\n', true, false⟩, ⟨'\x7f', false, true⟩]⟩]) =
    "When('\\'\\u000a\\x7F', () => \x7b\x7d);\n" := by
  decide

end Script
end StepAtlas
