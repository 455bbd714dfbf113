import StepAtlas.Script.Registration

/-
How a script is read.  For each small reader there is an equation that says what it does at a
cursor, so that a rule of the grammar can be followed test by test: a test that fails leads to the
next one, a part that can be read leads behind it.  A repetition needs no fuel in these equations,
since its fuel never runs out.
-/

namespace StepAtlas
namespace Script

theorem isNamePart_eq (c : Char) : isNamePart c =
    (!isGap c && c.toNat > 0x1F &&
      !(":;`\"'@#.,|^&<=>+-*/\\%?!~()[]\x7b\x7d".toList.contains c)) := by
  rw [isNamePart, String.contains_char_eq, List.contains_eq_mem]

theorem Place.afterAll_append (p : Place) (cs ds : List Char) :
    p.afterAll (cs ++ ds) = (p.afterAll cs).afterAll ds :=
  List.foldl_append ..

theorem skipGap_of_token {x : Char} (hx : isGap x = false) (hslash : x ≠ '/') (b : Bool)
    (comments : List Span) (p : Place) (r : List Char) :
    skipGap b comments p .blank (x :: r) = (b, comments, p, x :: r) := by
  rw [skipGap.eq_def]
  split <;> simp_all

/-- A token that another one follows directly. -/
theorem Cursor.pass_append (t : List Char) {x : Char} (hx : isGap x = false) (hslash : x ≠ '/')
    (r : List Char) (p q : Place) (b m : Bool) :
    Cursor.pass t.length ⟨t ++ x :: r, p, q, b, m⟩ =
      ⟨x :: r, p.afterAll t, p.afterAll t, false, m⟩ := by
  simp [pass, passRaw, settle, skipGap_of_token hx hslash]

namespace Parser

section
variable {α β : Type} {x y : Parser α} {f : α → Parser β} {c c' : Cursor} {a : α}
  {v : Option (α × Cursor)}

theorem run_bind {v : Option (β × Cursor)} (h : x.run c = some (a, c')) (hf : (f a).run c' = v) :
    (x >>= f).run c = v := by
  rw [StateT.run_bind, h]
  exact hf

theorem run_bind_none (h : x.run c = none) : (x >>= f).run c = none := by
  rw [StateT.run_bind, h]
  rfl

theorem run_left (h : x.run c = some (a, c')) : (x <|> y).run c = some (a, c') := by
  rw [show (x <|> y).run c = (x.run c <|> y.run c) from rfl, h]
  rfl

theorem run_right (h : x.run c = none) (hy : y.run c = v) : (x <|> y).run c = v := by
  rw [show (x <|> y).run c = (x.run c <|> y.run c) from rfl, h]
  exact hy

variable {test : Parser Bool}

theorem run_then (h : test.run c = some (true, c')) (hx : x.run c' = v) :
    (test >>= fun b => if b = true then x else y).run c = v :=
  run_bind h hx

theorem run_else (h : test.run c = some (false, c')) (hy : y.run c' = v) :
    (test >>= fun b => if b = true then x else y).run c = v :=
  run_bind h hy

theorem run_canRead_none (h : x.run c = none) : (canRead x).run c = some (false, c) := by
  rw [show (canRead x).run c = some ((x.run c).isSome, c) from rfl, h]
  rfl

theorem run_optional_none (h : x.run c = none) : (optional x).run c = some (none, c) := by
  simp [optional, h]

theorem run_optional (h : x.run c = some (a, c')) : (optional x).run c = some (some a, c') := by
  simp [optional, h]

end

/-! ## Repetition -/

section
variable {α : Type} {x : Parser α} {c c' c'' : Cursor}

theorem run_manyFrom_of_end (x : Parser α) (n : Nat) (hc : c.rest = []) :
    (manyFrom x n).run c = some ([], c) := by
  cases n with
  | zero => rfl
  | succ n => cases h : x.run c <;> simp [manyFrom, h, hc]

/-- Fuel for every character that is left is enough. -/
theorem run_manyFrom_eq {n k : Nat} (hn : c.rest.length ≤ n) (hk : c.rest.length ≤ k) :
    (manyFrom x n).run c = (manyFrom x k).run c := by
  induction n generalizing c k with
  | zero =>
    have hc : c.rest = [] := List.length_eq_zero_iff.mp (Nat.le_zero.mp hn)
    rw [run_manyFrom_of_end x 0 hc, run_manyFrom_of_end x k hc]
  | succ n ih =>
    cases k with
    | zero =>
      have hc : c.rest = [] := List.length_eq_zero_iff.mp (Nat.le_zero.mp hk)
      rw [run_manyFrom_of_end x (n + 1) hc, run_manyFrom_of_end x 0 hc]
    | succ k =>
      cases h : x.run c with
      | none => simp [manyFrom, h]
      | some v =>
        obtain ⟨a, c'⟩ := v
        by_cases hlt : c'.rest.length < c.rest.length
        · have hrest : (manyFrom x n).run c' = (manyFrom x k).run c' := ih (by omega) (by omega)
          simp [manyFrom, h, hlt, hrest]
        · simp [manyFrom, h, hlt]

theorem run_many_of_end (x : Parser α) (hc : c.rest = []) : (many x).run c = some ([], c) :=
  run_manyFrom_of_end x _ hc

theorem run_many_none (h : x.run c = none) : (many x).run c = some ([], c) := by
  cases hl : c.rest.length <;> simp [many, hl, manyFrom, h]

theorem run_many_cons {a : α} {as : List α} (h : x.run c = some (a, c'))
    (hlt : c'.rest.length < c.rest.length) (hmany : (many x).run c' = some (as, c'')) :
    (many x).run c = some (a :: as, c'') := by
  obtain ⟨n, hn⟩ : ∃ n, c.rest.length = n + 1 := ⟨c.rest.length - 1, by omega⟩
  have hrest : (manyFrom x n).run c' = some (as, c'') := by
    rw [← hmany, many]
    exact run_manyFrom_eq (by omega) (Nat.le_refl _)
  simp [many, manyFrom, h, hn, hrest, show c'.rest.length < n + 1 by omega]

end

/-! ## Names -/

theorem nameOf_append {n : List Char} (hn : ∀ c ∈ n, isNamePart c = true) {x : Char}
    (hx : isNamePart x = false) (hslash : x ≠ '\\') (r : List Char) :
    nameOf false (n ++ x :: r) = n := by
  have hback : isNamePart '\\' = false := by rw [isNamePart_eq]; decide
  induction n with
  | nil =>
    rw [List.nil_append, nameOf.eq_def]
    split <;> simp_all
  | cons c n ih =>
    have hc : c ≠ '\\' := by rintro rfl; simp [hback] at hn
    rw [List.cons_append, nameOf.eq_def]
    split <;> simp_all

theorem run_peekName_of_name {n : List Char} (hn : ∀ c ∈ n, isNamePart c = true)
    (hstart : n.head?.any (fun c => !c.isDigit) = true) {x : Char} (hx : isNamePart x = false)
    (hslash : x ≠ '\\') (r : List Char) (p q : Place) (b m : Bool) :
    peekName.run ⟨n ++ x :: r, p, q, b, m⟩ = some (n, ⟨n ++ x :: r, p, q, b, m⟩) := by
  have hname := nameOf_append hn hx hslash r
  cases n with
  | nil => simp at hstart
  | cons y n =>
    have hy : isNameStart y = true := by simpa [isNameStart, hn y (.head _)] using hstart
    rw [List.cons_append] at hname ⊢
    simp [peekName, hy, hname]

section
variable {c : Cursor} {n : List Char} {s : String}

theorem run_atWord_of_ne (h : peekName.run c = some (n, c)) (hs : s.toList ≠ n) :
    (atWord s).run c = some (false, c) := by
  simp [atWord, h, hs.symm]

theorem run_atAnyWord_of_ne (h : peekName.run c = some (n, c)) {ws : List String}
    (hws : ∀ s ∈ ws, s.toList ≠ n) :
    (atAnyWord ws).run c = some (false, c) := by
  simpa [atAnyWord, h] using hws

theorem run_word_of_ne (h : peekName.run c = some (n, c)) (hs : s.toList ≠ n) :
    (word s).run c = none :=
  run_bind (run_atWord_of_ne h hs) rfl

theorem run_acceptWord_of_ne (h : peekName.run c = some (n, c)) (hs : s.toList ≠ n) :
    (acceptWord s).run c = some (false, c) :=
  run_else (run_atWord_of_ne h hs) rfl

theorem run_name_of_peek (h : peekName.run c = some (n, c)) (hn : n ≠ []) :
    name.run c = some (n, c.pass n.length) := by
  refine run_bind h ?_
  cases n with
  | nil => exact absurd rfl hn
  | cons x n => rfl

theorem run_name_of_none (h : peekName.run c = some ([], c)) : name.run c = none :=
  run_bind h rfl

end

def signs : List Char := ['\'', '(', ')', ',', ';']

theorem isNamePart_of_sign : ∀ x ∈ signs, isNamePart x = false := by
  simp only [signs, List.forall_mem_cons, isNamePart_eq]
  exact ⟨by decide, by decide, by decide, by decide, by decide, nofun⟩

/-- No name starts with a sign. -/
theorem run_peekName_of_sign {x : Char} (hx : x ∈ signs) (r : List Char) (p q : Place)
    (b m : Bool) :
    peekName.run ⟨x :: r, p, q, b, m⟩ = some ([], ⟨x :: r, p, q, b, m⟩) := by
  have hslash : x ≠ '\\' := by rintro rfl; exact absurd hx (by decide)
  simp [peekName, isNameStart, isNamePart_of_sign x hx, hslash]

end Parser
end Script
end StepAtlas
