import StepAtlas.Regex.Reader

/-
Reading a regular expression back from its spelling.  For each way to write an item, a sequence or a
choice there is a lemma that says what the reader makes of the text, whatever stands before and
behind it.  A spelling is then put together from such parts, and `Pattern.parse_eq` reads the whole.
-/

namespace StepAtlas
namespace Regex
namespace Reader

/-! ## Single signs -/

theorem run_bind_ok {α β : Type} {r : Reader α} {f : α → Reader β} {s s' : ReadState} {a : α}
    (h : r.run s = .ok (a, s')) : (r >>= f).run s = (f a).run s' := by
  rw [StateT.run_bind, h]
  rfl

theorem run_get_bind {β : Type} (f : ReadState → Reader β) (s : ReadState) :
    (get >>= f).run s = (f s).run s :=
  rfl

theorem run_modify_bind {β : Type} (g : ReadState → ReadState) (f : Unit → Reader β)
    (s : ReadState) :
    (modify g >>= f).run s = (f ()).run (g s) :=
  rfl

def passed (s : ReadState) (token rest : Text) : ReadState :=
  { s with rest := rest, pos := s.pos + token.length }

theorem peek_nil {s : ReadState} (h : s.rest = []) : peek.run s = .ok (none, s) := by
  rw [peek, run_get_bind, h]
  rfl

theorem peek_cons {s : ReadState} {p : CodePoint} {r : Text} (h : s.rest = p :: r)
    (hp : p ≠ .scalar '\\') :
    peek.run s = .ok (some [p], s) := by
  rw [peek, run_get_bind, h]
  split
  · contradiction
  · rename_i heq
    exact absurd (List.cons.inj heq).1 hp
  · rename_i heq
    rw [(List.cons.inj heq).1]
    rfl

theorem peek_escape {s : ReadState} {p : CodePoint} {r : Text}
    (h : s.rest = .scalar '\\' :: p :: r) :
    peek.run s = .ok (some [.scalar '\\', p], s) := by
  rw [peek, run_get_bind, h]
  rfl

theorem checkNext_ok {s : ReadState} (h : s.rest ≠ [.scalar '\\']) :
    checkNext.run s = .ok ((), s) := by
  rw [checkNext, run_get_bind, if_neg h]
  rfl

theorem next_ok {s : ReadState} {token r : Text} (hp : peek.run s = .ok (some token, s))
    (h : s.rest = token ++ r) (hr : r ≠ [.scalar '\\']) :
    next.run s = .ok (some token, passed s token r) := by
  have hdrop : s.rest.drop token.length = r := by rw [h, List.drop_left]
  rw [next, run_bind_ok hp, run_modify_bind]
  show (checkNext >>= _).run
    { s with rest := s.rest.drop token.length, pos := s.pos + token.length } = _
  rw [hdrop, run_bind_ok (checkNext_ok hr)]
  rfl

theorem next_cons {s : ReadState} {p : CodePoint} {r : Text} (h : s.rest = p :: r)
    (hp : p ≠ .scalar '\\') (hr : r ≠ [.scalar '\\']) :
    next.run s = .ok (some [p], passed s [p] r) :=
  next_ok (peek_cons h hp) h hr

theorem accept_same {s : ReadState} {c : Char} {r : Text} (h : s.rest = .scalar c :: r)
    (hc : CodePoint.scalar c ≠ .scalar '\\') (hr : r ≠ [.scalar '\\']) :
    (accept c).run s = .ok (true, passed s [.scalar c] r) := by
  rw [accept, run_bind_ok (peek_cons h hc), if_pos rfl, run_bind_ok (next_cons h hc hr)]
  rfl

theorem accept_other {s : ReadState} {c : Char} (h : s.rest.head? ≠ some (.scalar c))
    (hc : c ≠ '\\') :
    (accept c).run s = .ok (false, s) := by
  have hpeek : ∃ token, peek.run s = .ok (token, s) ∧ token ≠ some [.scalar c] := by
    rcases hs : s.rest with _ | ⟨p, r⟩
    · exact ⟨none, peek_nil hs, nofun⟩
    · by_cases hp : p = .scalar '\\'
      · subst hp
        cases r with
        | nil =>
          exact ⟨some [.scalar '\\'],
            by rw [peek, run_get_bind, hs]; rfl, by simpa using Ne.symm hc⟩
        | cons q r => exact ⟨_, peek_escape hs, by simp⟩
      · refine ⟨_, peek_cons hs hp, fun he => h ?_⟩
        rw [hs, List.head?_cons, (List.cons.inj (Option.some_inj.mp he)).1]
  obtain ⟨token, hp, hne⟩ := hpeek
  rw [accept, run_bind_ok hp, if_neg hne]
  rfl

/-! ## Items -/

def signs : List Char := ['\\', '|', ')', '[', '.', '^', '$', '?', '*', '+', '\x7b', '(']

theorem ne_of_test {cs : List Char} {p : CodePoint} (hp : p.test cs.contains = false) {c : Char}
    (hc : c ∈ cs) :
    p ≠ .scalar c := by
  rintro rfl
  have : cs.contains c = true := List.contains_iff_mem.mpr hc
  rw [CodePoint.test, this] at hp
  exact absurd hp (by decide)

/-- A repetition without a second sign behind it, as which it would be lazy or possessive. -/
def Unsigned (t : Text) : Prop := t.head? ≠ some (.scalar '?') ∧ t.head? ≠ some (.scalar '+')

def repeatable : Node → Bool
  | .anchor _ | .repeatAtom .. | .loop .. => false
  | _ => true

theorem itemsAfter_sign (here : Nat) (c : Char) (items : List Node) :
    itemsAfter false here [.scalar c] items = itemsAfterSign here c items :=
  rfl

theorem itemsAfter_literal {p : CodePoint} (hp : p.test signs.contains = false) (here : Nat)
    (items : List Node) (s : ReadState) :
    (itemsAfter false here [p] items).run s = .ok (.atom (.literal p.toNat) :: items, s) := by
  cases p with
  | surrogate k => rfl
  | scalar c =>
    have hc : ∀ d ∈ signs, c ≠ d := fun _ hd h => ne_of_test hp hd (h ▸ rfl)
    rw [itemsAfter_sign, itemsAfterSign, if_neg (hc '[' (by decide)), if_neg (hc '.' (by decide)),
      if_neg (hc '^' (by decide)), if_neg (hc '$' (by decide)), if_neg (hc '?' (by decide)),
      if_neg (hc '*' (by decide)), if_neg (hc '+' (by decide)), if_neg (hc '\x7b' (by decide))]
    rfl

theorem escape_self {c : Char} (hc : c.isAlphanum = false) (s : ReadState) :
    (escape (.scalar c)).run s = .ok (.atom (.literal c.toNat), s) := by
  have hne : ∀ d : Char, d.isAlphanum = true → c ≠ d := by
    rintro d hd rfl
    exact absurd (hc.symm.trans hd) (by decide)
  have hanchor : anchorEscape? c = none := by
    unfold anchorEscape?
    split <;> first | rfl | exact absurd rfl (hne _ (by decide))
  have hcategory : categoryEscape? c = none := by
    unfold categoryEscape?
    split <;> first | rfl | exact absurd rfl (hne _ (by decide))
  by_cases hback : c = '\\'
  · rw [hback]
    rfl
  · have hcontrol : controlEscape? c = none := by
      unfold controlEscape?
      split <;> first | rfl | exact absurd rfl hback | exact absurd rfl (hne _ (by decide))
    have hkind : c.isDigit = false ∧ c.isAlpha = false := by
      rw [Char.isAlphanum, Bool.or_eq_false_iff] at hc
      exact hc.symm
    simp only [escape, hanchor, hcategory, hcontrol, hkind, hne 'x' (by decide),
      hne 'u' (by decide), hne 'U' (by decide), hne 'N' (by decide), hne '0' (by decide), if_false,
      Bool.false_eq_true]
    rfl

theorem escape_category {c : Char} {item : SetItem} (hc : categoryEscape? c = some item)
    (s : ReadState) :
    (escape (.scalar c)).run s = .ok (.atom (.set false [item]), s) := by
  unfold categoryEscape? at hc
  split at hc <;> cases hc <;> rfl

theorem itemsAfter_escape {p : CodePoint} {item : Node} {s : ReadState}
    (h : (escape p).run s = .ok (item, s)) (here : Nat) (items : List Node) :
    (itemsAfter false here [.scalar '\\', p] items).run s = .ok (item :: items, s) := by
  show (escape p >>= _).run s = _
  rw [run_bind_ok h]
  rfl

theorem setMembers_single {c : Char} (hc : CodePoint.scalar c ≠ .scalar '\\') (here n : Nat)
    {s : ReadState} {r : Text} (hs : s.rest = .scalar c :: .scalar ']' :: r)
    (hr : r ≠ [.scalar '\\']) :
    (setMembers here (n + 2) []).run s =
      .ok ([.single c.toNat], passed (passed s [.scalar c] (.scalar ']' :: r)) [.scalar ']']
        r) := by
  have hmember : setMember [.scalar c] = pure (.single c.toNat) := by
    unfold setMember
    split
    · rename_i h
      exact absurd (List.cons.inj h).2 nofun
    · rename_i h
      rw [← (List.cons.inj h).1]
      rfl
    · rename_i h
      exact absurd h nofun
  rw [setMembers, run_bind_ok (next_cons hs hc (by simp))]
  show (if _ then _ else _ : Reader (List SetItem)).run _ = _
  rw [if_neg (by simp), hmember, pure_bind,
    run_bind_ok (accept_other (by simp [passed]) (by decide))]
  show (setMembers here (n + 1) [.single c.toNat]).run _ = _
  rw [setMembers, run_bind_ok (next_cons (r := r) (by rfl) (by decide) hr)]
  rfl

theorem itemsAfter_notLiteral {c : Char} (hc : CodePoint.scalar c ≠ .scalar '\\') (here : Nat)
    (items : List Node) {s : ReadState} {r : Text}
    (hs : s.rest = [.scalar '^', .scalar c, .scalar ']'] ++ r) (hr : r ≠ [.scalar '\\']) :
    (itemsAfter false here [.scalar '['] items).run s =
      .ok (.atom (.notLiteral c.toNat) :: items,
        passed s [.scalar '^', .scalar c, .scalar ']'] r) := by
  show (characterSet >>= _).run s = _
  have hset : characterSet.run s =
      .ok (.atom (.notLiteral c.toNat), passed s [.scalar '^', .scalar c, .scalar ']'] r) := by
    rw [characterSet, run_get_bind, run_bind_ok (accept_same hs (by decide) (by simp)),
      run_get_bind]
    show (setMembers _ (r.length + 1 + 2) [] >>= _).run _ = _
    rw [run_bind_ok (setMembers_single hc _ _ rfl hr)]
    rfl
  rw [run_bind_ok hset]
  rfl

theorem repetition_ok {item : Node} (hitem : repeatable item = true) {s : ReadState}
    (hs : Unsigned s.rest) (here lo : Nat) (hi : Option Nat) (items : List Node) :
    (repetition here lo hi (item :: items)).run s =
      .ok (item.repeated .greedy lo hi :: items, s) := by
  have htail : (do
      if ← accept '?' then return item.repeated .lazy lo hi :: items
      else if ← accept '+' then return item.repeated .possessive lo hi :: items
      else return item.repeated .greedy lo hi :: items : Reader (List Node)).run s =
        .ok (item.repeated .greedy lo hi :: items, s) := by
    rw [run_bind_ok (accept_other hs.1 (by decide))]
    show (accept '+' >>= _).run s = _
    rw [run_bind_ok (accept_other hs.2 (by decide))]
    rfl
  rw [repetition, run_get_bind]
  cases item <;> first | exact htail | exact absurd hitem Bool.false_ne_true

def counts? : Char → Option (Nat × Option Nat)
  | '?' => some (0, some 1)
  | '*' => some (0, none)
  | '+' => some (1, none)
  | _ => none

theorem itemsAfter_repetition {c : Char} {lo : Nat} {hi : Option Nat}
    (hc : counts? c = some (lo, hi)) {item : Node} (hitem : repeatable item = true) {s : ReadState}
    (hs : Unsigned s.rest) (here : Nat) (items : List Node) :
    (itemsAfter false here [.scalar c] (item :: items)).run s =
      .ok (item.repeated .greedy lo hi :: items, s) := by
  rw [← repetition_ok hitem hs here lo hi items]
  unfold counts? at hc
  split at hc <;> cases hc <;> rfl

section Sequence

variable {s s' : ReadState} {r : Text} {first : Bool} {n : Nat} {items : List Node}

/-- The places where a sequence ends. -/
def Stops (t : Text) : Prop := t = [] ∨ t.head? = some (.scalar ')') ∨ t.head? = some (.scalar '|')

theorem sequence_stop (h : Stops s.rest) :
    (sequence false first (n + 1) items).run s = .ok (Node.ofList items.reverse, s) := by
  rw [sequence]
  rcases hs : s.rest with _ | ⟨p, r⟩
  · rw [run_bind_ok (peek_nil hs)]
    rfl
  · rw [Stops, hs, List.head?_cons, Option.some_inj, Option.some_inj] at h
    rcases h with h | rfl | rfl
    · contradiction
    · rw [run_bind_ok (peek_cons hs (by decide))]
      rfl
    · rw [run_bind_ok (peek_cons hs (by decide))]
      rfl

/-- A token that neither opens a group nor ends anything. -/
structure Inner (token : Text) : Prop where
  ne_bar : token ≠ Text.ofString "|"
  ne_close : token ≠ Text.ofString ")"
  ne_open : token ≠ Text.ofString "("

theorem Inner.single {p : CodePoint} (hbar : p ≠ .scalar '|') (hclose : p ≠ .scalar ')')
    (hopen : p ≠ .scalar '(') :
    Inner [p] :=
  ⟨fun h => hbar (List.cons.inj h).1, fun h => hclose (List.cons.inj h).1, fun h =>
    hopen (List.cons.inj h).1⟩

theorem Inner.escape (p : CodePoint) : Inner [.scalar '\\', p] :=
  ⟨fun h => List.cons_ne_nil _ _ (List.cons.inj h).2, fun h =>
    List.cons_ne_nil _ _ (List.cons.inj h).2,
    fun h => List.cons_ne_nil _ _ (List.cons.inj h).2⟩

theorem sequence_token {token : Text} {items' : List Node}
    (hpeek : peek.run s = .ok (some token, s)) (htoken : Inner token) (hs : s.rest = token ++ r)
    (hr : r ≠ [.scalar '\\'])
    (hitems : (itemsAfter false (passed s token r).pos token items).run (passed s token r) =
      .ok (items', s')) :
    (sequence false first (n + 1) items).run s = (sequence false first n items').run s' := by
  have hstop : ¬ (token = Text.ofString "|" ∨ token = Text.ofString ")") :=
    not_or.mpr ⟨htoken.ne_bar, htoken.ne_close⟩
  rw [sequence, run_bind_ok hpeek]
  show (if _ then _ else _ : Reader Node).run s = _
  rw [if_neg hstop, run_bind_ok (next_ok hpeek hs hr), run_get_bind]
  show (if _ then _ else _ : Reader Node).run _ = _
  rw [if_neg htoken.ne_open]
  exact run_bind_ok hitems

end Sequence

/-- What may follow an item: no second sign of repetition, and no backslash that ends the
pattern. -/
structure Follows (t : Text) : Prop where
  unsigned : Unsigned t
  ne_backslash : t ≠ [.scalar '\\']

theorem Follows.cons {p : CodePoint} (hoptional : p ≠ .scalar '?') (hmore : p ≠ .scalar '+')
    (hback : p ≠ .scalar '\\') (r : Text) : Follows (p :: r) where
  unsigned := ⟨by simpa using hoptional, by simpa using hmore⟩
  ne_backslash := fun h => hback (List.cons.inj h).1

theorem Follows.escape (p : CodePoint) (r : Text) : Follows (.scalar '\\' :: p :: r) where
  unsigned := ⟨by simp, by simp⟩
  ne_backslash := fun h => List.cons_ne_nil p r (List.cons.inj h).2

theorem Stops.follows {t : Text} (h : Stops t) : Follows t := by
  rcases t with _ | ⟨p, r⟩
  · exact ⟨⟨nofun, nofun⟩, nofun⟩
  · rw [Stops, List.head?_cons, Option.some_inj, Option.some_inj] at h
    rcases h with h | rfl | rfl
    · contradiction
    · exact .cons (by decide) (by decide) (by decide) r
    · exact .cons (by decide) (by decide) (by decide) r

/-- What reading leaves alone, and where it has come to. -/
structure Reaches (s : ReadState) (rest : Text) (groups : Nat) (s' : ReadState) : Prop where
  rest_eq : s'.rest = rest
  flags_eq : s'.flags = s.flags
  conditions_eq : s'.conditions = s.conditions
  size_eq : s'.widths.size = groups

theorem Reaches.passed {s : ReadState} {g : Nat} (hg : s.widths.size = g) (token rest : Text) :
    Reaches s rest g (passed s token rest) :=
  ⟨rfl, rfl, rfl, hg⟩

theorem Reaches.trans {s s' s'' : ReadState} {r r' : Text} {g g' : Nat} (h : Reaches s r g s')
    (h' : Reaches s' r' g' s'') : Reaches s r' g' s'' :=
  ⟨h'.rest_eq, h'.flags_eq.trans h.flags_eq, h'.conditions_eq.trans h.conditions_eq, h'.size_eq⟩

/-! ## Groups -/

section Groups

variable {s s' : ReadState} {t r : Text} {first : Bool} {m g g' : Nat} {items : List Node}
  {body : Node}

theorem opening_capture (hs : s.rest.head? ≠ some (.scalar '?')) (start : Nat) (early : Bool) :
    (opening start early).run s = .ok (.capture none, s) := by
  rw [opening, run_bind_ok (accept_other hs (by decide))]
  rfl

theorem opening_plain (hs : s.rest = .scalar '?' :: .scalar ':' :: r) (hg : s.widths.size = g)
    (hr : r ≠ [.scalar '\\']) :
    ∃ s', Reaches s r g s' ∧
      ∀ start early, (opening start early).run s = .ok (.plain [] [], s') := by
  refine ⟨passed (passed s [.scalar '?'] (.scalar ':' :: r)) [.scalar ':'] r, ⟨rfl, rfl, rfl, hg⟩,
    fun start early => ?_⟩
  rw [opening, run_bind_ok (accept_same hs (by decide) (by simp))]
  show (next >>= _).run _ = _
  rw [run_bind_ok (next_cons (r := r) rfl (by decide) hr)]
  rfl

def opened (s : ReadState) : ReadState := { s with widths := s.widths.push none }

def closed (s : ReadState) (number : Nat) (body : Node) : ReadState :=
  { s with
    widths := s.widths.setIfInBounds number
      (some (body.width fun n => (s.widths.getD n none).getD (0, 0))) }

theorem openGroup_none (s : ReadState) : (openGroup none).run s = .ok (s.widths.size, opened s) :=
  rfl

theorem closeParenthesis_ok (hs : s.rest = .scalar ')' :: r) (hr : r ≠ [.scalar '\\'])
    (start : Nat) :
    (closeParenthesis start).run s = .ok ((), passed s [.scalar ')'] r) := by
  rw [closeParenthesis, run_bind_ok (accept_same hs (by decide) hr)]
  rfl

theorem sequence_capture (hs : s.rest = .scalar '(' :: (t ++ .scalar ')' :: r))
    (hg : s.widths.size = g) (ht : Follows (t ++ .scalar ')' :: r)) (hr : r ≠ [.scalar '\\'])
    (hbody : ∀ s, s.rest = t ++ .scalar ')' :: r → s.widths.size = g + 1 →
      ∃ s', Reaches s (.scalar ')' :: r) g' s' ∧
      (alternatives false false m []).run s = .ok (body, s')) :
    ∃ s', Reaches s r g' s' ∧
      (sequence false first (m + 1) items).run s =
        (sequence false first m (.group g body :: items)).run s' := by
  have hopen := opening_capture (s := passed s [.scalar '('] (t ++ .scalar ')' :: r)) ht.unsigned.1
  obtain ⟨s', hs', hrun⟩ := hbody (opened (passed s [.scalar '('] (t ++ .scalar ')' :: r))) rfl
    (by rw [opened, Array.size_push]; exact congrArg (· + 1) hg)
  refine ⟨closed (passed s' [.scalar ')'] r) g body, ⟨rfl, hs'.flags_eq, hs'.conditions_eq, ?_⟩, ?_⟩
  · rw [closed, Array.size_setIfInBounds]
    exact hs'.size_eq
  · rw [sequence, run_bind_ok (peek_cons hs (by decide))]
    show (if _ then _ else _ : Reader Node).run s = _
    rw [if_neg (by decide), run_bind_ok (next_cons hs (by decide) ht.ne_backslash), run_get_bind]
    show (if _ then _ else _ : Reader Node).run _ = _
    rw [if_pos (by decide), run_bind_ok (hopen _ _)]
    show (openGroup none >>= _).run _ = _
    rw [run_bind_ok (openGroup_none _), run_bind_ok hrun,
      run_bind_ok (closeParenthesis_ok hs'.rest_eq hr _), ← hg]
    rfl

theorem sequence_plain
    (hs : s.rest = .scalar '(' :: .scalar '?' :: .scalar ':' :: (t ++ .scalar ')' :: r))
    (hg : s.widths.size = g) (ht : Follows (t ++ .scalar ')' :: r)) (hr : r ≠ [.scalar '\\'])
    (hbody : ∀ s, s.rest = t ++ .scalar ')' :: r → s.widths.size = g →
      ∃ s', Reaches s (.scalar ')' :: r) g' s' ∧
      (alternatives false false m []).run s = .ok (body, s')) :
    ∃ s', Reaches s r g' s' ∧
      (sequence false first (m + 1) items).run s =
        (sequence false first m (.scoped [] [] body :: items)).run s' := by
  obtain ⟨s₁, hs₁, hopen⟩ :=
    opening_plain
      (s := passed s [.scalar '('] (.scalar '?' :: .scalar ':' :: (t ++ .scalar ')' :: r))) rfl hg
        ht.ne_backslash
  obtain ⟨s', hs', hrun⟩ := hbody s₁ hs₁.rest_eq hs₁.size_eq
  refine ⟨passed s' [.scalar ')'] r, ?_, ?_⟩
  · exact ((Reaches.passed hg _ _).trans (hs₁.trans hs')).trans (.passed hs'.size_eq _ _)
  · rw [sequence, run_bind_ok (peek_cons hs (by decide))]
    show (if _ then _ else _ : Reader Node).run s = _
    rw [if_neg (by decide), run_bind_ok (next_cons hs (by decide) (by simp)), run_get_bind]
    show (if _ then _ else _ : Reader Node).run _ = _
    rw [if_pos (by decide), run_bind_ok (hopen _ _)]
    show (alternatives false false m [] >>= _).run _ = _
    rw [run_bind_ok hrun, run_bind_ok (closeParenthesis_ok hs'.rest_eq hr _)]

end Groups

/-! ## Spellings

Each lemma below takes one way to write a part of a pattern and says what is read there, given what
is read in its parts.  The fuel never runs out: twice the length of the text is enough. -/

/-- The text `t` is read as the item `n`, whatever follows it, and its groups get the numbers from
`g` up to `g'`. -/
structure SpellsItem (g : Nat) (t : Text) (n : Node) (g' : Nat) : Prop where
  follows (r : Text) : Follows (t ++ r)
  reads {s : ReadState} {r : Text} {fuel : Nat} (first : Bool) (items : List Node)
    (hs : s.rest = t ++ r) (hg : s.widths.size = g) (hr : r ≠ [.scalar '\\'])
    (hn : repeatable n = false → Unsigned r) (hf : 2 * t.length + 1 ≤ fuel) :
    ∃ fuel' s', fuel ≤ fuel' + t.length ∧ Reaches s r g' s' ∧
      (sequence false first fuel items).run s = (sequence false first fuel' (n :: items)).run s'

/-- The text `t` is read as the items `ns` where a sequence ends behind it. -/
structure SpellsItems (g : Nat) (t : Text) (ns : List Node) (g' : Nat) : Prop where
  follows {r : Text} (hr : Stops r) : Follows (t ++ r)
  reads {s : ReadState} {r : Text} {fuel : Nat} (first : Bool) (items : List Node)
    (hs : s.rest = t ++ r) (hg : s.widths.size = g) (hr : Stops r) (hf : 2 * t.length + 1 ≤ fuel) :
    ∃ s', Reaches s r g' s' ∧
      (sequence false first fuel items).run s = .ok (Node.ofList (items.reverse ++ ns), s')

/-- The text `t` is read as the alternatives `ns` where a group or the pattern ends behind it. -/
structure SpellsChoices (g : Nat) (t : Text) (ns : List Node) (g' : Nat) : Prop where
  follows {r : Text} (hr : Stops r) : Follows (t ++ r)
  reads {s : ReadState} {r : Text} {fuel : Nat} (top : Bool) (done : List Node)
    (hs : s.rest = t ++ r) (hg : s.widths.size = g) (hr : r = [] ∨ r.head? = some (.scalar ')'))
    (hv : top = true → s.flags.contains .verbose = false) (hf : 2 * t.length + 2 ≤ fuel) :
    ∃ s', Reaches s r g' s' ∧
      (alternatives false top fuel done).run s = .ok (Node.ofAlternatives (done ++ ns), s')

section Spellings

variable {g g' g'' : Nat} {t u : Text} {n : Node} {ns ms : List Node}

theorem SpellsItem.token
    (hpeek : ∀ (s : ReadState) (r : Text), s.rest = t ++ r → peek.run s = .ok (some t, s))
    (ht : Inner t) (hfollows : ∀ r, Follows (t ++ r)) (hpos : 1 ≤ t.length)
    (hitems : ∀ here items s, (itemsAfter false here t items).run s = .ok (n :: items, s)) :
    SpellsItem g t n g where
  follows := hfollows
  reads {s r fuel} first items hs hg hr _ hf := by
    obtain ⟨m, rfl⟩ : ∃ m, fuel = m + 1 := ⟨fuel - 1, by omega⟩
    exact ⟨m, passed s t r, by omega, .passed hg t r,
      sequence_token (hpeek s r hs) ht hs hr (hitems _ items _)⟩

/-- The signs that are no items: they escape, open or end something, or belong to the item
before. -/
def marks : List Char := ['\\', '|', ')', '(', '?', '+']

theorem SpellsItem.single {p : CodePoint} (hp : ∀ c ∈ marks, p ≠ .scalar c)
    (hitems : ∀ here items s, (itemsAfter false here [p] items).run s = .ok (n :: items, s)) :
    SpellsItem g [p] n g :=
  .token (fun _ _ hs => peek_cons hs (hp _ (by decide)))
    (.single (hp _ (by decide)) (hp _ (by decide)) (hp _ (by decide)))
    (.cons (hp _ (by decide)) (hp _ (by decide)) (hp _ (by decide))) (Nat.le_refl 1) hitems

theorem SpellsItem.literal {p : CodePoint} (hp : p.test signs.contains = false) :
    SpellsItem g [p] (.atom (.literal p.toNat)) g := by
  have hmarks : marks.all signs.contains = true := by decide
  refine .single (fun c hc => ne_of_test hp ?_) (itemsAfter_literal hp)
  exact List.contains_iff_mem.mp (List.all_eq_true.mp hmarks c hc)

theorem SpellsItem.escape {c : Char} (hc : c.isAlphanum = false) :
    SpellsItem g [.scalar '\\', .scalar c] (.atom (.literal c.toNat)) g :=
  .token (fun _ _ hs => peek_escape hs) (.escape _) (.escape _) (by simp)
    (fun here items s => itemsAfter_escape (escape_self hc s) here items)

theorem SpellsItem.category {c : Char} {item : SetItem} (hc : categoryEscape? c = some item) :
    SpellsItem g [.scalar '\\', .scalar c] (.atom (.set false [item])) g :=
  .token (fun _ _ hs => peek_escape hs) (.escape _) (.escape _) (by simp)
    (fun here items s => itemsAfter_escape (escape_category hc s) here items)

theorem SpellsItem.any : SpellsItem g [.scalar '.'] (.atom .any) g :=
  .single (fun _ => ne_of_test rfl) (fun _ _ _ => rfl)

theorem SpellsItem.lineStart : SpellsItem g [.scalar '^'] (.anchor .lineStart) g :=
  .single (fun _ => ne_of_test rfl) (fun _ _ _ => rfl)

theorem SpellsItem.lineEnd : SpellsItem g [.scalar '$'] (.anchor .lineEnd) g :=
  .single (fun _ => ne_of_test rfl) (fun _ _ _ => rfl)

theorem SpellsItem.notLiteral {c : Char} (hc : CodePoint.scalar c ≠ .scalar '\\') :
    SpellsItem g [.scalar '[', .scalar '^', .scalar c, .scalar ']'] (.atom (.notLiteral c.toNat)) g
      where
  follows r := .cons (by decide) (by decide) (by decide) _
  reads {s r fuel} first items hs hg hr _ hf := by
    obtain ⟨m, rfl⟩ : ∃ m, fuel = m + 1 := ⟨fuel - 1, by omega⟩
    have hs' : s.rest = [.scalar '['] ++ ([.scalar '^', .scalar c, .scalar ']'] ++ r) := hs
    refine ⟨m, passed (passed s [.scalar '['] ([.scalar '^', .scalar c, .scalar ']'] ++ r))
      [.scalar '^', .scalar c, .scalar ']'] r, by simp, ⟨rfl, rfl, rfl, hg⟩, ?_⟩
    exact sequence_token (peek_cons hs (by decide)) (.single (by decide) (by decide) (by decide))
      hs' (by simp)
      (itemsAfter_notLiteral hc _ items rfl hr)

theorem inner_of_counts {c : Char} {lo : Nat} {hi : Option Nat} (hc : counts? c = some (lo, hi)) :
    Inner [.scalar c] ∧ CodePoint.scalar c ≠ .scalar '\\' := by
  unfold counts? at hc
  split at hc
  · exact ⟨.single (by decide) (by decide) (by decide), by decide⟩
  · exact ⟨.single (by decide) (by decide) (by decide), by decide⟩
  · exact ⟨.single (by decide) (by decide) (by decide), by decide⟩
  · cases hc

theorem SpellsItem.repeated {c : Char} {lo : Nat} {hi : Option Nat} (h : SpellsItem g t n g')
    (hn : repeatable n = true) (hc : counts? c = some (lo, hi)) :
    SpellsItem g (t ++ [.scalar c]) (n.repeated .greedy lo hi) g' where
  follows r := by
    rw [List.append_assoc]
    exact h.follows _
  reads {s r fuel} first items hs hg hr hunsigned hf := by
    rw [List.append_assoc] at hs
    rw [List.length_append, List.length_singleton] at hf ⊢
    obtain ⟨hinner, hback⟩ := inner_of_counts hc
    have hrepeated : repeatable (n.repeated .greedy lo hi) = false := by
      unfold Node.repeated
      split <;> rfl
    -- the item is read first, whatever stands behind it, and then the sign
    obtain ⟨fuel', s', hle, hs', hrun⟩ :=
      h.reads first items hs hg (fun he => hback (List.cons.inj he).1)
        (fun he => absurd (hn.symm.trans he) (by decide)) (show 2 * t.length + 1 ≤ fuel by omega)
    obtain ⟨m, rfl⟩ : ∃ m, fuel' = m + 1 := ⟨fuel' - 1, by omega⟩
    refine ⟨m, passed s' [.scalar c] r,
      by omega, hs'.trans (.passed hs'.size_eq _ r), hrun.trans ?_⟩
    exact sequence_token (peek_cons hs'.rest_eq hback) hinner hs'.rest_eq hr
      (itemsAfter_repetition hc hn (hunsigned hrepeated) _ items)

theorem SpellsItem.capture (h : SpellsChoices (g + 1) t ns g') :
    SpellsItem g (.scalar '(' :: (t ++ [.scalar ')'])) (.group g (Node.ofAlternatives ns)) g' where
  follows r := .cons (by decide) (by decide) (by decide) _
  reads {s r fuel} first items hs hg hr _ hf := by
    rw [List.length_cons, List.length_append, List.length_singleton] at hf ⊢
    obtain ⟨m, rfl⟩ : ∃ m, fuel = m + 1 := ⟨fuel - 1, by omega⟩
    rw [List.cons_append, List.append_assoc, List.singleton_append] at hs
    obtain ⟨s', hreach, hrun⟩ := sequence_capture hs hg (h.follows (.inr (.inl rfl))) hr
      (fun s hs hg => h.reads false [] hs hg (.inr rfl) nofun (show _ ≤ m by omega))
    exact ⟨m, s', by omega, hreach, hrun⟩

theorem SpellsItem.plain (h : SpellsChoices g t ns g') :
    SpellsItem g (.scalar '(' :: .scalar '?' :: .scalar ':' :: (t ++ [.scalar ')']))
      (.scoped [] [] (Node.ofAlternatives ns)) g' where
  follows r := .cons (by decide) (by decide) (by decide) _
  reads {s r fuel} first items hs hg hr _ hf := by
    simp only [List.length_cons, List.length_append, List.length_nil] at hf ⊢
    obtain ⟨m, rfl⟩ : ∃ m, fuel = m + 1 := ⟨fuel - 1, by omega⟩
    simp only [List.cons_append, List.append_assoc, List.nil_append] at hs
    obtain ⟨s', hreach, hrun⟩ := sequence_plain hs hg (h.follows (.inr (.inl rfl))) hr
      (fun s hs hg => h.reads false [] hs hg (.inr rfl) nofun (show _ ≤ m by omega))
    exact ⟨m, s', by omega, hreach, hrun⟩

theorem SpellsItems.nil : SpellsItems g [] [] g where
  follows hr := hr.follows
  reads {s r fuel} first items hs hg hr hf := by
    obtain ⟨m, rfl⟩ : ∃ m, fuel = m + 1 := ⟨fuel - 1, by omega⟩
    refine ⟨s, ⟨hs, rfl, rfl, hg⟩, ?_⟩
    rw [sequence_stop (by rw [hs]; exact hr), List.append_nil]

theorem SpellsItems.cons (hn : SpellsItem g t n g') (hns : SpellsItems g' u ns g'') :
    SpellsItems g (t ++ u) (n :: ns) g'' where
  follows hr := by
    rw [List.append_assoc]
    exact hn.follows _
  reads {s r fuel} first items hs hg hr hf := by
    rw [List.append_assoc] at hs
    rw [List.length_append] at hf
    have hfollows := hns.follows hr
    obtain ⟨fuel', s', hle, hs', hrun⟩ := hn.reads first items hs hg hfollows.ne_backslash
      (fun _ => hfollows.unsigned) (show _ ≤ fuel by omega)
    obtain ⟨s'', hs'', hrun'⟩ :=
      hns.reads first (n :: items) hs'.rest_eq hs'.size_eq hr (show _ ≤ fuel' by omega)
    refine ⟨s'', hs'.trans hs'', ?_⟩
    rw [hrun, hrun', List.reverse_cons, List.append_assoc, List.singleton_append]

theorem SpellsChoices.last (h : SpellsItems g t ns g') : SpellsChoices g t [Node.ofList ns] g' where
  follows hr := h.follows hr
  reads {s r fuel} top done hs hg hr hv hf := by
    obtain ⟨m, rfl⟩ : ∃ m, fuel = m + 1 := ⟨fuel - 1, by omega⟩
    obtain ⟨s', hs', hrun⟩ := h.reads (top && done.isEmpty) [] hs hg (hr.imp_right .inl)
      (show 2 * t.length + 1 ≤ m by omega)
    have hbar : s'.rest.head? ≠ some (.scalar '|') := by
      rw [hs'.rest_eq]
      rcases hr with rfl | hr
      · nofun
      · rw [hr]
        decide
    refine ⟨s', hs', ?_⟩
    rw [alternatives, run_bind_ok hrun, run_bind_ok (accept_other hbar (by decide))]
    rfl

theorem SpellsChoices.more (h : SpellsItems g t ns g') (hmore : SpellsChoices g' u ms g'') :
    SpellsChoices g (t ++ .scalar '|' :: u) (Node.ofList ns :: ms) g'' where
  follows hr := by
    rw [List.append_assoc]
    exact h.follows (.inr (.inr rfl))
  reads {s r fuel} top done hs hg hr hv hf := by
    obtain ⟨m, rfl⟩ : ∃ m, fuel = m + 1 := ⟨fuel - 1, by omega⟩
    rw [List.length_append, List.length_cons] at hf
    rw [List.append_assoc, List.cons_append] at hs
    have hu : u ++ r ≠ [.scalar '\\'] := (hmore.follows (hr.imp_right .inl)).ne_backslash
    obtain ⟨s', hs', hrun⟩ := h.reads (top && done.isEmpty) [] hs hg (.inr (.inr rfl))
      (show 2 * t.length + 1 ≤ m by omega)
    have hv' : top = true → s'.flags.contains .verbose = false := fun htop => by
      rw [hs'.flags_eq]
      exact hv htop
    have hverbose : (if top then s'.flags.contains .verbose else false) = false := by
      cases top with
      | false => rfl
      | true => exact hv' rfl
    obtain ⟨s'', hs'', hrun'⟩ :=
      hmore.reads (s := passed s' [.scalar '|'] (u ++ r)) top (done ++ [Node.ofList ns])
        rfl hs'.size_eq hr hv' (show _ ≤ m by omega)
    refine ⟨s'', (hs'.trans (.passed hs'.size_eq [.scalar '|'] (u ++ r))).trans hs'', ?_⟩
    rw [alternatives, run_bind_ok hrun, run_bind_ok (accept_same hs'.rest_eq (by decide) hu)]
    show (alternatives (if top then s'.flags.contains .verbose else false) top m
      (done ++ [Node.ofList ns])).run _ = _
    rw [hverbose, hrun', List.append_assoc]
    rfl

end Spellings

end Reader

open Reader in
/-- A pattern whose spelling is known is read as such. -/
theorem Pattern.parse_eq {t : Text} {ns : List Node} {g : Nat} (h : SpellsChoices 1 t ns g)
    (named? : String → Option Char) (flags : List Flag) (hverbose : flags.contains .verbose = false)
    (hunicode : flags.contains .unicode = false)
    (hcomplaint : (Node.ofAlternatives ns).complaint? (flags.contains .template) = none) :
    Pattern.parse named? t flags =
      .ok { root := Node.ofAlternatives ns, options := Options.adjust {} flags [],
            groups := g - 1 } := by
  have hcheck : t ≠ [.scalar '\\'] := by
    have hfollows := h.follows (r := []) (.inl rfl)
    rw [List.append_nil] at hfollows
    exact hfollows.ne_backslash
  obtain ⟨s, hs, hrun⟩ :=
    h.reads (r := []) (s := .start named? t flags) true [] (List.append_nil t).symm rfl (.inl rfl)
      (fun _ => hverbose) (show _ ≤ 2 * t.length + 3 by omega)
  have hflags : s.flags = flags := hs.flags_eq
  have hwhole : whole.run (.start named? t flags) = .ok (Node.ofAlternatives ns, s) := by
    rw [whole, run_bind_ok (checkNext_ok hcheck), run_get_bind]
    show (alternatives (flags.contains .verbose) true (2 * t.length + 3) [] >>= _).run _ = _
    rw [hverbose, run_bind_ok hrun, run_get_bind, hflags, hunicode, Bool.and_false,
      if_neg Bool.false_ne_true, run_bind_ok (peek_nil hs.rest_eq)]
    rfl
  have hconditions : s.conditions = [] := hs.conditions_eq
  simp only [Pattern.parse, hwhole, bind, Except.bind, hconditions, List.find?_nil, hflags,
    hcomplaint, hs.size_eq, pure, Except.pure]

end Regex
end StepAtlas
