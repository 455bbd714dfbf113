import StepAtlas.Proofs.Pattern.Meaning
import StepAtlas.Proofs.Regex.Ways

/-
What an expression takes out of a text.  Each placeholder gives one argument, and putting the
arguments back in place of the placeholders gives the text again: a number, a word or any other text
as it is, and a quoted word between quotes that it does not hold.

The groups of a match are counted while it is read, three for a quoted or bare word and one for any
other placeholder.  A search that has found its way is taken apart token by token (`Finds`), with
the place before and behind each of them and the group that has caught the argument.
-/

namespace StepAtlas
namespace Expression

open Regex Regex.Node

/-! ## Arguments in a text -/

def between (quote : Char) (u : Text) : Text := .scalar quote :: (u ++ [.scalar quote])

/-- What may stand in a text for an argument of a placeholder: the argument itself, and for a quoted
or bare word also the argument between quotes that it does not hold. -/
def Placeholder.Shows : Placeholder → (argument piece : Text) → Prop
  | .string, u, piece =>
    (.scalar '"' ∉ u ∧ piece = between '"' u) ∨ (.scalar '\'' ∉ u ∧ piece = between '\'' u) ∨
    (Word u ∧ piece = u)
  | h, u, piece => h.Fits u ∧ piece = u

/-- There is one argument for each placeholder, and with the arguments in their places the tokens
make up the text. -/
inductive Refills : List Token → List Text → Text → Prop
  | nil : Refills [] [] []
  | literal {ts : List Token} {us : List Text} {t : Text} (c : CodePoint)
      (hrest : Refills ts us t) :
    Refills (.literal c :: ts) us (c :: t)
  | hole {h : Placeholder} {ts : List Token} {us : List Text} {u piece t : Text}
      (hpiece : h.Shows u piece)
    (hrest : Refills ts us t) : Refills (.hole h :: ts) (u :: us) (piece ++ t)

theorem Placeholder.Shows.fits {h : Placeholder} {u piece : Text} (hs : h.Shows u piece) :
    h.Fits piece := by
  cases h with
  | string =>
    rcases hs with ⟨hu, rfl⟩ | ⟨hu, rfl⟩ | ⟨hu, rfl⟩
    · exact .inl ⟨u, hu, rfl⟩
    · exact .inr (.inl ⟨u, hu, rfl⟩)
    · exact .inr (.inr hu)
  | _ =>
    obtain ⟨hu, rfl⟩ := hs
    exact hu

theorem Refills.covers {ts : List Token} {us : List Text} {t : Text} (h : Refills ts us t) :
    Covers ts t := by
  induction h with
  | nil => exact covers_nil.mpr rfl
  | @literal ts us t c _ ih =>
    obtain ⟨pieces, rfl, hfits⟩ := ih
    exact ⟨[c] :: pieces, rfl, .cons rfl hfits⟩
  | @hole h ts us u piece t hpiece _ ih =>
    obtain ⟨pieces, rfl, hfits⟩ := ih
    exact ⟨piece :: pieces, rfl, .cons hpiece.fits hfits⟩

/-! ## The ways of a placeholder -/

def rowLengths (a : Atom) (lo : Nat) (hi : Option Nat) (t : Text) : List Nat :=
  down lo (runLength options a hi t)

def digitLengths : Text → List Nat := rowLengths (.set false [.category .digit false]) 1 none

def signLengths : Text → List Nat := rowLengths (.literal '-'.toNat) 0 (some 1)

def wordLengths : Text → List Nat := rowLengths (.set false [.category .space true]) 1 none

def literalLengths (c : Char) (t : Text) : List Nat :=
  if t.head?.any (fun p => (Atom.literal c.toNat).accepts options p) then [1] else []

def fractionLengths (t : Text) : List Nat := thenLengths (literalLengths '.') digitLengths t ++ [0]

def Placeholder.lengths : Placeholder → Text → List Nat
  | .int => thenLengths signLengths digitLengths
  | .float => thenLengths signLengths (thenLengths digitLengths fractionLengths)
  | .word | .string => wordLengths
  | .anything => rowLengths .any 1 none

def quotedWays (quote : Char) (group : Nat) (p : Place) : List Place :=
  ((literalLengths quote p.ahead).map p.skip).flatMap fun p =>
    (caughtWays group (rowLengths (.notLiteral quote.toNat) 0 none) p).flatMap fun p =>
      (literalLengths quote p.ahead).map p.skip

def Placeholder.ways (group : Nat) : Placeholder → Place → List Place
  | .string, p =>
    quotedWays '"' group p ++
      (quotedWays '\'' (group + 1) p ++ caughtWays (group + 2) wordLengths p)
  | h, p => caughtWays group h.lengths p

theorem strides_row (a : Atom) (lo : Nat) (hi : Option Nat) :
    Strides options (.repeatAtom .greedy lo hi a) (rowLengths a lo hi) :=
  strides_repeatAtom options a lo hi

theorem strides_literal (c : Char) :
    Strides options (.atom (.literal c.toNat)) (literalLengths c) :=
  strides_atom options _

theorem strides_whole : Strides options (.seq sign digits) (Placeholder.lengths .int) :=
  (strides_row _ _ _).seq (strides_row _ _ _)

theorem strides_fraction :
    Strides options
      (.loop .greedy 0 (some 1) (.scoped [] [] (.seq (.atom (.literal '.'.toNat)) digits)))
      fractionLengths :=
  Strides.optional (Goes.scoped ((strides_literal '.').seq (strides_row _ _ _)))

theorem strides_decimal :
    Strides options (.seq sign (.seq digits (.loop .greedy 0 (some 1)
      (.scoped [] [] (.seq (.atom (.literal '.'.toNat)) digits))))) (Placeholder.lengths .float) :=
  (strides_row _ _ _).seq ((strides_row _ _ _).seq strides_fraction)

theorem goes_quotedText (quote : Char) (g : Nat) :
    Goes options (quotedText quote g) (quotedWays quote g) :=
  Goes.seq (strides_literal quote) (Goes.seq ((strides_row _ _ _).group g) (strides_literal quote))

theorem Placeholder.goes_node (h : Placeholder) (g : Nat) : Goes options (h.node g) (h.ways g) := by
  cases h with
  | int => exact strides_whole.group g
  | float => exact strides_decimal.group g
  | word => exact (strides_row _ _ _).group g
  | string =>
    exact Goes.scoped ((goes_quotedText '"' g).alt ((goes_quotedText '\'' (g + 1)).alt
      ((strides_row _ _ _).group (g + 2))))
  | anything => exact (strides_row _ _ _).group g

theorem within_row (a : Atom) (lo : Nat) (hi : Option Nat) : Within (rowLengths a lo hi) :=
  within_repeatAtom options a lo hi

theorem mem_literalLengths {c : Char} {t : Text} {n : Nat} :
    n ∈ literalLengths c t ↔ n = 1 ∧ t.head? = some (.scalar c) := by
  have hhead : t.head?.any (fun p => (Atom.literal c.toNat).accepts options p) = true ↔
      t.head? = some (.scalar c) := by
    cases t with
    | nil => simp
    | cons p r =>
      rw [List.head?_cons, Option.any_some, Option.some_inj]
      exact Atom.accepts_literal rfl p (.scalar c)
  rw [literalLengths]
  split
  · simp_all
  · simp_all

theorem within_literal (c : Char) : Within (literalLengths c) := by
  intro t n hn
  obtain ⟨rfl, ht⟩ := mem_literalLengths.mp hn
  cases t with
  | nil => exact absurd ht nofun
  | cons p r => simp

theorem Placeholder.within_lengths (h : Placeholder) : Within h.lengths := by
  have hfraction : Within fractionLengths :=
    Within.optional ((within_literal '.').seq (within_row _ _ _))
  cases h with
  | int => exact (within_row _ _ _).seq (within_row _ _ _)
  | float => exact (within_row _ _ _).seq ((within_row _ _ _).seq hfraction)
  | word => exact within_row _ _ _
  | string => exact within_row _ _ _
  | anything => exact within_row _ _ _

theorem Placeholder.ways_eq {h : Placeholder} (hh : h ≠ .string) (g : Nat) :
    h.ways g = caughtWays g h.lengths := by
  cases h with
  | string => exact absurd rfl hh
  | _ => rfl

/-- A placeholder other than a quoted or bare word tries the lengths of all texts that it stands
for. -/
theorem Placeholder.mem_lengths {h : Placeholder} (hh : h ≠ .string) {t : Text} {n : Nat} :
    n ∈ h.lengths t ↔ n ≤ t.length ∧ h.Fits (t.take n) := by
  have hgoes := h.goes_node 0
  rw [ways_eq hh] at hgoes
  exact mem_lengths_iff hgoes (h.matches_node 0) h.within_lengths

theorem mem_wordLengths {t : Text} {n : Nat} : n ∈ wordLengths t ↔ n ≤ t.length ∧ Word (t.take n) :=
  Placeholder.mem_lengths (h := .word) (by decide)

theorem not_mem_of_mem_row {quote : Char} {t : Text} {n : Nat}
    (hn : n ∈ rowLengths (.notLiteral quote.toNat) 0 none t) :
    n ≤ t.length ∧ .scalar quote ∉ t.take n := by
  have hmatches : Matches options (.group 0 (.repeatAtom .greedy 0 none (.notLiteral quote.toNat)))
      (row (· ≠ .scalar quote) 0 none) :=
    (matches_row (fun p => Atom.accepts_notLiteral rfl p (.scalar quote)) 0 none).group 0
  obtain ⟨hle, hrow⟩ :=
    (mem_lengths_iff ((strides_row _ _ _).group 0) hmatches (within_row _ _ _)).mp hn
  exact ⟨hle, fun hmem => hrow.1 _ hmem rfl⟩

/-! ## What is caught -/

/-- From one place to another, passing a piece of the text. -/
structure Passes (p : Place) (piece : Text) (w : Place) : Prop where
  pos_eq : w.pos = p.pos + piece.length
  behind_eq : w.behind = piece.reverse ++ p.behind
  ahead_eq : p.ahead = piece ++ w.ahead

theorem Passes.skip {p : Place} {n : Nat} (hn : n ≤ p.ahead.length) :
    Passes p (p.ahead.take n) (p.skip n) where
  pos_eq := by rw [List.length_take_of_le hn, Place.skip]
  behind_eq := rfl
  ahead_eq := (List.take_append_drop n p.ahead).symm

theorem Passes.trans {p q w : Place} {s t : Text} (h : Passes p s q) (h' : Passes q t w) :
    Passes p (s ++ t) w where
  pos_eq := by rw [h'.pos_eq, h.pos_eq, List.length_append, Nat.add_assoc]
  behind_eq := by rw [h'.behind_eq, h.behind_eq, List.reverse_append, List.append_assoc]
  ahead_eq := by rw [h.ahead_eq, h'.ahead_eq, List.append_assoc]

theorem Passes.literal {p : Place} {c : Char} {n : Nat} (hn : n ∈ literalLengths c p.ahead) :
    Passes p [.scalar c] (p.skip n) := by
  obtain ⟨rfl, hhead⟩ := mem_literalLengths.mp hn
  obtain ⟨r, hr⟩ := List.head?_eq_some_iff.mp hhead
  have hskip := Passes.skip (p := p) (n := 1) (by simp [hr])
  rwa [hr] at hskip

/-- On the way from `p` to `w` the placeholder catches `u`, in one of its groups and perhaps between
quotes. -/
structure Placeholder.Catches (h : Placeholder) (group : Nat) (p : Place) (u : Text) (w : Place) :
    Prop where
  caught : ∃ left right : Text, ∃ i, i < h.groups ∧ h.Shows u (left ++ u ++ right) ∧
    Passes p (left ++ u ++ right) w ∧
    w.caught = (group + i, p.pos + left.length, p.pos + left.length + u.length) :: p.caught

theorem exists_of_mem_quotedWays {quote : Char} {g : Nat} {p w : Place}
    (hw : w ∈ quotedWays quote g p) :
    ∃ u : Text, .scalar quote ∉ u ∧ Passes p ([.scalar quote] ++ u ++ [.scalar quote]) w ∧
      w.caught = (g, p.pos + 1, p.pos + 1 + u.length) :: p.caught := by
  obtain ⟨p₁, hp₁, hw⟩ := List.mem_flatMap.mp hw
  obtain ⟨n₁, hn₁, rfl⟩ := List.mem_map.mp hp₁
  obtain ⟨p₂, hp₂, hw⟩ := List.mem_flatMap.mp hw
  obtain ⟨n₂, hn₂, rfl⟩ := List.mem_map.mp hp₂
  obtain ⟨n₃, hn₃, rfl⟩ := List.mem_map.mp hw
  obtain ⟨hle, hmem⟩ := not_mem_of_mem_row hn₂
  have hopen := Passes.literal hn₁
  have hinside : Passes (p.skip n₁) ((p.skip n₁).ahead.take n₂)
      (((p.skip n₁).skip n₂).catchGroup g (p.skip n₁).pos) :=
    ⟨(Passes.skip hle).pos_eq, rfl, (Passes.skip hle).ahead_eq⟩
  have hclose := Passes.literal hn₃
  refine ⟨_, hmem, (hopen.trans hinside).trans hclose, ?_⟩
  show (g, p.pos + n₁, p.pos + n₁ + n₂) :: p.caught = _
  rw [List.length_take_of_le hle, (mem_literalLengths.mp hn₁).1]

theorem exists_of_mem_caughtWays {g : Nat} {f : Text → List Nat} {p w : Place}
    (hw : w ∈ caughtWays g f p) :
    ∃ n ∈ f p.ahead, w = (p.skip n).catchGroup g p.pos := by
  obtain ⟨n, hn, rfl⟩ := List.mem_map.mp hw
  exact ⟨n, hn, rfl⟩

theorem Placeholder.catches_bare {h : Placeholder} {g i : Nat} {p : Place} {n : Nat}
    (hi : i < h.groups) (hn : n ≤ p.ahead.length) (hs : h.Shows (p.ahead.take n) (p.ahead.take n)) :
    h.Catches g p (p.ahead.take n) ((p.skip n).catchGroup (g + i) p.pos) := by
  refine ⟨[], [], i, hi, ?_, ?_, ?_⟩
  · simpa using hs
  · rw [List.nil_append, List.append_nil]
    exact ⟨(Passes.skip hn).pos_eq, rfl, (Passes.skip hn).ahead_eq⟩
  · show (g + i, p.pos, p.pos + n) :: p.caught = _
    rw [List.length_take_of_le hn, List.length_nil, Nat.add_zero]

/-- Each way of a placeholder catches an argument. -/
theorem Placeholder.exists_catches (h : Placeholder) {g : Nat} {p w : Place} (hw : w ∈ h.ways g p) :
    ∃ u, h.Catches g p u w := by
  cases h with
  | string =>
    rcases List.mem_append.mp hw with hw | hw
    · obtain ⟨u, hu, hpass, hcaught⟩ := exists_of_mem_quotedWays hw
      exact ⟨u, [.scalar '"'], [.scalar '"'], 0, by decide, .inl ⟨hu, rfl⟩, hpass, hcaught⟩
    rcases List.mem_append.mp hw with hw | hw
    · obtain ⟨u, hu, hpass, hcaught⟩ := exists_of_mem_quotedWays hw
      exact ⟨u, [.scalar '\''], [.scalar '\''], 1, by decide, .inr (.inl ⟨hu, rfl⟩), hpass, hcaught⟩
    · obtain ⟨n, hn, rfl⟩ := exists_of_mem_caughtWays hw
      obtain ⟨hle, hword⟩ := mem_wordLengths.mp hn
      exact ⟨_, catches_bare (i := 2) (by decide) hle (.inr (.inr ⟨hword, rfl⟩))⟩
  | _ =>
    obtain ⟨n, hn, rfl⟩ := exists_of_mem_caughtWays hw
    obtain ⟨hle, hfits⟩ := (mem_lengths (by decide)).mp hn
    exact ⟨_, catches_bare (i := 0) (by decide) hle ⟨hfits, rfl⟩⟩

/-! ## Searches -/

def Token.ways (group : Nat) : Token → Place → List Place
  | .literal c, p => if p.ahead.head? = some c then [p.skip 1] else []
  | .hole h, p => h.ways group p

def found? : (group : Nat) → List Token → Place → Option Place
  | _, [], p => if p.ahead = [] then some p else none
  | g, tok :: ts, p => (tok.ways g p).findSome? (found? (g + tok.groups) ts)

theorem Token.goes_node (tok : Token) (g : Nat) : Goes options (tok.node g) (tok.ways g) := by
  cases tok with
  | hole h => exact h.goes_node g
  | literal c =>
    have hways : Token.ways g (.literal c) = fun p : Place =>
        (if p.ahead.head?.any (fun q => (Atom.literal c.toNat).accepts options q) then [1]
          else []).map p.skip := by
      funext p
      rw [Token.ways]
      cases p.ahead with
      | nil => rfl
      | cons q r =>
        have hiff := Atom.accepts_literal (o := options) rfl q c
        rw [List.head?_cons, Option.any_some]
        by_cases hq : q = c
        · rw [if_pos (congrArg some hq), if_pos (hiff.mpr hq)]
          rfl
        · rw [if_neg (mt Option.some_inj.mp hq), if_neg (mt hiff.mp hq)]
          rfl
    rw [hways]
    exact strides_atom options _

theorem ends_found? (ts : List Token) (g : Nat) :
    Ends (fun s => (Node.ofList (nodesFrom g ts ++ [.anchor .lineEnd])).run options s Pattern.atEnd)
      (found? g ts) := by
  induction ts generalizing g with
  | nil =>
    intro s
    show (if s.holds options .lineEnd then Pattern.atEnd s
        else .error s.entered : Outcome).toOption.map Spot.place =
      if s.ahead = [] then some s.place else none
    cases hs : s.ahead with
    | nil => simp [Spot.holds, Pattern.atEnd, hs, Except.toOption]
    | cons c r =>
      have hend : Pattern.atEnd s = .error s.entered := by simp [Pattern.atEnd, hs]
      rw [hend, ite_self]
      rfl
  | cons tok ts ih =>
    rw [nodesFrom, List.cons_append, ofList_cons (by simp)]
    exact tok.goes_node g _ _ (ih (g + tok.groups))

theorem isSome_found? (ts : List Token) (g : Nat) (p : Place) :
    (found? g ts p).isSome = true ↔ Covers ts p.ahead := by
  let s : Spot :=
    { pos := p.pos, behind := p.behind, ahead := p.ahead, caught := p.caught, entered := 0 }
  have hisOk : ∀ x : Outcome, (x.toOption.map Spot.place).isSome = x.isOk := by
    intro x
    cases x <;> rfl
  rw [show found? g ts p = found? g ts s.place from rfl, ← ends_found? ts g s, hisOk]
  exact takes_nodesFrom ts g s

/-- A search that has come to its end, token by token.  A placeholder has taken one of its ways, and
from the ways before it the rest of the tokens cannot be found. -/
inductive Finds : (group : Nat) → List Token → Place → List Text → Place → Prop
  | nil {g : Nat} {p : Place} (hp : p.ahead = []) : Finds g [] p [] p
  | literal {g : Nat} {c : CodePoint} {ts : List Token} {p w q : Place} {us : List Text}
      (hpass : Passes p [c] w)
    (hcaught : w.caught = p.caught) (hrest : Finds g ts w us q) : Finds g (.literal c :: ts) p us q
  | hole {g : Nat} {h : Placeholder} {ts : List Token} {p w q : Place} {before after : List Place}
      {u : Text}
    {us : List Text} (hways : h.ways g p = before ++ w :: after)
    (hbefore : ∀ w' ∈ before, ¬ Covers ts w'.ahead) (hcatches : h.Catches g p u w)
    (hrest : Finds (g + h.groups) ts w us q) : Finds g (.hole h :: ts) p (u :: us) q

theorem exists_finds {ts : List Token} {g : Nat} {p q : Place} (hfound : found? g ts p = some q) :
    ∃ us, Finds g ts p us q := by
  induction ts generalizing g p with
  | nil =>
    rw [found?] at hfound
    split at hfound
    · rename_i hp
      cases hfound
      exact ⟨[], .nil hp⟩
    · cases hfound
  | cons tok ts ih =>
    obtain ⟨before, w, after, hways, hw, hbefore⟩ := List.findSome?_eq_some_iff.mp hfound
    have hmem : w ∈ tok.ways g p := by simp [hways]
    obtain ⟨us, hus⟩ := ih hw
    cases tok with
    | literal c =>
      rw [Token.ways] at hmem
      split at hmem
      · rename_i hhead
        obtain ⟨r, hr⟩ := List.head?_eq_some_iff.mp hhead
        have hpass := Passes.skip (p := p) (n := 1) (by simp [hr])
        rw [hr] at hpass
        rw [List.mem_singleton.mp hmem] at hus
        exact ⟨us, .literal hpass rfl hus⟩
      · cases hmem
    | hole h =>
      -- From the ways before nothing is found, so the rest of the text does not fit there.
      obtain ⟨u, hu⟩ := h.exists_catches hmem
      refine ⟨u :: us, .hole hways (fun w' hw' hcovers => ?_) hu hus⟩
      have hsome := (isSome_found? ts (g + h.groups) w').mpr hcovers
      rw [show found? (g + h.groups) ts w' = none from hbefore w' hw'] at hsome
      cases hsome

/-! ## From groups to arguments -/

theorem Finds.refills {g : Nat} {ts : List Token} {p q : Place} {us : List Text}
    (h : Finds g ts p us q) :
    Refills ts us p.ahead := by
  induction h with
  | nil hp =>
    rw [hp]
    exact .nil
  | literal hpass _ _ ih =>
    rw [hpass.ahead_eq]
    exact .literal _ ih
  | hole _ _ hcatches _ ih =>
    obtain ⟨left, right, i, -, hshows, hpass, -⟩ := hcatches.caught
    rw [hpass.ahead_eq]
    exact .hole hshows ih

def whole (p : Place) : Text := p.behind.reverse ++ p.ahead

theorem Passes.whole_eq {p w : Place} {piece : Text} (h : Passes p piece w) :
    whole w = whole p := by
  rw [whole, whole, h.behind_eq, h.ahead_eq, List.reverse_append, List.reverse_reverse,
    List.append_assoc]

theorem Passes.length_behind {p w : Place} {piece : Text} (h : Passes p piece w)
    (hpos : p.behind.length = p.pos) :
    w.behind.length = w.pos := by
  rw [h.behind_eq, h.pos_eq, List.length_append, List.length_reverse, hpos, Nat.add_comm]

def text? (p : Place) (number : Nat) : Option Text :=
  (p.caught.lookup number).map fun (start, stop) => ((whole p).drop start).take (stop - start)

theorem Finds.whole_eq {g : Nat} {ts : List Token} {p q : Place} {us : List Text}
    (h : Finds g ts p us q) :
    whole q = whole p := by
  induction h with
  | nil => rfl
  | literal hpass _ _ ih => rw [ih, hpass.whole_eq]
  | hole _ _ hcatches _ ih =>
    obtain ⟨left, right, i, -, -, hpass, -⟩ := hcatches.caught
    rw [ih, hpass.whole_eq]

theorem lookup_cons_of_ne {number other : Nat} (h : number ≠ other) (span : Nat × Nat)
    (caught : List (Nat × Nat × Nat)) :
    List.lookup number ((other, span) :: caught) = caught.lookup number := by
  rw [List.lookup_cons, beq_eq_false_iff_ne.mpr h]

/-- What has been caught before stays. -/
theorem Finds.lookup_eq {g : Nat} {ts : List Token} {p q : Place} {us : List Text}
    (h : Finds g ts p us q) {number : Nat} (hn : number < g) :
    q.caught.lookup number = p.caught.lookup number := by
  induction h with
  | nil => rfl
  | literal _ hcaught _ ih => rw [ih hn, hcaught]
  | hole _ _ hcatches _ ih =>
    obtain ⟨left, right, i, -, -, -, hcaught⟩ := hcatches.caught
    rw [ih (by omega), hcaught, lookup_cons_of_ne (by omega)]

theorem Finds.text?_eq {g : Nat} {ts : List Token} {p q : Place} {us : List Text}
    (h : Finds g ts p us q) {number : Nat} (hn : number < g) : text? q number = text? p number := by
  rw [text?, text?, h.whole_eq, h.lookup_eq hn]

/-- Of the groups of a placeholder just passed, one has caught the argument and the others
nothing. -/
theorem Placeholder.Catches.findSome?_eq {h : Placeholder} {g : Nat} {p w : Place} {u : Text}
    (hc : h.Catches g p u w) (hpos : p.behind.length = p.pos)
    (hfresh : ∀ number, g ≤ number → p.caught.lookup number = none) :
    ((List.range' g h.groups).map (text? w)).findSome? id = some u := by
  obtain ⟨left, right, i, hi, -, hpass, hcaught⟩ := hc.caught
  have hself : text? w (g + i) = some u := by
    have hdrop : (whole w).drop (p.pos + left.length) = u ++ (right ++ w.ahead) := by
      have hwhole : whole w = (p.behind.reverse ++ left) ++ (u ++ (right ++ w.ahead)) := by
        rw [hpass.whole_eq, whole, hpass.ahead_eq]
        simp only [List.append_assoc]
      rw [hwhole]
      exact List.drop_left' (by rw [List.length_append, List.length_reverse, hpos])
    rw [text?, hcaught, List.lookup_cons, beq_self_eq_true]
    show some (((whole w).drop (p.pos + left.length)).take _) = some u
    rw [hdrop, Nat.add_sub_cancel_left, List.take_left]
  have hothers : ∀ j, j < i → text? w (g + j) = none := by
    intro j hj
    rw [text?, hcaught, lookup_cons_of_ne (by omega), hfresh _ (by omega)]
    rfl
  refine List.findSome?_eq_some_iff.mpr ⟨(List.range' g i).map (text? w), some u,
    (List.range' (g + i + 1) (h.groups - (i + 1))).map (text? w), ?_, rfl, ?_⟩
  · obtain ⟨m, hm⟩ : ∃ m, h.groups = i + (1 + m) := ⟨h.groups - (i + 1), by omega⟩
    rw [hm, ← List.range'_append_1, ← List.range'_append_1, List.map_append, List.map_append]
    simp [hself, show i + (1 + m) - (i + 1) = m by omega, Nat.add_assoc]
  · intro x hx
    obtain ⟨number, hnumber, rfl⟩ := List.mem_map.mp hx
    obtain ⟨hlow, hhigh⟩ := List.mem_range'_1.mp hnumber
    obtain ⟨j, rfl⟩ := Nat.exists_eq_add_of_le hlow
    exact hothers j (by omega)

/-- The arguments are read off the groups, and there is one for each placeholder. -/
theorem Finds.argumentsOf_eq {g : Nat} {ts : List Token} {p q : Place} {us : List Text}
    (h : Finds g ts p us q) (hpos : p.behind.length = p.pos)
    (hfresh : ∀ number, g ≤ number → p.caught.lookup number = none) :
    argumentsOf ts ((List.range' g (ts.map Token.groups).sum).map (text? q)) = .ok us := by
  induction h with
  | nil => rfl
  | @literal g c ts p w q us hpass hcaught hrest ih =>
    have hgroups : ((Token.literal c :: ts).map Token.groups).sum = (ts.map Token.groups).sum := by
      rw [List.map_cons, List.sum_cons, Token.groups, Nat.zero_add]
    rw [hgroups, argumentsOf]
    exact ih (hpass.length_behind hpos) (by rwa [hcaught])
  | @hole g h ts p w q before after u us _ _ hcatches hrest ih =>
    obtain ⟨left, right, i, hi, -, hpass, hcaught⟩ := hcatches.caught
    -- The first groups are those of this placeholder, and what they have caught stays so to the
    -- end.
    have hsplit : (List.range' g ((Token.hole h :: ts).map Token.groups).sum).map (text? q) =
        (List.range' g h.groups).map (text? w) ++
          (List.range' (g + h.groups) (ts.map Token.groups).sum).map (text? q) := by
      rw [List.map_cons, List.sum_cons, Token.groups, ← List.range'_append_1, List.map_append]
      refine congrArg (· ++ _) (List.map_congr_left fun number hnumber => ?_)
      exact hrest.text?_eq (List.mem_range'_1.mp hnumber).2
    have hlen : ((List.range' g h.groups).map (text? w)).length = h.groups := by
      rw [List.length_map, List.length_range']
    have hrec := ih (hpass.length_behind hpos)
      (fun number hn => by rw [hcaught, lookup_cons_of_ne (by omega), hfresh number (by omega)])
    rw [argumentsOf, hsplit, List.take_left' hlen, List.drop_left' hlen,
      hcatches.findSome?_eq hpos hfresh]
    show (argumentsOf ts _ >>= _) = _
    rw [hrec]
    rfl

/-! ## Expressions -/

theorem fullMatch_eq (e t : Text) :
    (pattern e).fullMatch t = (found? 1 (tokens e) (Spot.start t).place).map fun q =>
      (List.range' 1 (pattern e).groups).map (text? q) := by
  have htexts : ∀ s, (pattern e).groupTexts s =
      (List.range' 1 (pattern e).groups).map (text? s.place) := by
    intro s
    rw [Pattern.groupTexts, List.range_eq_range', List.range'_eq_map_range,
      List.range'_eq_map_range, List.map_map, List.map_map]
    refine List.map_congr_left fun i _ => ?_
    simp only [Function.comp_apply, Nat.zero_add, Nat.add_comm 1 i]
    rfl
  rw [Pattern.fullMatch, run_root_start, ← ends_found? (tokens e) 1 (Spot.start t), Option.map_map]
  exact congrArg (fun f => Option.map f _) (funext htexts)

theorem exists_finds_of_fullMatch {e t : Text} {groups : List (Option Text)}
    (h : (pattern e).fullMatch t = some groups) :
    ∃ us q, Finds 1 (tokens e) (Spot.start t).place us q ∧
      argumentsOf (tokens e) groups = .ok us := by
  rw [fullMatch_eq] at h
  obtain ⟨q, hq, rfl⟩ := Option.map_eq_some_iff.mp h
  obtain ⟨us, hus⟩ := exists_finds hq
  exact ⟨us, q, hus, hus.argumentsOf_eq rfl (fun _ _ => rfl)⟩

section Definition

variable {matcher : Matcher} {d : Definition} {t : Text}

/-- A match gives arguments, and the search that has found it can be taken apart. -/
theorem exists_arguments (hmode : matcher.mode.allows .expression = true)
    (hkind : d.kind = .expression) (hmatch : d.isMatch matcher t = .ok true) :
    ∃ us q, d.arguments matcher t = .ok (some us) ∧
      Finds 1 (tokens d.pattern) (Spot.start t).place us q := by
  rw [isMatch_eq hmode hkind, Except.ok.injEq] at hmatch
  obtain ⟨groups, hgroups⟩ := Option.isSome_iff_exists.mp hmatch
  obtain ⟨us, q, hus, hargs⟩ := exists_finds_of_fullMatch hgroups
  refine ⟨us, q, ?_, hus⟩
  rw [Definition.arguments, search_eq hmode hkind, hgroups, hkind]
  show (argumentsOf (tokens d.pattern) groups >>= _) = _
  rw [hargs]
  rfl

/-- A definition by an expression takes arguments from exactly the texts that it matches.  Taking
them never fails, and there is one for each placeholder, such that the expression with the arguments
in place of the placeholders is the text. -/
theorem arguments_refill (hmode : matcher.mode.allows .expression = true)
    (hkind : d.kind = .expression) (t : Text) :
    (d.isMatch matcher t = .ok false ∧ d.arguments matcher t = .ok none) ∨
      (d.isMatch matcher t = .ok true ∧
        ∃ us, d.arguments matcher t = .ok (some us) ∧ Refills (tokens d.pattern) us t) := by
  cases hmatch : ((pattern d.pattern).fullMatch t).isSome with
  | false =>
    have hnone := Option.not_isSome_iff_eq_none.mp (Bool.eq_false_iff.mp hmatch)
    left
    rw [Definition.isMatch, Definition.arguments, search_eq hmode hkind, hnone]
    exact ⟨rfl, rfl⟩
  | true =>
    have htrue : d.isMatch matcher t = .ok true := by rw [isMatch_eq hmode hkind, hmatch]
    obtain ⟨us, q, hargs, hfinds⟩ := exists_arguments hmode hkind htrue
    exact .inr ⟨htrue, us, hargs, hfinds.refills⟩

end Definition

theorem arguments_refill_nested :
    nested.arguments ⟨.both, .boundless⟩ "\x7b-12\x7d\\? ('a b')+" =
      .ok (some ["-12", "?", "a b"]) ∧
      Refills (tokens nested.pattern) ["-12", "?", "a b"] "\x7b-12\x7d\\? ('a b')+" := by
  have hrun : nested.arguments ⟨.both, .boundless⟩ "\x7b-12\x7d\\? ('a b')+" =
      .ok (some ["-12", "?", "a b"]) := by decide +kernel
  have hboth : (Matcher.mk .both .boundless).mode.allows .expression = true := rfl
  refine ⟨hrun, ?_⟩
  rcases arguments_refill (d := nested) hboth rfl "\x7b-12\x7d\\? ('a b')+" with ⟨-, hnone⟩
    | ⟨-, us, hsome, hrefills⟩
  · rw [hrun] at hnone
    cases hnone
  · rw [hrun] at hsome
    cases hsome
    exact hrefills

end Expression
end StepAtlas
