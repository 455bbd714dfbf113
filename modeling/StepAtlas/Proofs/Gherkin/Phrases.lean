import Mathlib.Computability.Language
import Mathlib.Order.CompletePartialOrder
import StepAtlas.Gherkin.Reader
import StepAtlas.Proofs.Gherkin.Kinds

/-
The grammar of feature files, apart from any reader.  A document is a sequence of tokens, one for
each line, and the grammar says which sequences are documents, by concatenation, choice and
repetition.  Blank lines and comments may follow every token; a line of a description is one that
could not be anything else that may stand there.

What may follow in a state of the automaton is a set of sequences too.  For each state it is worked
out what the first token of such a sequence can be and what then may follow, which is what the
automaton does with that token.
-/

namespace StepAtlas

/-- Sets of sequences, with concatenation, choice and repetition. -/
abbrev Phrases (α : Type) := Language α

namespace Gherkin

open scoped Computability

/-- A line of a file and what it is read as. -/
structure Token where
  kind : Kind
  line : Line
deriving DecidableEq, Repr

def Block.openers : Block → List Kind
  | .feature | .rule => [.title .background, .tags, .title .scenario, .title .rule]
  | .background => [.step, .tags, .title .scenario, .title .rule]
  | .scenario => [.step, .tags, .title .examples, .title .scenario, .title .rule]
  | .examples => [.row, .tags, .title .examples, .title .scenario, .title .rule]

namespace Grammar

/-! ## The grammar -/

def one (k : Kind) (p : Line → Prop) : Phrases Token := {d | ∃ l, p l ∧ d = [⟨k, l⟩]}

def gap : Phrases Token := (one .empty (·.isEmpty) + one .comment (·.isComment))∗

def item (k : Kind) (p : Line → Prop) : Phrases Token := one k p * gap

def tags : Phrases Token := (item .tags fun l => ∃ ts, l.tags? = some (.ok ts))∗

def row (n : Nat) : Phrases Token := item .row fun l => l.cells? = some n

def table : Phrases Token := ⨆ n, row n * (row n)∗

def docBody (m : Mark) : Phrases Token :=
  (one .other fun l => l.mark? (some m) = none)∗ * item .mark fun l => l.mark? (some m) = some m

def docString : Phrases Token := ⨆ m, one .mark (fun l => l.mark? none = some m) * docBody m

/-- What a step may have behind its line, if it has a table or a doc string already, or not. -/
def arguments : (hasTable hasDoc : Bool) → Phrases Token
  | false, false => 1 + table * (1 + docString) + docString * (1 + table)
  | true, false => 1 + docString
  | false, true => 1 + table
  | true, true => 1

section
variable (w : Language)

def title (b : Block) : Phrases Token := one (.title b) fun l => (l.title? w b).isSome

def description (b : Block) : Phrases Token :=
  (one .empty (·.isEmpty) + one .comment (·.isComment) +
    one .other fun l => l.isEmpty = false ∧ l.isComment = false ∧
    ∀ k ∈ b.openers, ¬ l.Looks w none k)∗

def step : Phrases Token := (item .step fun l => (l.step? w).isSome) * arguments false false

def background : Phrases Token := title w .background * (description w .background * (step w)∗)

def examples : Phrases Token := tags * (title w .examples * (description w .examples * (1 + table)))

def scenario : Phrases Token :=
  tags * (title w .scenario * (description w .scenario * ((step w)∗ * (examples w)∗)))

def rule : Phrases Token :=
  tags * (title w .rule * (description w .rule * ((1 + background w) * (scenario w)∗)))

def feature : Phrases Token :=
  tags * (title w .feature *
    (description w .feature * ((1 + background w) * ((scenario w)∗ * (rule w)∗))))

/-- Blank lines and comments that name no language. -/
def preamble : Phrases Token :=
  (one .empty (·.isEmpty) + one .comment fun l => l.isComment ∧ l.language? = none)∗

variable (others : List Language)

/-- The language is English if no other one is asked for. -/
def heading : Phrases Token :=
  (item .language fun l => l.language?.bind (Language.named? (Language.table others)) = some w) +
    if w = .english then 1 else 0

def document : Phrases Token := preamble * (heading w others * feature w)

end

/-! ## What may follow in a state -/

section
variable (w : Language)

def following : Phrases Token := (scenario w)∗ * (rule w)∗

def behindSteps : Holder → Phrases Token
  | .background => following w
  | .scenario => (examples w)∗ * following w

def behindDescription : Block → Phrases Token
  | .feature | .rule => (1 + background w) * following w
  | .background => (step w)∗ * behindSteps w .background
  | .scenario => (step w)∗ * behindSteps w .scenario
  | .examples => (1 + table) * behindSteps w .scenario

def behindTitle (b : Block) : Phrases Token := description w b * behindDescription w b

def fromTags (b : Block) : Phrases Token := tags * (title w b * behindTitle w b)

/-- What may follow in a state behind the head of a file; the rows of an open table have `n`
cells. -/
def behind (n : Nat) : State → Phrases Token
  | .start | .finished => 0
  | .headed => gap * fromTags w .feature
  | .tagged b => gap * fromTags w b
  | .titled b => behindTitle w b
  | .step h hasTable hasDoc => gap * (arguments hasTable hasDoc * ((step w)∗ * behindSteps w h))
  | .rows h hasDoc => gap * ((row n)∗ * (arguments true hasDoc * ((step w)∗ * behindSteps w h)))
  | .doc h hasTable m => docBody m * (arguments hasTable true * ((step w)∗ * behindSteps w h))
  | .exampleRows => gap * ((row n)∗ * behindSteps w .scenario)

end

/-! ## First tokens -/

section
variable {w : Language} {k : Kind} {l : Line} {p : Line → Prop} {d : List Token}
  {X Y : Phrases Token}

theorem star_mul (X Y : Phrases Token) : X∗ * Y = Y + X * (X∗ * Y) := by
  conv_lhs => rw [← Language.one_add_self_mul_kstar_eq_kstar, add_mul, one_mul, mul_assoc]

theorem cons_mem_star_mul {t : Token} : t :: d ∈ X∗ * Y ↔ t :: d ∈ Y ∨ t :: d ∈ X * (X∗ * Y) := by
  conv_lhs => rw [star_mul]
  exact Language.mem_add _ _ _

theorem nil_mem_mul : [] ∈ X * Y ↔ [] ∈ X ∧ [] ∈ Y := by
  rw [Language.mem_mul]
  constructor
  · rintro ⟨c, hc, d, hd, heq⟩
    obtain ⟨rfl, rfl⟩ := List.append_eq_nil_iff.mp heq
    exact ⟨hc, hd⟩
  · rintro ⟨hX, hY⟩
    exact ⟨[], hX, [], hY, rfl⟩

theorem nil_notMem_one : [] ∉ one k p := by
  rintro ⟨l, -, heq⟩
  cases heq

theorem cons_mem_one_mul {k' : Kind} : ⟨k, l⟩ :: d ∈ one k' p * X ↔ k = k' ∧ p l ∧ d ∈ X := by
  rw [Language.mem_mul]
  constructor
  · rintro ⟨_, ⟨l', hl, rfl⟩, d', hd, heq⟩
    cases heq
    exact ⟨rfl, hl, hd⟩
  · rintro ⟨rfl, hl, hd⟩
    exact ⟨_, ⟨l, hl, rfl⟩, d, hd, rfl⟩

theorem cons_mem_gap_mul :
    ⟨k, l⟩ :: d ∈ gap * X ↔
      k = .empty ∧ l.isEmpty ∧ d ∈ gap * X ∨ k = .comment ∧ l.isComment ∧ d ∈ gap * X ∨
      ⟨k, l⟩ :: d ∈ X := by
  rw [gap, cons_mem_star_mul, add_mul, Language.mem_add, cons_mem_one_mul, cons_mem_one_mul]
  tauto

theorem cons_mem_fromTags {b : Block} :
    ⟨k, l⟩ :: d ∈ fromTags w b ↔
      k = .tags ∧ (∃ ts, l.tags? = some (.ok ts)) ∧ d ∈ gap * fromTags w b ∨
        k = .title b ∧ (l.title? w b).isSome ∧ d ∈ behindTitle w b := by
  rw [fromTags, tags, cons_mem_star_mul, item, mul_assoc, cons_mem_one_mul, title, cons_mem_one_mul]
  tauto

theorem following_eq (w : Language) :
    following w = 1 + (fromTags w .scenario + fromTags w .rule) := by
  -- behind the first scenario or rule of a row there may follow what may follow any
  have hrule : rule w * (rule w)∗ = fromTags w .rule := by
    simp only [fromTags, behindTitle, behindDescription, following, rule, mul_assoc]
  have hscenario : scenario w * following w = fromTags w .scenario := by
    simp only [fromTags, behindTitle, behindDescription, behindSteps, scenario, mul_assoc]
  have h : following w = (rule w)∗ + scenario w * following w := star_mul _ _
  rw [h, hscenario, ← Language.one_add_self_mul_kstar_eq_kstar, hrule, add_assoc,
    add_comm (fromTags w .rule)]

theorem behindSteps_scenario (w : Language) :
    behindSteps w .scenario = following w + fromTags w .examples := by
  have hexamples : examples w * behindSteps w .scenario = fromTags w .examples := by
    simp only [fromTags, behindTitle, behindDescription, examples, mul_assoc]
  rw [← hexamples]
  exact star_mul _ _

theorem steps_mul (w : Language) (h : Holder) :
    (step w)∗ * behindSteps w h =
      behindSteps w h + one .step (fun l => (l.step? w).isSome) *
      behind w 0 (.step h false false) := by
  rw [star_mul]
  simp only [behind, step, item, mul_assoc]

/-- Behind the steps of a block there comes another one, with its tags. -/
theorem cons_mem_behindSteps {h : Holder} :
    ⟨k, l⟩ :: d ∈ behindSteps w h ↔
      ∃ b, Kind.title b ∈ State.followers (h = .scenario) ∧ ⟨k, l⟩ :: d ∈ fromTags w b := by
  have hfollowing : ⟨k, l⟩ :: d ∈ following w ↔
      ⟨k, l⟩ :: d ∈ fromTags w .scenario ∨ ⟨k, l⟩ :: d ∈ fromTags w .rule := by
    rw [following_eq, Language.mem_add, Language.mem_add, Language.mem_one]
    simp
  cases h with
  | background => simp [behindSteps, hfollowing, State.followers]
  | scenario =>
    rw [behindSteps_scenario, Language.mem_add, hfollowing]
    simp [State.followers, or_comm]

theorem cons_mem_steps_mul {h : Holder} :
    ⟨k, l⟩ :: d ∈ (step w)∗ * behindSteps w h ↔
      ⟨k, l⟩ :: d ∈ behindSteps w h ∨ k = .step ∧ (l.step? w).isSome ∧
      d ∈ behind w 0 (.step h false false) := by
  rw [steps_mul, Language.mem_add, cons_mem_one_mul]

theorem cons_mem_rows_mul {n : Nat} :
    ⟨k, l⟩ :: d ∈ (row n)∗ * X ↔
      ⟨k, l⟩ :: d ∈ X ∨ k = .row ∧ l.cells? = some n ∧ d ∈ gap * ((row n)∗ * X) := by
  rw [cons_mem_star_mul]
  refine or_congr_right ?_
  conv_lhs => rw [row, item, mul_assoc, cons_mem_one_mul]
  rfl

theorem cons_mem_table_mul :
    ⟨k, l⟩ :: d ∈ table * X ↔ k = .row ∧ ∃ n, l.cells? = some n ∧ d ∈ gap * ((row n)∗ * X) := by
  rw [table, Language.iSup_mul, Language.mem_iSup]
  simp only [row, item, mul_assoc, cons_mem_one_mul]
  simp

theorem cons_mem_docString_mul :
    ⟨k, l⟩ :: d ∈ docString * X ↔ k = .mark ∧ ∃ m, l.mark? none = some m ∧ d ∈ docBody m * X := by
  rw [docString, Language.iSup_mul, Language.mem_iSup]
  simp only [mul_assoc, cons_mem_one_mul]
  simp

theorem cons_mem_docBody_mul {m : Mark} :
    ⟨k, l⟩ :: d ∈ docBody m * X ↔
      k = .mark ∧ l.mark? (some m) = some m ∧ d ∈ gap * X ∨
        k = .other ∧ l.mark? (some m) = none ∧ d ∈ docBody m * X := by
  rw [docBody, mul_assoc, cons_mem_star_mul, cons_mem_one_mul, item, mul_assoc, cons_mem_one_mul]

theorem cons_mem_behindTitle {b : Block} :
    ⟨k, l⟩ :: d ∈ behindTitle w b ↔
      k = .empty ∧ l.isEmpty ∧ d ∈ behindTitle w b ∨ k = .comment ∧ l.isComment ∧
      d ∈ behindTitle w b ∨
        k = .other ∧
        (l.isEmpty = false ∧ l.isComment = false ∧ ∀ k ∈ b.openers, ¬ l.Looks w none k) ∧
          d ∈ behindTitle w b ∨
        ⟨k, l⟩ :: d ∈ behindDescription w b := by
  rw [behindTitle, description, cons_mem_star_mul, add_mul, add_mul, Language.mem_add,
    Language.mem_add, cons_mem_one_mul, cons_mem_one_mul, cons_mem_one_mul]
  tauto

theorem cons_mem_background_mul :
    ⟨k, l⟩ :: d ∈ (1 + background w) * following w ↔
      ⟨k, l⟩ :: d ∈ following w ∨
        k = .title .background ∧ (l.title? w .background).isSome ∧
        d ∈ behindTitle w .background := by
  rw [add_mul, one_mul, Language.mem_add, background, mul_assoc, title, cons_mem_one_mul, mul_assoc]
  rfl

theorem cons_mem_arguments_mul {hasTable hasDoc : Bool} :
    ⟨k, l⟩ :: d ∈ arguments hasTable hasDoc * X ↔
      ⟨k, l⟩ :: d ∈ X ∨
        hasTable = false ∧ k = .row ∧
        (∃ n, l.cells? = some n ∧ d ∈ gap * ((row n)∗ * (arguments true hasDoc * X))) ∨
        hasDoc = false ∧ k = .mark ∧
        ∃ m, l.mark? none = some m ∧ d ∈ docBody m * (arguments hasTable true * X) := by
  cases hasTable <;> cases hasDoc <;>
    simp only [arguments, add_mul, one_mul, mul_assoc, Language.mem_add, cons_mem_table_mul,
      cons_mem_docString_mul] <;>
    simp [or_assoc]

end

/-! ## The automaton -/

/-- Tags that may stand in a state belong to one of these blocks. -/
def Owns (s : State) (b : Block) : Prop :=
  match s.ownsTags with
  | some owner => b = owner
  | none => b ∈ [Block.examples, .scenario, .rule] ∧ .title b ∈ s.accepted

section
variable (w : Language) (n : Nat) (s : State) (l : Line) (d : List Token)

/-- A line is good for a token of some kind, and the rest may follow in the state to which this
token leads. -/
def Leads : Kind → Prop
  | .ending | .language => False
  | .tags => (∃ ts, l.tags? = some (.ok ts)) ∧ ∃ b, Owns s b ∧ d ∈ behind w n (.tagged b)
  | .title b => (l.title? w b).isSome ∧ d ∈ behind w n (.titled b)
  | .step => (l.step? w).isSome ∧ d ∈ behind w n (.step s.holder false false)
  | .mark => ∃ m, l.mark? s.opened = some m ∧ d ∈ behind w n (s.afterMark m)
  | .row => ∃ c, l.cells? = some c ∧ (s.inTable → c = n) ∧ d ∈ behind w c s.afterRow
  | .comment => l.isComment ∧ d ∈ behind w n s
  | .empty => l.isEmpty ∧ d ∈ behind w n s
  | .other => (∀ k ∈ s.accepted, k ≠ .other → ¬ l.Looks w s.opened k) ∧ d ∈ behind w n s

end

theorem mark?_some {m m' : Mark} {l : Line} (h : l.mark? (some m) = some m') : m' = m := by
  have hm := List.mem_of_find?_eq_some h
  simpa using hm

section
variable {w : Language} {n : Nat} {k : Kind} {l : Line} {d : List Token}

/-- What may follow the steps of a holder may come next. -/
def Ends (s : State) (h : Holder) : Prop :=
  ∀ b, Owns s b ↔ Kind.title b ∈ State.followers (h = .scenario)

def holderOf : Block → Holder
  | .scenario | .examples => .scenario
  | .feature | .rule | .background => .background

theorem ends_titled (b : Block) : Ends (.titled b) (holderOf b) := by
  intro c
  cases b <;> cases c <;> simp [Owns, State.ownsTags, State.accepted, State.followers, holderOf]

theorem ends_step (h : Holder) (hasTable hasDoc : Bool) : Ends (.step h hasTable hasDoc) h := by
  intro b
  cases h <;> cases b <;> simp [Owns, State.ownsTags, State.accepted, State.followers]

theorem ends_rows (h : Holder) (hasDoc : Bool) : Ends (.rows h hasDoc) h := by
  intro b
  cases h <;> cases b <;> simp [Owns, State.ownsTags, State.accepted, State.followers]

theorem ends_exampleRows : Ends .exampleRows .scenario := by
  intro b
  cases b <;> simp [Owns, State.ownsTags, State.accepted, State.followers]

theorem cons_mem_behindSteps_iff {s : State} {h : Holder} (hs : Ends s h) :
    ⟨k, l⟩ :: d ∈ behindSteps w h ↔ k ∈ State.followers (h = .scenario) ∧ Leads w n s l d k := by
  simp only [cons_mem_behindSteps, cons_mem_fromTags]
  constructor
  · rintro ⟨b, hb, ⟨rfl, hts, hd⟩ | ⟨rfl, hl, hd⟩⟩
    · exact ⟨by simp [State.followers], hts, b, (hs b).mpr hb, hd⟩
    · exact ⟨hb, hl, hd⟩
  · rintro ⟨hk, hleads⟩
    cases k with
    | tags =>
      obtain ⟨hts, b, hb, hd⟩ := hleads
      exact ⟨b, (hs b).mp hb, .inl ⟨rfl, hts, hd⟩⟩
    | title b => exact ⟨b, hk, .inr ⟨rfl, hleads⟩⟩
    | _ => simp [State.followers] at hk

theorem cons_mem_steps_iff {s : State} {h : Holder} (hs : Ends s h) (hh : s.holder = h) :
    ⟨k, l⟩ :: d ∈ (step w)∗ * behindSteps w h ↔
      (k = .step ∨ k ∈ State.followers (h = .scenario)) ∧ Leads w n s l d k := by
  rw [cons_mem_steps_mul, cons_mem_behindSteps_iff hs]
  constructor
  · rintro (⟨hk, hleads⟩ | ⟨rfl, hl, hd⟩)
    · exact ⟨.inr hk, hleads⟩
    · exact ⟨.inl rfl, hl, hh ▸ hd⟩
  · rintro ⟨rfl | hk, hleads⟩
    · exact .inr ⟨rfl, hleads.1, hh ▸ hleads.2⟩
    · exact .inl ⟨hk, hleads⟩

theorem cons_mem_background_iff {s : State} (hs : Ends s .background) :
    ⟨k, l⟩ :: d ∈ (1 + background w) * following w ↔ k ∈ Block.feature.openers ∧
      Leads w n s l d k := by
  rw [cons_mem_background_mul, ← behindSteps, cons_mem_behindSteps_iff (n := n) hs]
  constructor
  · rintro (⟨hk, hleads⟩ | ⟨rfl, hleads⟩)
    · exact ⟨List.mem_cons_of_mem _ hk, hleads⟩
    · exact ⟨List.mem_cons_self, hleads⟩
  · rintro ⟨hk, hleads⟩
    rcases List.mem_cons.mp hk with rfl | hk
    · exact .inr ⟨rfl, hleads⟩
    · exact .inl ⟨hk, hleads⟩

theorem cons_mem_behindDescription_iff {b : Block} :
    ⟨k, l⟩ :: d ∈ behindDescription w b ↔ k ∈ b.openers ∧ Leads w n (.titled b) l d k := by
  cases b with
  | feature => exact cons_mem_background_iff (ends_titled .feature)
  | rule => exact cons_mem_background_iff (ends_titled .rule)
  | background =>
    rw [behindDescription, cons_mem_steps_iff (h := .background) (ends_titled .background) rfl,
      ← List.mem_cons]
    rfl
  | scenario =>
    rw [behindDescription, cons_mem_steps_iff (h := .scenario) (ends_titled .scenario) rfl,
      ← List.mem_cons]
    rfl
  | examples =>
    rw [behindDescription, add_mul, one_mul, Language.mem_add, cons_mem_table_mul,
      cons_mem_behindSteps_iff (n := n) (h := .scenario) (ends_titled .examples)]
    constructor
    · rintro (⟨hk, hleads⟩ | ⟨rfl, c, hc, hd⟩)
      · exact ⟨List.mem_cons_of_mem _ hk, hleads⟩
      · exact ⟨List.mem_cons_self, c, hc, by simp [State.inTable], hd⟩
    · rintro ⟨hk, hleads⟩
      rcases List.mem_cons.mp hk with rfl | hk
      · obtain ⟨c, hc, -, hd⟩ := hleads
        exact .inr ⟨rfl, c, hc, hd⟩
      · exact .inl ⟨hk, hleads⟩

/-- A line of a description is one that looks like nothing else that may come next. -/
theorem plain_iff {b : Block} :
    (l.isEmpty = false ∧ l.isComment = false ∧ ∀ k ∈ b.openers, ¬ l.Looks w none k) ↔
      ∀ k ∈ (State.titled b).accepted, k ≠ .other → ¬ l.Looks w none k := by
  have haccepted : (State.titled b).accepted = [.ending, .empty, .comment] ++ b.openers ++
      [.other] := by
    cases b <;> rfl
  have hopeners : ∀ k ∈ b.openers, k ≠ .other := by cases b <;> decide
  rw [haccepted]
  constructor
  · rintro ⟨hempty, hcomment, hother⟩ k hk hne
    simp only [List.mem_append, List.mem_cons, List.not_mem_nil, or_false] at hk
    rcases hk with ((rfl | rfl | rfl) | hk) | rfl
    · exact id
    · simp [Line.Looks, hempty]
    · simp [Line.Looks, hcomment]
    · exact hother k hk
    · exact absurd rfl hne
  · intro hall
    refine ⟨?_, ?_, fun k hk => hall k (by simp [hk]) (hopeners k hk)⟩
    · simpa [Line.Looks] using hall .empty (by simp) (by simp)
    · simpa [Line.Looks] using hall .comment (by simp) (by simp)

theorem cons_mem_behind_titled {b : Block} :
    ⟨k, l⟩ :: d ∈ behind w n (.titled b) ↔ k ∈ (State.titled b).accepted ∧
      Leads w n (.titled b) l d k := by
  have haccepted : k ∈ (State.titled b).accepted ↔
      k = .ending ∨ k = .empty ∨ k = .comment ∨ k = .other ∨ k ∈ b.openers := by
    cases b <;> simp [State.accepted, State.followers, Block.openers] <;> tauto
  rw [haccepted, behind, cons_mem_behindTitle, plain_iff, cons_mem_behindDescription_iff (n := n)]
  constructor
  · rintro (⟨rfl, hleads⟩ | ⟨rfl, hleads⟩ | ⟨rfl, hleads⟩ | ⟨hk, hleads⟩)
    · exact ⟨by simp, hleads⟩
    · exact ⟨by simp, hleads⟩
    · exact ⟨by simp, hleads⟩
    · exact ⟨by simp [hk], hleads⟩
  · rintro ⟨rfl | rfl | rfl | rfl | hk, hleads⟩
    · cases hleads
    · exact .inl ⟨rfl, hleads⟩
    · exact .inr (.inl ⟨rfl, hleads⟩)
    · exact .inr (.inr (.inl ⟨rfl, hleads⟩))
    · exact .inr (.inr (.inr ⟨hk, hleads⟩))

/-- Where blank lines and comments may follow, they lead nowhere else. -/
theorem cons_mem_gap_iff {s : State} {X : Phrases Token} {P : Prop} (hs : behind w n s = gap * X)
    (hX : ⟨k, l⟩ :: d ∈ X ↔ P ∧ Leads w n s l d k) :
    ⟨k, l⟩ :: d ∈ behind w n s ↔ (P ∨ k = .comment ∨ k = .empty) ∧ Leads w n s l d k := by
  rw [hs, cons_mem_gap_mul, ← hs, hX]
  constructor
  · rintro (⟨rfl, hleads⟩ | ⟨rfl, hleads⟩ | ⟨hk, hleads⟩)
    · exact ⟨.inr (.inr rfl), hleads⟩
    · exact ⟨.inr (.inl rfl), hleads⟩
    · exact ⟨.inl hk, hleads⟩
  · rintro ⟨hk | rfl | rfl, hleads⟩
    · exact .inr (.inr ⟨hk, hleads⟩)
    · exact .inr (.inl ⟨rfl, hleads⟩)
    · exact .inl ⟨rfl, hleads⟩

theorem cons_mem_behind_tagged {s : State} {b : Block}
    (hs : s = .tagged b ∨ s = .headed ∧ b = .feature) :
    ⟨k, l⟩ :: d ∈ behind w n s ↔ k ∈ s.accepted ∧ Leads w n s l d k := by
  have hbehind : behind w n s = gap * fromTags w b := by
    rcases hs with rfl | ⟨rfl, rfl⟩ <;> rfl
  have howns : Owns s = fun c => c = b := by
    rcases hs with rfl | ⟨rfl, rfl⟩ <;> rfl
  have haccepted : k ∈ s.accepted ↔ (k = .tags ∨ k = .title b) ∨ k = .comment ∨ k = .empty := by
    rcases hs with rfl | ⟨rfl, rfl⟩ <;> simp [State.accepted, or_assoc]
  rw [haccepted]
  refine cons_mem_gap_iff hbehind ?_
  rw [cons_mem_fromTags]
  constructor
  · rintro (⟨rfl, hts, hd⟩ | ⟨rfl, hl, hd⟩)
    · exact ⟨.inl rfl, hts, b, by rw [howns], hd⟩
    · exact ⟨.inr rfl, hl, hd⟩
  · rintro ⟨rfl | rfl, hleads⟩
    · obtain ⟨hts, c, hc, hd⟩ := hleads
      rw [howns] at hc
      exact .inl ⟨rfl, hts, hc ▸ hd⟩
    · exact .inr ⟨rfl, hleads⟩

/-- A table and a doc string, as far as the step does not have them yet, and then the next steps. -/
theorem cons_mem_arguments_iff {s : State} {h : Holder} {hasTable hasDoc : Bool} (hs : Ends s h)
    (hh : s.holder = h) (hrow : hasTable = false → s.inTable = false ∧ s.afterRow = .rows h hasDoc)
    (hmark : hasDoc = false → s.opened = none ∧ ∀ m, s.afterMark m = .doc h hasTable m) :
    ⟨k, l⟩ :: d ∈ arguments hasTable hasDoc * ((step w)∗ * behindSteps w h) ↔
      ((k = .step ∨ k ∈ State.followers (h = .scenario)) ∨ hasTable = false ∧ k = .row ∨
        hasDoc = false ∧ k = .mark) ∧
        Leads w n s l d k := by
  rw [cons_mem_arguments_mul, cons_mem_steps_iff (n := n) hs hh]
  constructor
  · rintro (⟨hk, hleads⟩ | ⟨ht, rfl, c, hc, hd⟩ | ⟨hd', rfl, m, hm, hd⟩)
    · exact ⟨.inl hk, hleads⟩
    · obtain ⟨htable, hafter⟩ := hrow ht
      exact ⟨.inr (.inl ⟨ht, rfl⟩), c, hc, by simp [htable], hafter ▸ hd⟩
    · obtain ⟨hopened, hafter⟩ := hmark hd'
      exact ⟨.inr (.inr ⟨hd', rfl⟩), m, hopened ▸ hm, hafter m ▸ hd⟩
  · rintro ⟨hk | ⟨ht, rfl⟩ | ⟨hd', rfl⟩, hleads⟩
    · exact .inl ⟨hk, hleads⟩
    · obtain ⟨c, hc, -, hd⟩ := hleads
      rw [(hrow ht).2] at hd
      exact .inr (.inl ⟨ht, rfl, c, hc, hd⟩)
    · obtain ⟨m, hm, hd⟩ := hleads
      obtain ⟨hopened, hafter⟩ := hmark hd'
      rw [hafter] at hd
      exact .inr (.inr ⟨hd', rfl, m, hopened ▸ hm, hd⟩)

theorem cons_mem_behind_step {h : Holder} {hasTable hasDoc : Bool} :
    ⟨k, l⟩ :: d ∈ behind w n (.step h hasTable hasDoc) ↔
      k ∈ (State.step h hasTable hasDoc).accepted ∧ Leads w n (.step h hasTable hasDoc) l d k := by
  have haccepted : k ∈ (State.step h hasTable hasDoc).accepted ↔
      k = .ending ∨
      ((k = .step ∨ k ∈ State.followers (h = .scenario)) ∨ hasTable = false ∧ k = .row ∨
        hasDoc = false ∧ k = .mark) ∨ k = .comment ∨ k = .empty := by
    cases hasTable <;> cases hasDoc <;> simp [State.accepted] <;> tauto
  rw [haccepted, cons_mem_gap_iff rfl
    (cons_mem_arguments_iff (ends_step h hasTable hasDoc) rfl (fun _ => ⟨rfl, rfl⟩) fun _ =>
      ⟨rfl, fun _ => rfl⟩)]
  exact and_congr_left fun hleads => (or_iff_right fun hk => by simp [hk, Leads] at hleads).symm

/-- In a table there may come more rows with the same number of cells. -/
theorem cons_mem_rows_iff {s : State} {X : Phrases Token} {P : Prop} (htable : s.inTable = true)
    (hs : behind w n s.afterRow = gap * ((row n)∗ * X))
    (hX : ⟨k, l⟩ :: d ∈ X ↔ P ∧ Leads w n s l d k) :
    ⟨k, l⟩ :: d ∈ (row n)∗ * X ↔ (P ∨ k = .row) ∧ Leads w n s l d k := by
  rw [cons_mem_rows_mul, ← hs, hX]
  constructor
  · rintro (⟨hk, hleads⟩ | ⟨rfl, hc, hd⟩)
    · exact ⟨.inl hk, hleads⟩
    · exact ⟨.inr rfl, n, hc, fun _ => rfl, hd⟩
  · rintro ⟨hk | rfl, hleads⟩
    · exact .inl ⟨hk, hleads⟩
    · obtain ⟨c, hc, hn, hd⟩ := hleads
      obtain rfl := hn htable
      exact .inr ⟨rfl, hc, hd⟩

theorem cons_mem_behind_rows {h : Holder} {hasDoc : Bool} :
    ⟨k, l⟩ :: d ∈ behind w n (.rows h hasDoc) ↔
      k ∈ (State.rows h hasDoc).accepted ∧ Leads w n (.rows h hasDoc) l d k := by
  have haccepted : k ∈ (State.rows h hasDoc).accepted ↔
      k = .ending ∨ (((k = .step ∨ k ∈ State.followers (h = .scenario)) ∨ true = false ∧ k = .row ∨
        hasDoc = false ∧ k = .mark) ∨ k = .row) ∨ k = .comment ∨ k = .empty := by
    cases hasDoc <;> simp [State.accepted] <;> tauto
  have harguments : ⟨k, l⟩ :: d ∈ arguments true hasDoc * ((step w)∗ * behindSteps w h) ↔
      ((k = .step ∨ k ∈ State.followers (h = .scenario)) ∨ true = false ∧ k = .row ∨
        hasDoc = false ∧ k = .mark) ∧ Leads w n (.rows h hasDoc) l d k :=
    cons_mem_arguments_iff (ends_rows h hasDoc) rfl nofun fun _ => ⟨rfl, fun _ => rfl⟩
  rw [haccepted, cons_mem_gap_iff rfl (cons_mem_rows_iff rfl rfl harguments)]
  exact and_congr_left fun hleads => (or_iff_right fun hk => by simp [hk, Leads] at hleads).symm

theorem cons_mem_behind_exampleRows :
    ⟨k, l⟩ :: d ∈ behind w n .exampleRows ↔ k ∈ State.exampleRows.accepted ∧
      Leads w n .exampleRows l d k := by
  have haccepted : k ∈ State.exampleRows.accepted ↔
      k = .ending ∨ (k ∈ State.followers (Holder.scenario = .scenario) ∨ k = .row) ∨ k = .comment ∨
      k = .empty := by
    simp [State.accepted, State.followers]
    tauto
  rw [haccepted,
    cons_mem_gap_iff rfl (cons_mem_rows_iff rfl rfl (cons_mem_behindSteps_iff ends_exampleRows))]
  exact and_congr_left fun hleads => (or_iff_right fun hk => by simp [hk, Leads] at hleads).symm

theorem cons_mem_behind_doc {h : Holder} {hasTable : Bool} {m : Mark} :
    ⟨k, l⟩ :: d ∈ behind w n (.doc h hasTable m) ↔
      k ∈ (State.doc h hasTable m).accepted ∧ Leads w n (.doc h hasTable m) l d k := by
  have haccepted : k ∈ (State.doc h hasTable m).accepted ↔ k = .mark ∨ k = .other := by
    simp [State.accepted]
  have hinside : (∀ k ∈ (State.doc h hasTable m).accepted, k ≠ .other → ¬ l.Looks w (some m) k) ↔
      l.mark? (some m) = none := by
    simp [State.accepted, Line.Looks]
  rw [haccepted, behind, cons_mem_docBody_mul, ← hinside]
  constructor
  · rintro (⟨rfl, hm, hd⟩ | ⟨rfl, hl, hd⟩)
    · exact ⟨.inl rfl, m, hm, hd⟩
    · exact ⟨.inr rfl, hl, hd⟩
  · rintro ⟨rfl | rfl, hleads⟩
    · obtain ⟨m', hm, hd⟩ := hleads
      exact .inl ⟨rfl, mark?_some hm ▸ hm, hd⟩
    · exact .inr ⟨rfl, hleads⟩

/-- What may follow in a state starts with a token that the automaton takes there. -/
theorem cons_mem_behind_iff {s : State} (hs : s ≠ .start) :
    ⟨k, l⟩ :: d ∈ behind w n s ↔ k ∈ s.accepted ∧ Leads w n s l d k := by
  cases s with
  | start => exact absurd rfl hs
  | headed => exact cons_mem_behind_tagged (.inr ⟨rfl, rfl⟩)
  | tagged b => exact cons_mem_behind_tagged (.inl rfl)
  | titled b => exact cons_mem_behind_titled
  | step h hasTable hasDoc => exact cons_mem_behind_step
  | rows h hasDoc => exact cons_mem_behind_rows
  | doc h hasTable m => exact cons_mem_behind_doc
  | exampleRows => exact cons_mem_behind_exampleRows
  | finished => simp [behind, State.accepted]

theorem nil_notMem_fromTags (w : Language) (b : Block) : [] ∉ fromTags w b := by
  rw [fromTags, nil_mem_mul, nil_mem_mul]
  exact fun h => nil_notMem_one h.2.1

theorem nil_mem_behindSteps (w : Language) (h : Holder) : [] ∈ behindSteps w h := by
  have hfollowing : [] ∈ following w := by
    rw [following_eq]
    exact .inl rfl
  cases h with
  | background => exact hfollowing
  | scenario => exact nil_mem_mul.mpr ⟨Language.nil_mem_kstar _, hfollowing⟩

theorem nil_mem_arguments (hasTable hasDoc : Bool) : [] ∈ arguments hasTable hasDoc := by
  cases hasTable <;> cases hasDoc
  · exact .inl (.inl rfl)
  · exact .inl rfl
  · exact .inl rfl
  · rfl

theorem nil_mem_behindTitle (w : Language) (b : Block) : [] ∈ behindTitle w b := by
  refine nil_mem_mul.mpr ⟨Language.nil_mem_kstar _, ?_⟩
  cases b with
  | feature | rule => exact nil_mem_mul.mpr ⟨.inl rfl, nil_mem_behindSteps w .background⟩
  | background =>
    exact nil_mem_mul.mpr ⟨Language.nil_mem_kstar _, nil_mem_behindSteps w .background⟩
  | scenario => exact nil_mem_mul.mpr ⟨Language.nil_mem_kstar _, nil_mem_behindSteps w .scenario⟩
  | examples => exact nil_mem_mul.mpr ⟨.inl rfl, nil_mem_behindSteps w .scenario⟩

/-- A file may end where the automaton says so. -/
theorem nil_mem_behind_iff {s : State} (hs : s ≠ .start) :
    [] ∈ behind w n s ↔ Kind.ending ∈ s.accepted := by
  have hgap : [] ∈ gap := Language.nil_mem_kstar _
  cases s with
  | start => exact absurd rfl hs
  | headed | tagged b => simp [behind, nil_mem_mul, nil_notMem_fromTags, State.accepted]
  | titled b =>
    refine iff_of_true (nil_mem_behindTitle w b) ?_
    cases b <;> simp [State.accepted]
  | step h hasTable hasDoc =>
    simp [behind, nil_mem_mul, hgap, nil_mem_arguments, nil_mem_behindSteps, Language.nil_mem_kstar,
      State.accepted]
  | rows h hasDoc =>
    simp [behind, nil_mem_mul, hgap, nil_mem_arguments, nil_mem_behindSteps, Language.nil_mem_kstar,
      State.accepted]
  | doc h hasTable m => simp [behind, docBody, item, nil_mem_mul, nil_notMem_one, State.accepted]
  | exampleRows =>
    simp [behind, nil_mem_mul, hgap, nil_mem_behindSteps, Language.nil_mem_kstar, State.accepted]
  | finished => simp [behind, State.accepted]

/-! ## The head of a file -/

/-- A line is good for a token of some kind at the beginning of a file in a language, and the rest
may follow then. -/
def Opens (w : Language) (others : List Language) (l : Line) (d : List Token) : Kind → Prop
  | .language =>
    l.language?.bind (Language.named? (Language.table others)) = some w ∧ d ∈ behind w 0 .headed
  | .tags => w = .english ∧ (∃ ts, l.tags? = some (.ok ts)) ∧ d ∈ behind w 0 (.tagged .feature)
  | .title .feature =>
    w = .english ∧ (l.title? w .feature).isSome ∧ d ∈ behind w 0 (.titled .feature)
  | .comment => (l.isComment ∧ l.language? = none) ∧ d ∈ document w others
  | .empty => l.isEmpty ∧ d ∈ document w others
  | _ => False

variable {others : List Language}

theorem cons_mem_heading_mul :
    ⟨k, l⟩ :: d ∈ heading w others * feature w ↔
      k = .language ∧ l.language?.bind (Language.named? (Language.table others)) = some w ∧
          d ∈ behind w 0 .headed ∨
        w = .english ∧ ⟨k, l⟩ :: d ∈ fromTags w .feature := by
  rw [heading, add_mul, Language.mem_add, item, mul_assoc, cons_mem_one_mul]
  refine or_congr Iff.rfl ?_
  by_cases hw : w = .english
  · rw [if_pos hw, one_mul]
    exact (and_iff_right hw).symm
  · rw [if_neg hw, zero_mul]
    exact iff_of_false (Language.notMem_zero _) fun h => hw h.1

theorem cons_mem_document_iff : ⟨k, l⟩ :: d ∈ document w others ↔ Opens w others l d k := by
  have hdocument : ⟨k, l⟩ :: d ∈ document w others ↔
      ⟨k, l⟩ :: d ∈ heading w others * feature w ∨ k = .empty ∧ l.isEmpty ∧ d ∈ document w others ∨
        k = .comment ∧ (l.isComment ∧ l.language? = none) ∧ d ∈ document w others := by
    rw [document, preamble, cons_mem_star_mul, add_mul, Language.mem_add, cons_mem_one_mul,
      cons_mem_one_mul]
  rw [hdocument, cons_mem_heading_mul, cons_mem_fromTags]
  cases k with
  | title b => cases b <;> simp [Opens, behind]
  | _ => simp [Opens, behind]

theorem nil_notMem_document (w : Language) (others : List Language) : [] ∉ document w others := by
  rw [document, nil_mem_mul, nil_mem_mul]
  exact fun h => nil_notMem_fromTags w .feature h.2.2

end

end Grammar
end Gherkin
end StepAtlas
