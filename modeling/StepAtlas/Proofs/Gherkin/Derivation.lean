import StepAtlas.Proofs.Gherkin.Phrases

/-
The grammar is unambiguous.  A file has one derivation at most: in every state the line settles the
kind of the token, the tokens behind tags settle the block that these belong to, and the first token
that is neither a blank line nor a plain comment settles the language.  From a derivation the parts
of a feature can be listed, which are its backgrounds, its scenarios and their steps.
-/

namespace StepAtlas
namespace Gherkin

/-- A reading of a file by the grammar, with one token for each line.  The file is in English or in
one of the other languages. -/
@[ext]
structure Derivation (others : List Language) (content : Text) where
  language : Language
  tokens : List Token
  derived : tokens ∈ Grammar.document language others
  covers : tokens.map Token.line = Line.ofText content

theorem State.language_notMem_accepted {s : State} (hs : s ≠ .start) :
    Kind.language ∉ s.accepted := by
  cases s with
  | start => exact absurd rfl hs
  | headed | tagged b | doc h hasTable m | finished => simp [accepted]
  | titled b => cases b <;> simp [accepted, followers]
  | step h hasTable hasDoc =>
    cases hasTable <;> cases hasDoc <;> cases h <;> simp [accepted, followers]
  | rows h hasDoc => cases hasDoc <;> cases h <;> simp [accepted, followers]
  | exampleRows => simp [accepted, followers]

theorem State.afterMark_ne_start {s : State} (hs : s ≠ .start) (m : Mark) :
    s.afterMark m ≠ .start := by
  cases s with
  | step | rows | doc => nofun
  | _ => exact hs

theorem State.afterRow_ne_start (s : State) : s.afterRow ≠ .start := by
  cases s <;> nofun

namespace Grammar

section
variable {w : Language} {others : List Language} {n : Nat} {s : State} {k k' : Kind} {l : Line}
  {d d' : List Token}

theorem exists_cons_of_lines {ls : List Line} (h : l :: ls = d.map Token.line) :
    ∃ k d', d = ⟨k, l⟩ :: d' ∧ ls = d'.map Token.line := by
  cases d with
  | nil => cases h
  | cons t d =>
    cases h
    exact ⟨t.kind, d, rfl, rfl⟩

/-! ## One kind for each line -/

theorem Leads.looks (h : Leads w n s l d k) : l.Looks w s.opened k := by
  cases k with
  | ending | language => exact h.elim
  | tags =>
    obtain ⟨⟨ts, hts⟩, -⟩ := h
    simp [Line.Looks, hts]
  | mark =>
    obtain ⟨m, hm, -⟩ := h
    simp [Line.Looks, hm]
  | row =>
    obtain ⟨c, hc, -⟩ := h
    simp [Line.Looks, hc]
  | title b | step | comment | empty => exact h.1
  | other => trivial

/-- Tokens on the same line are of one kind, if they are no plain text. -/
theorem Leads.kind_eq {s' : State} (hw : w.Clear) (hs : s ≠ .start) (hs' : s' ≠ .start)
    (hk : k ∈ s.accepted) (hk' : k' ∈ s'.accepted) (hother : k ≠ .other) (hother' : k' ≠ .other)
    (h : Leads w n s l d k) (h' : Leads w n s' l d' k') (hopened : s.opened = s'.opened) :
    k = k' := by
  rcases h.looks.unique hw (hopened ▸ h'.looks) hother hother' with heq | ⟨rfl, -⟩ | ⟨-, rfl⟩
  · exact heq
  · exact absurd hk (State.language_notMem_accepted hs)
  · exact absurd hk' (State.language_notMem_accepted hs')

theorem Leads.kind_unique (hw : w.Clear) (hs : s ≠ .start) (hk : k ∈ s.accepted)
    (hk' : k' ∈ s.accepted) (h : Leads w n s l d k) (h' : Leads w n s l d' k') : k = k' := by
  -- plain text is a line that looks like nothing else that is accepted
  by_cases hother : k = .other
  · subst hother
    by_contra hne
    exact h.1 k' hk' (Ne.symm hne) h'.looks
  · by_cases hother' : k' = .other
    · subst hother'
      exact absurd h.looks (h'.1 k hk hother)
    · exact h.kind_eq hw hs hs hk hk' hother hother' h' rfl

/-- The lines behind tags settle which block the tags belong to. -/
theorem owner_unique {b b' : Block} (hw : w.Clear) (hd : d ∈ behind w n (.tagged b))
    (hd' : d' ∈ behind w n (.tagged b')) (hlines : d.map Token.line = d'.map Token.line) :
    b = b' := by
  induction d generalizing d' with
  | nil => simp [nil_mem_behind_iff, State.accepted] at hd
  | cons t d ih =>
    obtain ⟨k, l⟩ := t
    obtain ⟨k', d', rfl, hrest⟩ := exists_cons_of_lines hlines
    obtain ⟨hk, h⟩ := (cons_mem_behind_iff (by simp)).mp hd
    obtain ⟨hk', h'⟩ := (cons_mem_behind_iff (by simp)).mp hd'
    have hplain : ∀ {c : Block} {k : Kind}, k ∈ (State.tagged c).accepted → k ≠ .other := by
      rintro c k hk rfl
      simp [State.accepted] at hk
    obtain rfl : k = k' := h.kind_eq hw (by simp) (by simp) hk hk' (hplain hk) (hplain hk') h' rfl
    -- anything but a title leads back to the same state
    simp only [State.accepted, List.mem_cons, List.not_mem_nil, or_false] at hk
    rcases hk with rfl | rfl | rfl | rfl
    · obtain ⟨-, c, rfl, htail⟩ := h
      obtain ⟨-, c', rfl, htail'⟩ := h'
      exact ih htail htail' hrest
    · simpa [State.accepted] using hk'
    · exact ih h.2 h'.2 hrest
    · exact ih h.2 h'.2 hrest

/-! ## One derivation for each file -/

/-- What follows a token follows it in one state. -/
theorem Leads.together (hw : w.Clear) (hs : s ≠ .start) (h : Leads w n s l d k)
    (h' : Leads w n s l d' k) (hlines : d.map Token.line = d'.map Token.line) :
    ∃ c s', s' ≠ .start ∧ d ∈ behind w c s' ∧ d' ∈ behind w c s' := by
  cases k with
  | ending | language => exact h.elim
  | tags =>
    obtain ⟨-, b, -, hd⟩ := h
    obtain ⟨-, b', -, hd'⟩ := h'
    obtain rfl := owner_unique hw hd hd' hlines
    exact ⟨n, .tagged b, nofun, hd, hd'⟩
  | title b => exact ⟨n, .titled b, nofun, h.2, h'.2⟩
  | step => exact ⟨n, .step s.holder false false, nofun, h.2, h'.2⟩
  | mark =>
    obtain ⟨m, hm, hd⟩ := h
    obtain ⟨m', hm', hd'⟩ := h'
    obtain rfl : m = m' := Option.some.inj (hm.symm.trans hm')
    exact ⟨n, s.afterMark m, State.afterMark_ne_start hs m, hd, hd'⟩
  | row =>
    obtain ⟨c, hc, -, hd⟩ := h
    obtain ⟨c', hc', -, hd'⟩ := h'
    obtain rfl : c = c' := Option.some.inj (hc.symm.trans hc')
    exact ⟨c, s.afterRow, State.afterRow_ne_start s, hd, hd'⟩
  | comment | empty | other => exact ⟨n, s, hs, h.2, h'.2⟩

theorem behind_unique (hw : w.Clear) (hs : s ≠ .start) (hd : d ∈ behind w n s)
    (hd' : d' ∈ behind w n s) (hlines : d.map Token.line = d'.map Token.line) : d = d' := by
  induction d generalizing d' n s with
  | nil => exact (List.map_eq_nil_iff.mp hlines.symm).symm
  | cons t d ih =>
    obtain ⟨k, l⟩ := t
    obtain ⟨k', d', rfl, hrest⟩ := exists_cons_of_lines hlines
    obtain ⟨hk, h⟩ := (cons_mem_behind_iff hs).mp hd
    obtain ⟨hk', h'⟩ := (cons_mem_behind_iff hs).mp hd'
    obtain rfl := Leads.kind_unique hw hs hk hk' h h'
    obtain ⟨c, s', hs', hd, hd'⟩ := Leads.together hw hs h h' hrest
    rw [ih hs' hd hd' hrest]

theorem Opens.looks (h : Opens w others l d k) : l.Looks .english none k := by
  cases k with
  | language =>
    obtain ⟨name, hname, -⟩ := Option.bind_eq_some_iff.mp h.1
    simp [Line.Looks, hname]
  | tags =>
    obtain ⟨-, ⟨ts, hts⟩, -⟩ := h
    simp [Line.Looks, hts]
  | title b =>
    cases b with
    | feature =>
      obtain ⟨rfl, htitle, -⟩ := h
      exact htitle
    | _ => exact h.elim
  | comment => exact h.1.1
  | empty => exact h.1
  | _ => exact h.elim

theorem Opens.kind_unique {w' : Language} (h : Opens w others l d k)
    (h' : Opens w' others l d' k') : k = k' := by
  have hother : k ≠ .other := by
    rintro rfl
    exact h
  have hother' : k' ≠ .other := by
    rintro rfl
    exact h'
  rcases h.looks.unique Language.clear_english h'.looks hother hother' with heq | ⟨rfl, rfl⟩
    | ⟨rfl, rfl⟩
  · exact heq
  · have hname := h.1
    rw [h'.1.2] at hname
    cases hname
  · have hname := h'.1
    rw [h.1.2] at hname
    cases hname

theorem document_unique {w' : Language} (hclear : ∀ w ∈ others, w.Clear)
    (hd : d ∈ document w others) (hd' : d' ∈ document w' others)
    (hlines : d.map Token.line = d'.map Token.line) : w = w' ∧ d = d' := by
  induction d generalizing d' with
  | nil => exact absurd hd (nil_notMem_document w others)
  | cons t d ih =>
    obtain ⟨k, l⟩ := t
    obtain ⟨k', d', rfl, hrest⟩ := exists_cons_of_lines hlines
    have h := cons_mem_document_iff.mp hd
    have h' := cons_mem_document_iff.mp hd'
    obtain rfl := h.kind_unique h'
    -- once the language is settled, the rest is read in one state
    have hbehind : ∀ {s : State}, s ≠ .start → w = w' → w ∈ Language.table others →
        d ∈ behind w 0 s → d' ∈ behind w' 0 s → w = w' ∧
        (⟨k, l⟩ :: d : List Token) = ⟨k, l⟩ :: d' := by
      rintro s hs rfl hw hd hd'
      rw [behind_unique (Language.clear_of_mem_table hclear w hw) hs hd hd' hrest]
      exact ⟨rfl, rfl⟩
    have hcons : w = w' ∧ d = d' → w = w' ∧ (⟨k, l⟩ :: d : List Token) = ⟨k, l⟩ :: d' := by
      rintro ⟨hw, rfl⟩
      exact ⟨hw, rfl⟩
    cases k with
    | language =>
      obtain ⟨name, -, hname⟩ := Option.bind_eq_some_iff.mp h.1
      have hw : w = w' := Option.some.inj (h.1.symm.trans h'.1)
      exact hbehind (s := .headed) nofun hw (List.mem_of_find?_eq_some hname) h.2 h'.2
    | tags =>
      obtain ⟨rfl, -, hd⟩ := h
      exact hbehind (s := .tagged .feature) nofun h'.1.symm List.mem_cons_self hd h'.2.2
    | title b =>
      cases b with
      | feature =>
        obtain ⟨rfl, -, hd⟩ := h
        exact hbehind (s := .titled .feature) nofun h'.1.symm List.mem_cons_self hd h'.2.2
      | _ => exact h.elim
    | comment | empty => exact hcons (ih h.2 h'.2 hrest)
    | _ => exact h.elim

end

end Grammar

/-- A file has one derivation at most. -/
theorem Derivation.unique {others : List Language} {content : Text} (hclear : ∀ w ∈ others, w.Clear)
    (R R' : Derivation others content) : R = R' := by
  obtain ⟨hlanguage, htokens⟩ :=
    Grammar.document_unique hclear R.derived R'.derived (R.covers.trans R'.covers.symm)
  exact Derivation.ext hlanguage htokens

/-! ## The parts of a feature -/

/-- The beginning of a background or of a scenario, or a step. -/
inductive Part where
  | block (name : Text) (line : Nat)
  | step (keyword : StepKeyword) (text : Text) (line : Nat)
deriving DecidableEq, Repr

def Part.line : Part → Nat
  | .block _ line | .step _ _ line => line

def Token.part? (w : Language) (t : Token) : Option Part :=
  match t.kind with
  | .title .background => some (.block backgroundName t.line.number)
  | .title .scenario => (t.line.title? w .scenario).map fun name => .block name t.line.number
  | .step => (t.line.step? w).map fun (word, text) => .step (keywordOf word) text t.line.number
  | _ => none

/-- The parts of a file in the order of its lines: all backgrounds and scenarios, at the top or in a
rule, and all steps. -/
def Derivation.parts {others : List Language} {content : Text} (R : Derivation others content) :
    List Part :=
  R.tokens.filterMap (Token.part? R.language)

theorem Token.part?_background (w : Language) (l : Line) :
    part? w ⟨.title .background, l⟩ = some (.block backgroundName l.number) := rfl

theorem Token.part?_scenario {w : Language} {l : Line} {name : Text}
    (h : l.title? w .scenario = some name) :
    part? w ⟨.title .scenario, l⟩ = some (.block name l.number) := by
  simp [part?, h]

theorem Token.part?_step {w : Language} {l : Line} {word text : Text}
    (h : l.step? w = some (word, text)) :
    part? w ⟨.step, l⟩ = some (.step (keywordOf word) text l.number) := by
  simp [part?, h]

theorem Token.line_of_part? {w : Language} {t : Token} {p : Part} (h : t.part? w = some p) :
    p.line = t.line.number := by
  unfold part? at h
  split at h
  · cases h
    rfl
  · obtain ⟨name, -, rfl⟩ := Option.map_eq_some_iff.mp h
    rfl
  · obtain ⟨x, -, rfl⟩ := Option.map_eq_some_iff.mp h
    rfl
  · cases h

theorem Line.map_number_ofText (content : Text) :
    (ofText content).map Line.number = List.range' 1 (ofText content).length := by
  refine List.ext_getElem (by simp) fun i hi hi' => ?_
  simp [ofText, Nat.add_comm]

namespace Derivation

variable {others : List Language} {content : Text}

theorem map_number_tokens (R : Derivation others content) :
    R.tokens.map (fun t => t.line.number) = List.range' 1 (Line.ofText content).length := by
  rw [← Line.map_number_ofText, ← R.covers, List.map_map]
  rfl

theorem pairwise_parts (R : Derivation others content) :
    R.parts.Pairwise fun p q => p.line < q.line := by
  have htokens : R.tokens.Pairwise fun t u => t.line.number < u.line.number := by
    rw [← List.pairwise_map (f := fun t : Token => t.line.number) (R := (· < ·)), map_number_tokens]
    exact List.pairwise_lt_range'
  refine htokens.filterMap _ fun t u htu p hp q hq => ?_
  rw [Token.line_of_part? hp, Token.line_of_part? hq]
  exact htu

theorem line_of_mem_parts (R : Derivation others content) {p : Part} (hp : p ∈ R.parts) :
    1 ≤ p.line ∧ p.line ≤ (Line.ofText content).length := by
  obtain ⟨t, ht, hpart⟩ := List.mem_filterMap.mp hp
  have hnumber : t.line.number ∈ List.range' 1 (Line.ofText content).length := by
    rw [← R.map_number_tokens]
    exact List.mem_map_of_mem ht
  rw [Token.line_of_part? hpart]
  have := List.mem_range'_1.mp hnumber
  omega

end Derivation

/-! ## Nothing before the first block -/

namespace Grammar

variable {w : Language} {n : Nat} {s : State} {d : List Token}

def early : List State :=
  [.headed, .tagged .feature, .tagged .scenario, .tagged .rule, .titled .feature, .titled .rule]

def BlockFirst (ps : List Part) : Prop :=
  ∀ keyword text line rest, ps ≠ .step keyword text line :: rest

theorem early_accepted :
    ∀ s ∈ early, ∀ k ∈ s.accepted, k ∉ [Kind.step, .mark, .row, .title .examples] := by
  decide

theorem tagged_mem_early {b : Block} (hs : s ∈ early) (h : Owns s b) : .tagged b ∈ early := by
  simp only [early, List.mem_cons, List.not_mem_nil, or_false] at hs
  rcases hs with rfl | rfl | rfl | rfl | rfl | rfl <;> cases b <;>
    simp_all [Owns, State.ownsTags, State.accepted, State.followers, early]

theorem blockFirst_parts (hs : s ∈ early) (hd : d ∈ behind w n s) :
    BlockFirst (d.filterMap (Token.part? w)) := by
  induction d generalizing s with
  | nil => nofun
  | cons t d ih =>
    obtain ⟨k, l⟩ := t
    have hstart : s ≠ .start := by
      rintro rfl
      simp [early] at hs
    obtain ⟨hk, h⟩ := (cons_mem_behind_iff hstart).mp hd
    have hkind := early_accepted s hs k hk
    cases k with
    | ending | language => exact h.elim
    | step | mark | row => simp at hkind
    | tags =>
      obtain ⟨-, b, hb, htail⟩ := h
      exact ih (tagged_mem_early hs hb) htail
    | title b =>
      cases b with
      | examples => simp at hkind
      | feature => exact ih (by decide) h.2
      | rule => exact ih (by decide) h.2
      | background =>
        rw [List.filterMap_cons_some (Token.part?_background w l)]
        nofun
      | scenario =>
        obtain ⟨name, hname⟩ := Option.isSome_iff_exists.mp h.1
        rw [List.filterMap_cons_some (Token.part?_scenario hname)]
        nofun
    | comment | empty | other => exact ih hs h.2

theorem blockFirst_document {others : List Language} (hd : d ∈ document w others) :
    BlockFirst (d.filterMap (Token.part? w)) := by
  induction d with
  | nil => exact absurd hd (nil_notMem_document w others)
  | cons t d ih =>
    obtain ⟨k, l⟩ := t
    have h := cons_mem_document_iff.mp hd
    cases k with
    | language => exact blockFirst_parts (d := d) (s := .headed) (by decide) h.2
    | tags => exact blockFirst_parts (d := d) (s := .tagged .feature) (by decide) h.2.2
    | title b =>
      cases b with
      | feature => exact blockFirst_parts (d := d) (s := .titled .feature) (by decide) h.2.2
      | _ => exact h.elim
    | comment | empty => exact ih h.2
    | _ => exact h.elim

end Grammar
end Gherkin
end StepAtlas
