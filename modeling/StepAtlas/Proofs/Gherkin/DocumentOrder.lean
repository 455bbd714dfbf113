import StepAtlas.Proofs.Gherkin.Derivation
import StepAtlas.Proofs.Gherkin.RoundTrip

/-
What is read from a file stands in the order of the file.  A reader that never complains reads every
line as a token that the grammar allows at its place, so its run is a derivation of the file, and
its entries are the parts of this derivation.  A fault cannot be undone: once there is a complaint,
or an open table with an odd row, the file is refused in the end.
-/

namespace StepAtlas

def Scenario.parts (sc : Scenario) : List Gherkin.Part :=
  .block sc.name sc.line :: sc.steps.map fun st => .step st.keyword st.text st.line

def Feature.parts (f : Feature) : List Gherkin.Part := f.scenarios.flatMap Scenario.parts

namespace Gherkin

open Grammar

def Entry.part : Entry → Part
  | .block name line _ => .block name line
  | .step word text line => .step (keywordOf word) text line

theorem Complaint.add_ne_nil (complaints : List Complaint) (c : Complaint) :
    add complaints c ≠ [] := by
  intro h
  rw [add] at h
  split at h
  · rename_i hgiven
    subst h
    simp [limit] at hgiven
  · simp at h

namespace Reader

variable {others : List Language} {r r' : Reader} {n : Nat} {l : Line} {ls : List Line} {k : Kind}
  {s : State}

def parts (r : Reader) : List Part := r.entries.reverse.map Entry.part

/-! ## Faults -/

/-- Nothing was complained about, and nothing will be when the open table is closed. -/
def Faultless (r : Reader) : Prop := r.complaints = [] ∧ ∀ t, r.table = some t → t.odd = none

theorem not_faultless_complain (r : Reader) (c : Complaint) : ¬ (r.complain c).Faultless :=
  fun h => Complaint.add_ne_nil r.complaints c h.1

theorem closeTable_eq (h : r.Faultless) : r.closeTable = { r with table := none } := by
  unfold closeTable
  split
  · rename_i htable
    cases h.2 _ htable
  · rfl

theorem faultless_of_closeTable (h : r.closeTable.complaints = []) : r.Faultless := by
  unfold closeTable at h
  split at h
  · exact absurd h (Complaint.add_ne_nil _ _)
  · rename_i hodd
    refine ⟨h, fun t ht => ?_⟩
    by_contra hne
    obtain ⟨c, hc⟩ := Option.ne_none_iff_exists'.mp hne
    exact hodd t.cells c (by rw [ht, ← hc])

theorem faultless_of_goto (h : (r.goto s).Faultless) : r.Faultless := by
  unfold goto at h
  split at h
  · exact h
  · exact faultless_of_closeTable h.1

theorem faultless_of_addRow {cells : Nat} (h : (r.addRow l cells).Faultless) :
    r.Faultless ∧ ∀ t, r.table = some t → t.cells = cells := by
  obtain ⟨hcomplaints, hodd⟩ := h
  -- a first row with another number of cells would be kept as odd
  have hall : ∀ t, r.table = some t → t.odd = none ∧ t.cells = cells := by
    intro t ht
    have hnew := hodd _ rfl
    rw [ht] at hnew
    dsimp only at hnew
    split at hnew
    · rename_i hsame
      exact ⟨hnew, by simpa [hnew] using hsame⟩
    · cases hnew
  exact ⟨⟨hcomplaints, fun t ht => (hall t ht).1⟩, fun t ht => (hall t ht).2⟩

theorem faultless_of_addTitle {b : Block} {name : Text} {line : Nat}
    (h : (r.addTitle b name line).Faultless) :
    r.Faultless := by
  cases b <;> exact h

/-! ## One line -/

/-- What it comes to that a line is read as a token of some kind. -/
inductive Moves (r : Reader) (l : Line) (rest : List Line) : Kind → Reader → Prop where
  | language {name : Text} {w : Language} (hname : l.language? = some name)
      (hw : Language.named? r.languages name = some w) :
    Moves r l rest .language { (r.goto .headed) with language := w }
  | tags {ts : List Text} (h : l.tags? = some (.ok ts)) :
    Moves r l rest .tags { (r.goto (.tagged (r.owner rest))) with tags := r.tags ++ ts }
  | title {b : Block} {name : Text} (h : l.title? r.language b = some name) :
    Moves r l rest (.title b) ((r.goto (.titled b)).addTitle b name l.number)
  | step {word text : Text} (h : l.step? r.language = some (word, text)) :
    Moves r l rest .step
      { (r.goto (.step r.state.holder false false)) with
        entries := .step word text l.number :: r.entries }
  | mark {m : Mark} (h : l.mark? r.state.opened = some m) :
      Moves r l rest .mark (r.goto (r.state.afterMark m))
  | row {cells : Nat} (h : l.cells? = some cells) :
      Moves r l rest .row ((r.goto r.state.afterRow).addRow l cells)
  | comment (h : l.isComment) : Moves r l rest .comment r
  | empty (h : l.isEmpty) : Moves r l rest .empty r
  | other : Moves r l rest .other r

/-- A line is read as a token of some kind, or it does not look like one and is passed over, or
there is a complaint. -/
theorem tryKind_cases (r : Reader) (l : Line) (rest : List Line) (k : Kind) :
    (∃ r', r.tryKind l rest k = .ok r' ∧ Moves r l rest k r') ∨
      (r.tryKind l rest k = .error r ∧ ¬ l.Looks r.language r.state.opened k) ∨
      ∃ c, r.tryKind l rest k = .error (r.complain c) := by
  cases k with
  | ending => exact .inr (.inl ⟨rfl, id⟩)
  | other => exact .inl ⟨r, rfl, .other⟩
  | language =>
    cases hname : l.language? with
    | none => exact .inr (.inl ⟨by simp [tryKind, hname], by simp [Line.Looks, hname]⟩)
    | some name =>
      cases hw : Language.named? r.languages name with
      | none => exact .inr (.inr ⟨_, by simp only [tryKind, hname, hw]; rfl⟩)
      | some w => exact .inl ⟨_, by simp only [tryKind, hname, hw], .language hname hw⟩
  | tags =>
    cases htags : l.tags? with
    | none => exact .inr (.inl ⟨by simp [tryKind, htags], by simp [Line.Looks, htags]⟩)
    | some result =>
      cases result with
      | error column => exact .inr (.inr ⟨_, by simp only [tryKind, htags]; rfl⟩)
      | ok ts => exact .inl ⟨_, by simp only [tryKind, htags], .tags htags⟩
  | title b =>
    cases hname : l.title? r.language b with
    | none => exact .inr (.inl ⟨by simp [tryKind, hname], by simp [Line.Looks, hname]⟩)
    | some name => exact .inl ⟨_, by simp only [tryKind, hname], .title hname⟩
  | step =>
    cases hstep : l.step? r.language with
    | none => exact .inr (.inl ⟨by simp [tryKind, hstep], by simp [Line.Looks, hstep]⟩)
    | some x => exact .inl ⟨_, by simp only [tryKind, hstep], .step hstep⟩
  | mark =>
    cases hm : l.mark? r.state.opened with
    | none => exact .inr (.inl ⟨by simp [tryKind, hm], by simp [Line.Looks, hm]⟩)
    | some m => exact .inl ⟨_, by simp only [tryKind, hm], .mark hm⟩
  | row =>
    cases hcells : l.cells? with
    | none => exact .inr (.inl ⟨by simp [tryKind, hcells], by simp [Line.Looks, hcells]⟩)
    | some cells => exact .inl ⟨_, by simp only [tryKind, hcells], .row hcells⟩
  | comment =>
    cases hcomment : l.isComment with
    | false => exact .inr (.inl ⟨by simp [tryKind, hcomment], by simp [Line.Looks, hcomment]⟩)
    | true => exact .inl ⟨r, by simp [tryKind, hcomment], .comment hcomment⟩
  | empty =>
    cases hempty : l.isEmpty with
    | false => exact .inr (.inl ⟨by simp [tryKind, hempty], by simp [Line.Looks, hempty]⟩)
    | true => exact .inl ⟨r, by simp [tryKind, hempty], .empty hempty⟩

theorem Moves.faultless (h : Moves r l ls k r') (hr' : r'.Faultless) : r.Faultless := by
  cases h with
  | language | tags | step | mark => exact faultless_of_goto hr'
  | title => exact faultless_of_goto (faultless_of_addTitle hr')
  | row => exact faultless_of_goto (faultless_of_addRow hr').1
  | comment | empty | other => exact hr'

/-- The first kind that a line looks like is the one that it is read as. -/
theorem tryKinds_ok {ks : List Kind} (h : tryKinds l ls r ks = .ok r') (hr' : r'.Faultless) :
    ∃ before k after, ks = before ++ k :: after ∧ Moves r l ls k r' ∧
      ∀ k' ∈ before, ¬ l.Looks r.language r.state.opened k' := by
  induction ks generalizing r with
  | nil => cases h
  | cons k ks ih =>
    rw [tryKinds] at h
    rcases tryKind_cases r l ls k with ⟨r₁, htry, hmoves⟩ | ⟨htry, hlooks⟩ | ⟨c, htry⟩
    · rw [htry] at h
      cases h
      exact ⟨[], k, ks, rfl, hmoves, by simp⟩
    · rw [htry] at h
      obtain ⟨before, k', after, rfl, hmoves, hbefore⟩ := ih h
      exact ⟨k :: before, k', after, rfl, hmoves, List.forall_mem_cons.mpr ⟨hlooks, hbefore⟩⟩
    · rw [htry] at h
      obtain ⟨before, k', after, rfl, hmoves, hbefore⟩ := ih h
      exact absurd (hmoves.faultless hr') (not_faultless_complain r c)

theorem line_moves {rest : List Line} (h : (r.line l rest).Faultless) :
    ∃ before k after, r.state.accepted = before ++ k :: after ∧ Moves r l rest k (r.line l rest) ∧
      ∀ k' ∈ before, ¬ l.Looks r.language r.state.opened k' := by
  unfold line at h ⊢
  split at h
  · rename_i htry
    exact tryKinds_ok htry h
  · exact absurd h (not_faultless_complain _ _)

theorem faultless_of_lines (h : (r.lines ls).Faultless) : r.Faultless := by
  induction ls generalizing r with
  | nil => exact h
  | cons l ls ih =>
    obtain ⟨before, k, after, -, hmoves, -⟩ := line_moves (ih h)
    exact hmoves.faultless (ih h)

theorem faultless_of_finish (h : (r.finish n).complaints = []) :
    r.Faultless ∧ Kind.ending ∈ r.state.accepted := by
  unfold finish at h
  split at h
  · rename_i hending
    exact ⟨faultless_of_closeTable h, hending⟩
  · exact absurd h (Complaint.add_ne_nil _ _)

/-! ## Tokens -/

/-- Nothing was complained about, and the rows of the open table have `n` cells. -/
structure Clean (r : Reader) (n : Nat) : Prop where
  complaints : r.complaints = []
  table : r.table = if r.state.inTable then some { cells := n, odd := none } else none

theorem Clean.faultless (h : r.Clean n) : r.Faultless := by
  refine ⟨h.complaints, fun t ht => ?_⟩
  rw [h.table] at ht
  split at ht
  · cases ht
    rfl
  · cases ht

theorem goto_eq (h : r.Faultless) (hs : s.inTable = false) :
    r.goto s = { r with state := s, table := none } := by
  rw [goto, hs, closeTable_eq h]
  rfl

/-- What it comes to, in terms of the grammar, that a line is read as a token. -/
structure Takes (r : Reader) (n : Nat) (l : Line) (k : Kind) (r' : Reader) : Prop where
  started : r.state ≠ .start → r'.state ≠ .start
  language : r'.language = r.language
  parts : r'.parts = r.parts ++ (Token.part? r.language ⟨k, l⟩).toList
  next : ∃ c, r'.Clean c ∧ ∀ d ∈ behind r.language c r'.state, Leads r.language n r.state l d k

/-- Where tags may stand without an owner, a scenario or a rule may follow. -/
theorem titles_accepted (hs : s.ownsTags = none) (h : Kind.tags ∈ s.accepted) :
    Kind.title .scenario ∈ s.accepted ∧ Kind.title .rule ∈ s.accepted := by
  cases s with
  | start | headed | tagged b => cases hs
  | titled b => cases b <;> simp [State.accepted, State.followers]
  | step | rows | exampleRows => simp [State.accepted, State.followers]
  | doc | finished => simp [State.accepted] at h

theorem owns_owner (h : Kind.tags ∈ r.state.accepted) (rest : List Line) :
    Owns r.state (r.owner rest) := by
  unfold Owns owner
  cases hs : r.state.ownsTags with
  | some b => rfl
  | none =>
    obtain ⟨hscenario, hrule⟩ := titles_accepted hs h
    dsimp only
    split
    · rename_i hexamples
      exact ⟨by simp, of_decide_eq_true (Bool.and_eq_true_iff.mp hexamples).1⟩
    · split
      · exact ⟨by simp, hscenario⟩
      · exact ⟨by simp, hrule⟩

theorem inTable_afterMark (h : Kind.mark ∈ s.accepted) (m : Mark) :
    (s.afterMark m).inTable = false := by
  cases s with
  | exampleRows => simp [State.accepted, State.followers] at h
  | _ => rfl

theorem inTable_afterRow (s : State) : s.afterRow.inTable = true := by
  cases s <;> rfl

theorem takes_row {cells : Nat} (hr : r.Clean n)
    (hr' : ((r.goto r.state.afterRow).addRow l cells).Faultless) (hcells : l.cells? = some cells) :
    Takes r n l .row ((r.goto r.state.afterRow).addRow l cells) := by
  have hgoto : r.goto r.state.afterRow = { r with state := r.state.afterRow } := by
    rw [goto, if_pos (inTable_afterRow r.state)]
  obtain ⟨-, hsame⟩ := faultless_of_addRow hr'
  rw [hgoto] at hsame ⊢
  have hn : r.state.inTable → cells = n := by
    intro hin
    exact (hsame _ (by rw [hr.table, if_pos hin])).symm
  refine ⟨fun _ => State.afterRow_ne_start _, rfl, (List.append_nil _).symm, cells,
    ⟨hr.complaints, ?_⟩,
    fun d hd => ⟨cells, hcells, hn, hd⟩⟩
  by_cases hin : r.state.inTable
  · obtain rfl := hn hin
    simp [addRow, hr.table, hin, inTable_afterRow]
  · simp [addRow, hr.table, hin, inTable_afterRow]

theorem takes_title {b : Block} {name : Text} (hr : r.Clean n)
    (hname : l.title? r.language b = some name) :
    Takes r n l (.title b) ((r.goto (.titled b)).addTitle b name l.number) := by
  have hleads : ∀ d ∈ behind r.language n (.titled b),
      Leads r.language n r.state l d (.title b) := by
    intro d hd
    exact ⟨Option.isSome_iff_exists.mpr ⟨name, hname⟩, hd⟩
  rw [goto_eq hr.faultless rfl]
  cases b with
  | feature | rule | examples =>
    exact ⟨fun _ => nofun, rfl, (List.append_nil _).symm, n, ⟨hr.complaints, rfl⟩, hleads⟩
  | background =>
    refine ⟨fun _ => nofun, rfl, ?_, n, ⟨hr.complaints, rfl⟩, hleads⟩
    rw [Token.part?_background]
    simp [parts, addTitle, Entry.part]
  | scenario =>
    refine ⟨fun _ => nofun, rfl, ?_, n, ⟨hr.complaints, rfl⟩, hleads⟩
    rw [Token.part?_scenario hname]
    simp [parts, addTitle, Entry.part]

/-- A token of an accepted kind leads where the grammar says.  Only a line that looks like nothing
else may be read as plain text. -/
theorem Moves.takes (hr : r.Clean n) (hr' : r'.Faultless) (h : Moves r l ls k r')
    (hk : k ∈ r.state.accepted) (hlanguage : k ≠ .language)
    (hother : k = .other → ∀ k' ∈ r.state.accepted, k' ≠ .other →
      ¬ l.Looks r.language r.state.opened k') :
    Takes r n l k r' := by
  cases h with
  | language => exact absurd rfl hlanguage
  | tags hts =>
    rw [goto_eq hr.faultless rfl]
    exact ⟨fun _ => nofun, rfl, (List.append_nil _).symm, n, ⟨hr.complaints, rfl⟩,
      fun d hd => ⟨⟨_, hts⟩, _, owns_owner hk ls, hd⟩⟩
  | title hname => exact takes_title hr hname
  | step hstep =>
    rw [goto_eq hr.faultless rfl]
    refine ⟨fun _ => nofun, rfl, ?_, n, ⟨hr.complaints, rfl⟩,
      fun d hd => ⟨Option.isSome_iff_exists.mpr ⟨_, hstep⟩, hd⟩⟩
    rw [Token.part?_step hstep]
    simp [parts, Entry.part]
  | mark hm =>
    have hin := inTable_afterMark hk
    rw [goto_eq hr.faultless (hin _)]
    exact ⟨fun hs => State.afterMark_ne_start hs _, rfl, (List.append_nil _).symm, n,
      ⟨hr.complaints, by simp [hin]⟩, fun d hd => ⟨_, hm, hd⟩⟩
  | row hcells => exact takes_row hr hr' hcells
  | comment hcomment => exact ⟨id, rfl, (List.append_nil _).symm, n, hr, fun d hd => ⟨hcomment, hd⟩⟩
  | empty hempty => exact ⟨id, rfl, (List.append_nil _).symm, n, hr, fun d hd => ⟨hempty, hd⟩⟩
  | other => exact ⟨id, rfl, (List.append_nil _).symm, n, hr, fun d hd => ⟨hother rfl, hd⟩⟩

/-! ## Runs -/

/-- Plain text is tried last. -/
theorem other_last (s : State) : s.accepted.Pairwise fun k _ => k ≠ .other := by
  cases s with
  | start | headed | tagged b | doc h hasTable m | finished => simp [State.accepted]
  | titled b => cases b <;> simp [State.accepted, State.followers]
  | step h hasTable hasDoc =>
    cases hasTable <;> cases hasDoc <;> cases h <;> simp [State.accepted, State.followers]
  | rows h hasDoc => cases hasDoc <;> cases h <;> simp [State.accepted, State.followers]
  | exampleRows => simp [State.accepted, State.followers]

theorem line_takes {rest : List Line} (hr : r.Clean n) (hs : r.state ≠ .start)
    (h : (r.line l rest).Faultless) :
    ∃ k ∈ r.state.accepted, Takes r n l k (r.line l rest) := by
  obtain ⟨before, k, after, haccepted, hmoves, hbefore⟩ := line_moves h
  have hk : k ∈ r.state.accepted := by simp [haccepted]
  refine ⟨k, hk, hmoves.takes hr h hk ?_ ?_⟩
  · rintro rfl
    exact State.language_notMem_accepted hs hk
  · rintro rfl k' hk' hne
    have hlast := other_last r.state
    rw [haccepted, List.pairwise_append, List.pairwise_cons] at hlast
    rw [haccepted, List.mem_append, List.mem_cons] at hk'
    rcases hk' with hk' | rfl | hk'
    · exact hbefore k' hk'
    · exact absurd rfl hne
    · exact absurd rfl (hlast.2.1.1 k' hk')

/-- The lines of a run without complaints are derived, and the parts of the derivation are read. -/
theorem lines_derived (hs : r.state ≠ .start) (hr : r.Clean n) {m : Nat}
    (hend : ((r.lines ls).finish m).complaints = []) :
    ∃ d ∈ behind r.language n r.state, d.map Token.line = ls ∧
      (r.lines ls).parts = r.parts ++ d.filterMap (Token.part? r.language) := by
  induction ls generalizing r n with
  | nil =>
    refine ⟨[], (nil_mem_behind_iff hs).mpr (faultless_of_finish hend).2, rfl, ?_⟩
    simp [lines]
  | cons l ls ih =>
    obtain ⟨k, hk, htakes⟩ := line_takes hr hs (faultless_of_lines (faultless_of_finish hend).1)
    obtain ⟨c, hclean, hleads⟩ := htakes.next
    obtain ⟨d, hd, hlines, hparts⟩ := ih (htakes.started hs) hclean hend
    rw [htakes.language] at hd hparts
    refine ⟨⟨k, l⟩ :: d, (cons_mem_behind_iff hs).mpr ⟨hk, hleads d hd⟩,
      by rw [List.map_cons, hlines], ?_⟩
    rw [lines, hparts, htakes.parts, List.append_assoc]
    cases hpart : Token.part? r.language ⟨k, l⟩ <;> simp [hpart]

/-- The head of a file ends with a line behind which the language is settled. -/
theorem opened_derived {m : Nat} (hs : r.state ≠ .start) (hr : r.Clean 0) (hparts : r.parts = [])
    (hpart : Token.part? r.language ⟨k, l⟩ = none)
    (hopens : ∀ d ∈ behind r.language 0 r.state, Opens r.language others l d k)
    (hend : ((r.lines ls).finish m).complaints = []) :
    ∃ w, ∃ d ∈ document w others, d.map Token.line = l :: ls ∧
      (r.lines ls).parts = d.filterMap (Token.part? w) := by
  obtain ⟨d, hd, hlines, hread⟩ := lines_derived hs hr hend
  refine ⟨r.language, ⟨k, l⟩ :: d, cons_mem_document_iff.mpr (hopens d hd),
    by rw [List.map_cons, hlines], ?_⟩
  rw [hread, hparts, List.nil_append, List.filterMap_cons_none hpart]

/-- A file in which a feature was read without complaints is derived. -/
theorem start_derived {m : Nat} (hend : (((start others).lines ls).finish m).complaints = [])
    (hfeature : ((start others).lines ls).feature ≠ none) :
    ∃ w, ∃ d ∈ document w others,
      d.map Token.line = ls ∧ ((start others).lines ls).parts = d.filterMap (Token.part? w) := by
  induction ls with
  | nil => exact absurd rfl hfeature
  | cons l ls ih =>
    obtain ⟨before, k, after, haccepted, hmoves, hbefore⟩ :=
      line_moves (faultless_of_lines (faultless_of_finish hend).1)
    have hk : k ∈ State.start.accepted := by
      rw [show State.start.accepted = before ++ k :: after from haccepted]
      simp
    have hfaultless : (start others).Faultless := ⟨rfl, nofun⟩
    rw [lines] at hend hfeature ⊢
    generalize (start others).line l ls = r at *
    cases hmoves with
    | @language name w hname hw =>
      rw [goto_eq hfaultless rfl] at hend ⊢
      have hbind : l.language?.bind (Language.named? (Language.table others)) = some w :=
        Option.bind_eq_some_iff.mpr ⟨name, hname, hw⟩
      exact opened_derived (k := .language) (by simp) ⟨rfl, rfl⟩ rfl rfl (fun d hd => ⟨hbind, hd⟩)
        hend
    | tags hts =>
      rw [goto_eq hfaultless rfl] at hend ⊢
      exact opened_derived (k := .tags) (by simp) ⟨rfl, rfl⟩ rfl rfl
        (fun d hd => ⟨rfl, ⟨_, hts⟩, hd⟩) hend
    | @title b name hname =>
      obtain rfl : b = .feature := by simpa [State.accepted] using hk
      rw [goto_eq hfaultless rfl] at hend ⊢
      exact opened_derived (k := .title .feature) (by simp [addTitle]) ⟨rfl, rfl⟩ rfl rfl
        (fun d hd => ⟨rfl, Option.isSome_iff_exists.mpr ⟨name, hname⟩, hd⟩) hend
    | comment hcomment =>
      -- the name of a language is looked for before a comment is
      have hlanguage : Kind.language ∈ before := by
        rcases before with _ | ⟨k, _ | ⟨k', before⟩⟩
        · cases haccepted
        · cases haccepted
        · obtain rfl : .language = k' := (List.cons.inj (List.cons.inj haccepted).2).1
          simp
      obtain ⟨w, d, hd, hlines, hparts⟩ := ih hend hfeature
      have hnone : l.language? = none := by simpa [Line.Looks] using hbefore _ hlanguage
      exact ⟨w, ⟨.comment, l⟩ :: d, cons_mem_document_iff.mpr ⟨⟨hcomment, hnone⟩, hd⟩,
        by rw [List.map_cons, hlines], hparts⟩
    | empty hempty =>
      obtain ⟨w, d, hd, hlines, hparts⟩ := ih hend hfeature
      exact ⟨w, ⟨.empty, l⟩ :: d, cons_mem_document_iff.mpr ⟨hempty, hd⟩,
        by rw [List.map_cons, hlines], hparts⟩
    | step | mark | row | other => simp [State.accepted] at hk

theorem finish_keeps (r : Reader) (n : Nat) :
    (r.finish n).entries = r.entries ∧ (r.finish n).feature = r.feature := by
  unfold finish goto closeTable complain
  split
  · rw [if_neg (by decide)]
    dsimp only
    split <;> exact ⟨rfl, rfl⟩
  · exact ⟨rfl, rfl⟩

theorem exists_derivation {content : Text} (h : (ofText others content).complaints = [])
    (hfeature : (ofText others content).feature ≠ none) :
    ∃ R : Derivation others content, (ofText others content).parts = R.parts := by
  rw [ofText, (finish_keeps _ _).2] at hfeature
  obtain ⟨w, d, hd, hlines, hparts⟩ := start_derived h hfeature
  refine ⟨⟨w, d, hd, hlines⟩, ?_⟩
  rw [ofText, parts, (finish_keeps _ _).1]
  exact hparts

end Reader

/-! ## Scenarios -/

theorem map_part_eq (source : Path) (feature : Text) (es : List Entry) :
    es.map Entry.part =
      (scenariosOf source feature es).1.map (fun (keyword, text, line) =>
        .step keyword text line) ++
        (scenariosOf source feature es).2.flatMap Scenario.parts := by
  induction es with
  | nil => rfl
  | cons e es ih =>
    cases e with
    | step word text line =>
      rw [List.map_cons, ih]
      rfl
    | block name line tags =>
      rw [List.map_cons, ih]
      simp [scenariosOf, Scenario.parts, Entry.part]

theorem belongs_scenariosOf (source : Path) (feature : Text) (es : List Entry) :
    ∀ sc ∈ (scenariosOf source feature es).2, Reader.Belongs source feature sc := by
  induction es with
  | nil => nofun
  | cons e es ih =>
    cases e with
    | step word text line => exact ih
    | block name line tags =>
      refine List.forall_mem_cons.mpr ⟨?_, ih⟩
      intro st hst
      obtain ⟨x, -, rfl⟩ := List.mem_map.mp hst
      exact ⟨rfl, rfl, rfl⟩

/-- Without steps before the first block, the scenarios have all parts. -/
theorem parts_scenariosOf {source : Path} {feature : Text} {es : List Entry}
    (h : BlockFirst (es.map Entry.part)) :
    (scenariosOf source feature es).2.flatMap Scenario.parts = es.map Entry.part := by
  have hparts := map_part_eq source feature es
  cases hsteps : (scenariosOf source feature es).1 with
  | nil => rw [hparts, hsteps, List.map_nil, List.nil_append]
  | cons x steps =>
    rw [hsteps, List.map_cons, List.cons_append] at hparts
    exact absurd hparts (h _ _ _ _)

theorem result?_of_parse {others : List Language} {source : Path} {content : Text} {f : Feature}
    (h : parse others source content = .ok (some f)) :
    (Reader.ofText others content).complaints = [] ∧
      (Reader.ofText others content).result? source = some f := by
  rw [parse] at h
  split at h
  · rename_i hempty
    exact ⟨List.isEmpty_iff.mp hempty, Except.ok.inj h⟩
  · cases hlog : log (warning ++ "Failed to parse feature file " ++ source.toText ++ ": " ++
        Complaint.report (Reader.ofText others content).complaints) with
    | error e =>
      rw [hlog] at h
      cases h
    | ok u =>
      rw [hlog] at h
      cases h

/-- A feature that was read is in the order of its file: the file has exactly one derivation, and
the scenarios, each followed by its steps, are the backgrounds, scenarios and steps of this
derivation, every one once and in its place.  So their line numbers increase strictly and are
numbers of lines, and every step says where it belongs. -/
theorem parse_in_document_order {others : List Language} (hclear : ∀ w ∈ others, w.Clear)
    {source : Path} {content : Text} {f : Feature}
    (h : parse others source content = .ok (some f)) :
    (∃ R : Derivation others content, (∀ R' : Derivation others content, R' = R) ∧
      f.parts = R.parts) ∧
      f.parts.Pairwise (fun p q => p.line < q.line) ∧
      (∀ p ∈ f.parts, 1 ≤ p.line ∧ p.line ≤ (Line.ofText content).length) ∧
      ∀ sc ∈ f.scenarios, ∀ st ∈ sc.steps,
        st.source = source ∧ st.feature = f.name ∧ st.scenario = sc.name := by
  obtain ⟨hcomplaints, hresult⟩ := result?_of_parse h
  obtain ⟨⟨name, tags⟩, hfeature, rfl⟩ := Option.map_eq_some_iff.mp hresult
  obtain ⟨R, hread⟩ := Reader.exists_derivation hcomplaints (by simp [hfeature])
  have hparts : (scenariosOf source name (Reader.ofText others content).entries.reverse).2.flatMap
        Scenario.parts =
      R.parts := by
    rw [← hread]
    refine parts_scenariosOf ?_
    rw [← Reader.parts, hread]
    exact blockFirst_document R.derived
  dsimp only [Feature.parts]
  rw [hparts]
  refine ⟨⟨R, fun R' => R'.unique hclear R, rfl⟩, R.pairwise_parts, fun p hp =>
    R.line_of_mem_parts hp, ?_⟩
  intro sc hsc st hst
  obtain ⟨hsource, hscenario, hname⟩ := belongs_scenariosOf source name _ sc hsc st hst
  exact ⟨hsource, hname, hscenario⟩

/-- A file with tags and comments, an outline with two tables and a doc string that reads like a
scenario, and a rule with a background of its own. -/
def basket : Text :=
  "# language: en\n@shop\nFeature: Basket\nWhen in doubt\nBackground:\nGiven a basket\n\n@slow\n" ++
    "Scenario Outline: Adding\nWhen I add\n\"\"\"\nScenario: none\n\"\"\"\n@few\n# one\n" ++
    "Examples:\n|n|\n|1|\nExamples: many\n|n|\n\n|9|\nRule: Empty\nBackground:\nGiven nothing\n" ++
    "Example: Paying\n* it fails"

def basketParts : List Part :=
  [.block "Background" 5, .step .given "a basket" 6, .block "Adding" 9, .step .when "I add" 10,
    .block "Background" 24, .step .given "nothing" 25, .block "Paying" 26,
    .step .star "it fails" 27]

theorem basket_in_document_order :
    ∃ f, parse Language.common default basket = .ok (some f) ∧ f.parts = basketParts ∧
      (∃ R : Derivation Language.common basket,
        (∀ R' : Derivation Language.common basket, R' = R) ∧ f.parts = R.parts) ∧
      f.parts.Pairwise (fun p q => p.line < q.line) := by
  have hrun : (parse Language.common default basket).map (Option.map Feature.parts) =
      .ok (some basketParts) := by
    decide +kernel
  cases hparse : parse Language.common default basket with
  | error e =>
    rw [hparse] at hrun
    cases hrun
  | ok result =>
    cases result with
    | none =>
      rw [hparse] at hrun
      cases hrun
    | some f =>
      rw [hparse] at hrun
      obtain ⟨hone, hordered, -, -⟩ := parse_in_document_order Language.clear_of_mem_common hparse
      exact ⟨f, rfl, Option.some.inj (Except.ok.inj hrun), hone, hordered⟩

end Gherkin
end StepAtlas
