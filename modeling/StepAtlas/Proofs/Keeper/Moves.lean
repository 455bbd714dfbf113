import StepAtlas.Proofs.Keeper.Turns

/-
Courses of a keeper.  A move is a call from outside, a turn, or something that happens to the
workspace or the clock.  Between two moves nothing is half done, so the states after the moves of a
course are all that can be observed, and a fact about every course is a fact about every order in
which calls and turns can interleave.

A turn may be taken as soon as it is ready, in whatever order.  First come first served is one of
these orders, so what holds for all courses holds for `Keeper.settle`.
-/

namespace StepAtlas

inductive Move where
  | rebuild
  | startUp
  | refresh
  | notify (p : Path) (c : Change)
  | switchMode (mode : MatchMode)
  | changeSettings (changes : List (Text × Value))
  | listen (l : Listener)
  | dispose
  /-- One of the turns that are ready is taken. -/
  | turn (t : Turn)
  /-- The runs whose time has come are woken. -/
  | ring
  | pass (ms : Nat)
  | hold (g : Gate)
  | release (g : Gate)
  /-- The files are others from now on. -/
  | edit (w : Workspace)

def Move.job? : Move → Option Job
  | .rebuild => some .rebuild
  | .startUp => some .startUp
  | .refresh => some .refresh
  | _ => none

/-- A move that calls nothing and edits no file. -/
def Move.isPassive : Move → Bool
  | .turn _ | .ring | .pass _ | .hold _ | .release _ => true
  | _ => false

/-- A run that ended because something failed. -/
def Run.hasFailed (r : Run) : Bool :=
  match r.point with
  | .finished (.error (.failed _)) => true
  | _ => false

namespace Keeper

def takeReady (k : Keeper) (t : Turn) : Keeper :=
  if t ∈ k.ready then { k with ready := k.ready.erase t }.take t else k

/-- Make a move; the fault is what a call raises. -/
def perform (k : Keeper) : Move → Keeper × Option Fault
  | .rebuild => ((k.start .rebuild).1, none)
  | .startUp => ((k.start .startUp).1, none)
  | .refresh => ((k.start .refresh).1, none)
  | .notify p c => (k.notify p c, none)
  | .switchMode mode => k.switchMode mode
  | .changeSettings changes =>
    ((k.changeSettings changes).1, match (k.changeSettings changes).2 with
      | .ok _ => none
      | .error fault => some fault)
  | .listen l => (k.listen l, none)
  | .dispose => (k.dispose, none)
  | .turn t => (k.takeReady t, none)
  | .ring => (k.ring, none)
  | .pass ms => (k.pass ms, none)
  | .hold g => (k.hold g, none)
  | .release g => (k.release g, none)
  | .edit w => ({ k with workspace := w }, none)

def next (k : Keeper) (m : Move) : Keeper := (k.perform m).1

def after (k : Keeper) (ms : List Move) : Keeper := ms.foldl next k

def Calm (k : Keeper) : Prop := ∀ r ∈ k.runs, r.hasFailed = false

instance (k : Keeper) : Decidable k.Calm :=
  inferInstanceAs (Decidable (∀ r ∈ k.runs, r.hasFailed = false))

/-- A course of allowed moves in which no call raises and no run fails. -/
def Quiet (allowed : Keeper → Move → Prop) : Keeper → List Move → Prop
  | _, [] => True
  | k, m :: ms =>
    allowed k m ∧ (k.perform m).2 = none ∧ (k.next m).Calm ∧ Quiet allowed (k.next m) ms

/-- Whether nothing fails in a course can be decided by running it. -/
instance instDecidableQuiet (allowed : Keeper → Move → Prop) [∀ k m, Decidable (allowed k m)] :
    (k : Keeper) → (ms : List Move) → Decidable (Quiet allowed k ms)
  | _, [] => .isTrue trivial
  | k, m :: ms =>
    have : Decidable (Quiet allowed (k.next m) ms) := instDecidableQuiet allowed (k.next m) ms
    inferInstanceAs
      (Decidable (allowed k m ∧ (k.perform m).2 = none ∧ (k.next m).Calm ∧
        Quiet allowed (k.next m) ms))

theorem Quiet.of_allowed {allowed : Keeper → Move → Prop} {k : Keeper} {ms : List Move}
    (h : Quiet (fun _ _ => True) k ms) (hms : ∀ m ∈ ms, ∀ k, allowed k m) : Quiet allowed k ms := by
  induction ms generalizing k with
  | nil => trivial
  | cons m ms ih =>
    obtain ⟨-, hraise, hcalm, hrest⟩ := h
    exact ⟨hms m List.mem_cons_self k, hraise, hcalm, ih hrest fun m hm =>
      hms m (List.mem_cons_of_mem _ hm)⟩

theorem Quiet.imp {allowed allowed' : Keeper → Move → Prop}
    (himp : ∀ k m, allowed k m → allowed' k m) {k : Keeper} {ms : List Move}
    (h : Quiet allowed k ms) : Quiet allowed' k ms := by
  induction ms generalizing k with
  | nil => trivial
  | cons m ms ih =>
    obtain ⟨hm, hraise, hcalm, hrest⟩ := h
    exact ⟨himp k m hm, hraise, hcalm, ih hrest⟩

@[simp] theorem after_nil (k : Keeper) : k.after [] = k := rfl

@[simp] theorem after_cons (k : Keeper) (m : Move) (ms : List Move) :
    k.after (m :: ms) = (k.next m).after ms :=
  rfl

theorem after_append (k : Keeper) (ms ns : List Move) :
    k.after (ms ++ ns) = (k.after ms).after ns :=
  List.foldl_append

theorem quiet_append {allowed : Keeper → Move → Prop} {k : Keeper} {ms ns : List Move} :
    Quiet allowed k (ms ++ ns) ↔ Quiet allowed k ms ∧ Quiet allowed (k.after ms) ns := by
  induction ms generalizing k with
  | nil => simp [Quiet]
  | cons m ms ih => simp [Quiet, ih, and_assoc]

/-! ## What a move comes to -/

/-- A turn is taken if it can be. -/
theorem next_turn (k : Keeper) (t : Turn) :
    k.next (.turn t) = k ∨
      (t ∈ k.ready ∧ Takes { k with ready := k.ready.erase t } t (k.next (.turn t))) := by
  by_cases ht : t ∈ k.ready
  · have he : k.next (.turn t) = { k with ready := k.ready.erase t }.take t := if_pos ht
    rw [he]
    exact .inr ⟨ht, take_takes _ t⟩
  · exact .inl (if_neg ht)

theorem next_hold (k : Keeper) (g : Gate) : ∃ held, k.next (.hold g) = { k with held } := by
  show ∃ held, k.hold g = { k with held }
  unfold hold
  split
  · exact ⟨k.held, rfl⟩
  · exact ⟨_, rfl⟩

/-- What is handed out gives turns to loads, and to runs that look for files. -/
theorem next_release (k : Keeper) (g : Gate) :
    ∃ (held : List Gate) (ts : List Turn), k.next (.release g) =
      { k with held, ready := ts.foldl addTurn k.ready } ∧
      ∀ i, Turn.run i ∈ ts →
        ∃ r d found pattern rest, k.runs[i]? = some r ∧
        r.point = .searching d found pattern rest := by
  refine ⟨_, _, foldl_wakeOnce_eq _ _, ?_⟩
  intro i hi
  cases g with
  | file p => simp at hi
  | pattern p =>
    simp only [List.mem_map, List.mem_filter, Turn.run.injEq, exists_eq_right] at hi
    have hs := hi.2
    unfold isSearching at hs
    split at hs
    · rename_i d found p' rest hp
      obtain ⟨r, hr, hp⟩ := Option.map_eq_some_iff.mp hp
      exact ⟨r, d, found, p', rest, hr, hp⟩
    · cases hs

theorem TakesRun.takes {k k' : Keeper} {i : Nat} {r : Run} (h : TakesRun k i r k')
    (hr : k.runs[i]? = some r) : Takes k (.run i) k' :=
  .run hr h

/-- What a turn that is not the turn of a run leaves alone. -/
theorem Takes.eq_of_ne_run {k k' : Keeper} {t : Turn} (h : Takes k t k') (ht : ∀ i, t ≠ .run i) :
    ∃ runs loads ready es, k' = { k with runs, loads, ready, events := k.events ++ es } ∧
      ∀ l, Event.called l ∉ es := by
  have hnone : ∀ l, Event.called l ∉ [] := fun _ => List.not_mem_nil
  cases h with
  | run => exact absurd rfl (ht _)
  | load hl hload => cases hload with
    | rests => exact ⟨_, _, _, [], by rw [List.append_nil], hnone⟩
    | waits => exact ⟨_, _, _, [], by rw [List.append_nil]; rfl, hnone⟩
    | @ends es result hp hends =>
      refine ⟨_, _, _, es, rfl, fun l => ?_⟩
      cases hends <;> simp
  | report hl hreport => cases hreport with
    | rests => exact ⟨_, _, _, [], by rw [List.append_nil], hnone⟩
    | delivers => exact ⟨_, _, _, [], by rw [List.append_nil]; rfl, hnone⟩
  | alarm => exact ⟨_, _, _, [], by rw [List.append_nil], hnone⟩
  | idle => exact ⟨_, _, _, [], by rw [List.append_nil], hnone⟩

/-- What a move comes to.  The turns of runs and a few calls may do a lot; all other moves leave
alone what is not named here. -/
inductive Moves (k : Keeper) : Move → Keeper → Prop where
  | starts {m : Move} {job : Job} (hm : m.job? = some job) : Moves k m (k.start job).1
  | notify (p : Path) (c : Change) : Moves k (.notify p c) (k.notify p c)
  | switchMode (mode : MatchMode) : Moves k (.switchMode mode) (k.switchMode mode).1
  | changeSettings (changes : List (Text × Value)) :
      Moves k (.changeSettings changes) (k.changeSettings changes).1
  | listen (l : Listener) : Moves k (.listen l) (k.listen l)
  | dispose : Moves k .dispose k.dispose
  | edit (w : Workspace) : Moves k (.edit w) { k with workspace := w }
  | run {i : Nat} {r : Run} {k' : Keeper} (hready : Turn.run i ∈ k.ready)
      (hr : k.runs[i]? = some r) (h : TakesRun { k with ready := k.ready.erase (.run i) } i r k') :
      Moves k (.turn (.run i)) k'
  /-- The turn of a load, or one that gives a run its turn. -/
  | works {t : Turn} {runs : List Run} {loads : List Load} {ready : List Turn} {es : List Event}
      (ht : ∀ i, t ≠ .run i) (hes : ∀ l, Event.called l ∉ es)
      (h : Takes { k with ready := k.ready.erase t } t
        { k with runs, loads, ready, events := k.events ++ es }) :
      Moves k (.turn t) { k with runs, loads, ready, events := k.events ++ es }
  | waits {m : Move} (hm : m.isPassive = true) (held : List Gate) (clock : Nat)
      (ready : List Turn) :
      Moves k m { k with held, clock, ready }

theorem next_moves (k : Keeper) (m : Move) : Moves k m (k.next m) := by
  cases m with
  | rebuild | startUp | refresh => exact .starts rfl
  | notify p c => exact .notify p c
  | switchMode mode => exact .switchMode mode
  | changeSettings changes => exact .changeSettings changes
  | listen l => exact .listen l
  | dispose => exact .dispose
  | edit w => exact .edit w
  | ring => exact .waits rfl k.held k.clock _
  | pass ms => exact .waits rfl k.held _ k.ready
  | hold g =>
    obtain ⟨held, he⟩ := next_hold k g
    rw [he]
    exact .waits rfl held k.clock k.ready
  | release g =>
    obtain ⟨held, ts, he, -⟩ := next_release k g
    rw [he]
    exact .waits rfl held k.clock _
  | turn t =>
    rcases next_turn k t with he | ⟨hready, htake⟩
    · rw [he]
      exact .waits rfl k.held k.clock k.ready
    · generalize k.next (.turn t) = k' at htake
      by_cases ht : ∀ i, t ≠ .run i
      · obtain ⟨runs, loads, ready, es, rfl, hes⟩ := htake.eq_of_ne_run ht
        exact .works ht hes htake
      · cases htake with
        | run hr h => exact .run hready hr h
        | idle => exact .waits rfl k.held k.clock _
        | load | report | alarm => simp at ht

/-- What holds at the start of a course and is kept by every allowed move holds at its end. -/
theorem Quiet.induction {allowed : Keeper → Move → Prop} {P : Keeper → Prop}
    (hstep : ∀ k m, P k → allowed k m → (k.perform m).2 = none → (k.next m).Calm → P (k.next m))
    {k : Keeper} {ms : List Move} (h : Quiet allowed k ms) (hk : P k) : P (k.after ms) := by
  induction ms generalizing k with
  | nil => exact hk
  | cons m ms ih =>
    obtain ⟨hm, hraise, hcalm, hrest⟩ := h
    exact ih hrest (hstep k m hk hm hraise hcalm)

/-! ## A small workspace -/

/-- Files in memory.  The first name of a path is the pattern that leads to it.  A feature file
holds one step and a script one definition, and the whole text of the file is the text of the step
or the expression. -/
def inMemory (files : List (Path × Text)) : Workspace where
  find pattern _ := .ok ((files.map (·.1)).filter fun p => p.names.head? = some pattern)
  read p := match files.lookup p with
    | some t => .ok { text := t, size := t.length }
    | none => .error (.indexing (p.toText ++ " is missing"))
  feature p t :=
    let step : Step :=
      { keyword := .given, text := t, line := 2, source := p, scenario := [], feature := [] }
    let scenario : Scenario := { name := [], steps := [step], line := 1, tags := [] }
    .ok (some { name := [], source := p, scenarios := [scenario], tags := [] })
  definitions p t :=
    .ok [{
      pattern := t, kind := .expression, keyword := .any, source := p, span := ⟨0, 0, 0, 0⟩
      function := [], flags := none }]

def shortPath (a b : Char) : Path := { root := [], names := [[.scalar a], [.scalar b]] }

def twoFiles : List (Path × Text) :=
  [(shortPath 'f' 'a', [.scalar 'x']), (shortPath 's' 'a', [.scalar 'x'])]

/-- Features are at `f` and scripts at `s`. -/
def shortSettings : Settings :=
  { projectDir := .path default, featureGlobs := [[.scalar 'f']],
    definitionGlobs := [[.scalar 's']], excludeGlobs := []
    diagnostics := .bool true, mode := .both }

def ofFiles (files : List (Path × Text)) : Keeper :=
  new (inMemory files) (.new .boundless default shortSettings) 20 1000 500 false

end Keeper
end StepAtlas
