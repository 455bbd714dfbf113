import StepAtlas.Proofs.Keeper.Supersession
import StepAtlas.Proofs.Workspace

/-
Overlapping runs over a whole course.  The moments of a course are the keepers between its moves.  A
run that opens makes those opened before it come too late, and so does the end of the keeper; what
comes too late never changes the catalog.  It returns that it did not, unless it is told to stop or
a search or a load of its own fails before it notices.
-/

namespace StepAtlas
namespace Keeper

/-! ## Moments -/

def moment (k : Keeper) (ms : List Move) (t : Nat) : Keeper := k.after (ms.take t)

def OpensAt (k : Keeper) (ms : List Move) (i t : Nat) : Prop :=
  ∃ m, ms[t]? = some m ∧ (k.moment ms t).opening? m = some i

def PublishedAt (k : Keeper) (ms : List Move) (i t : Nat) : Prop :=
  ms[t]? = some (.turn (.run i)) ∧ Publishes (k.moment ms t) i (k.moment ms (t + 1))

/-- With the move at a time a run comes too late: another one opens after it, or the keeper ends. -/
def LateAt (k : Keeper) (ms : List Move) (i u : Nat) : Prop :=
  (∃ t j, t < u ∧ k.OpensAt ms i t ∧ k.OpensAt ms j u) ∨ ms[u]? = some .dispose

variable {k : Keeper} {ms : List Move}

theorem moment_succ {t : Nat} {m : Move} (h : ms[t]? = some m) :
    k.moment ms (t + 1) = (k.moment ms t).next m := by
  rw [moment, List.take_add_one, h, after_append]
  rfl

theorem moment_succ_of_none {t : Nat} (h : ms[t]? = none) :
    k.moment ms (t + 1) = k.moment ms t := by
  rw [moment, List.take_add_one, h, Option.toList_none, List.append_nil]
  rfl

theorem moment_length (k : Keeper) (ms : List Move) : k.moment ms ms.length = k.after ms := by
  rw [moment, List.take_length]

/-- What holds at a moment and is kept by every later move holds from then on. -/
theorem moment_induction {P : Keeper → Prop} {t : Nat} (h : P (k.moment ms t))
    (hstep : ∀ u m, t ≤ u → ms[u]? = some m → P (k.moment ms u) → P ((k.moment ms u).next m))
    {u : Nat} (hu : t ≤ u) :
    P (k.moment ms u) := by
  induction hu with
  | refl => exact h
  | @step u hu ih =>
    cases hm : ms[u]? with
    | none =>
      rw [moment_succ_of_none hm]
      exact ih
    | some m =>
      rw [moment_succ hm]
      exact hstep u m hu hm ih

theorem moment_result? {i t : Nat} {result : Except Stop Bool}
    (h : (k.moment ms t).result? i = some result) {u : Nat} (hu : t ≤ u) :
    (k.moment ms u).result? i = some result := by
  refine moment_induction (P := fun k => k.result? i = some result) h ?_ hu
  intro v m _ _ hv
  rw [result?_eq_some_iff] at hv ⊢
  exact next_finished hv m

/-! ## Runs that have begun -/

def Begun (k : Keeper) (i : Nat) : Prop := ∃ r, k.runs[i]? = some r ∧ r.point ≠ .created

theorem next_begun {k : Keeper} {i : Nat} (h : k.Begun i) (m : Move) : (k.next m).Begun i := by
  obtain ⟨r, hr, hp⟩ := h
  obtain ⟨r', hr', -, hstays | hgoes⟩ := next_run hr m
  · refine ⟨r', hr', ?_⟩
    cases hs : r.point with
    | created => exact absurd hs hp
    | _ =>
      rw [hs] at hstays
      intro hc
      rw [hc] at hstays
      cases hstays
  · obtain ⟨p, hp', hleads⟩ := hgoes.takes.leads hr
    rw [point?_of_run hr'] at hp'
    cases hp'
    exact ⟨r', hr', hleads.ne_created⟩

theorem begun_of_opening {k : Keeper} {m : Move} {i : Nat} (h : k.opening? m = some i) :
    (k.next m).Begun i := by
  obtain ⟨r, rfl, hready, hr, -⟩ := opening?_eq_some_iff.mp h
  obtain ⟨p, hp, hleads⟩ := (goes_of_ready hr hready).takes.leads hr
  obtain ⟨r', hr', rfl⟩ := Option.map_eq_some_iff.mp hp
  exact ⟨r', hr', hleads.ne_created⟩

theorem opening?_ne_of_begun {k : Keeper} {i : Nat} (h : k.Begun i) (m : Move) :
    k.opening? m ≠ some i := by
  intro hc
  obtain ⟨r, hr, hp⟩ := h
  obtain ⟨r', -, -, hr', ho⟩ := opening?_eq_some_iff.mp hc
  rw [hr] at hr'
  cases hr'
  exact hp (Run.opens_iff.mp ho).1

theorem OpensAt.begun {i t : Nat} (h : k.OpensAt ms i t) {u : Nat} (hu : t < u) :
    (k.moment ms u).Begun i := by
  obtain ⟨m, hm, hc⟩ := h
  have hbegun : (k.moment ms (t + 1)).Begun i := by
    rw [moment_succ hm]
    exact begun_of_opening hc
  exact moment_induction (P := fun k => k.Begun i) hbegun (fun v m _ _ hv => next_begun hv m) hu

/-- A run is opened once. -/
theorem OpensAt.unique {i t u : Nat} (h : k.OpensAt ms i t) (h' : k.OpensAt ms i u) : t = u := by
  rcases Nat.lt_trichotomy t u with hlt | heq | hgt
  · obtain ⟨m, -, hc⟩ := h'
    exact absurd hc (opening?_ne_of_begun (h.begun hlt) m)
  · exact heq
  · obtain ⟨m, -, hc⟩ := h
    exact absurd hc (opening?_ne_of_begun (h'.begun hgt) m)

/-! ## Runs that come too late -/

/-- The catalog of a run will never be wanted again. -/
def Hopeless (k : Keeper) (i : Nat) : Prop :=
  k.disposed = true ∨ (k.Begun i ∧ k.isSuperseded i = true)

theorem next_isSuperseded_of_begun {k : Keeper} {i : Nat} (hb : k.Begun i)
    (hs : k.isSuperseded i = true) (m : Move) :
    (k.next m).isSuperseded i = true := by
  have hopens := opening?_ne_of_begun hb m
  obtain ⟨r, hr, -⟩ := hb
  rw [isSuperseded_of_run hr] at hs
  rw [next_isSuperseded hr, supersededBy]
  split
  · rename_i j hc
    have hne : i ≠ j := by
      rintro rfl
      exact hopens hc
    simp [hne, hs]
  · simp [hs]

theorem next_hopeless {k : Keeper} {i : Nat} (h : k.Hopeless i) (m : Move) :
    (k.next m).Hopeless i := by
  rcases h with hd | ⟨hb, hs⟩
  · exact .inl ((next_disposed k m).mpr (.inr hd))
  · exact .inr ⟨next_begun hb m, next_isSuperseded_of_begun hb hs m⟩

/-- A run without hope that is not told to stop knows at its turn that it is not wanted. -/
theorem isSuperseded_of_hopeless {k : Keeper} (hst : k.Standing) {i : Nat} (h : k.Hopeless i)
    {m : Move} {r : Run} (hr : k.runs[i]? = some r) (hj : r.job.refreshes = false)
    (hn : ∀ result, r.point ≠ .finished result) (hc : r.canceled = false) (hg : Goes k m i r) :
    (k.next m).isSuperseded i = true := by
  rcases h with hd | ⟨hb, hs⟩
  · by_cases hp : r.point = .created
    · have ho : r.opens = true := Run.opens_iff.mpr ⟨hp, hj, hc⟩
      rw [next_isSuperseded hr, supersededBy, hg.move, opening?_turn hr hg.ready]
      simpa [ho] using hd
    · have hbuilding : r.isBuilding = true := Run.isBuilding_iff.mpr ⟨hj, hp, hn⟩
      refine next_isSuperseded_of_begun ⟨r, hr, hp⟩ ?_ m
      rw [isSuperseded_of_run hr]
      exact hst.spent hd i r hr hbuilding
  · exact next_isSuperseded_of_begun hb hs m

theorem hopeless_of_lateAt (hst : ∀ t, (k.moment ms t).Standing) {i u v : Nat} (h : k.LateAt ms i u)
    (hv : u < v) (hn : (k.moment ms u).result? i = none)
    (hj : ∀ r, (k.moment ms u).runs[i]? = some r → r.job.refreshes = false) :
    (k.moment ms v).Hopeless i := by
  have hlate : (k.moment ms (u + 1)).Hopeless i := by
    rcases h with ⟨t, j, htu, hi, m, hm, hopens⟩ | hm
    · have hb := hi.begun htu
      rw [moment_succ hm]
      refine .inr ⟨next_begun hb m, ?_⟩
      obtain ⟨r, hr, hp⟩ := hb
      have hbuilding : r.isBuilding = true :=
        Run.isBuilding_iff.mpr ⟨hj r hr, hp, (result?_eq_none_iff hr).mp hn⟩
      have hne : i ≠ j := by
        rintro rfl
        exact opening?_ne_of_begun ⟨r, hr, hp⟩ m hopens
      rw [next_isSuperseded hr, supersededBy, hopens]
      cases hs : r.superseded with
      | true => simp [hne]
      | false => simp [hne, (hst u).wanted i r hr hbuilding hs]
    · rw [moment_succ hm]
      exact .inl ((next_disposed _ _).mpr (.inl rfl))
  exact moment_induction (P := fun k => k.Hopeless i) hlate (fun w m _ _ hw => next_hopeless hw m)
    hv

/-! ## Ends -/

/-- A run that ends in a course ends with a turn of its own. -/
theorem exists_end {i u v : Nat} (hu : (k.moment ms u).result? i = none) (huv : u ≤ v)
    {result : Except Stop Bool} (hv : (k.moment ms v).result? i = some result) :
    ∃ w r, u ≤ w ∧ w < v ∧ (k.moment ms w).runs[i]? = some r ∧
      (∀ result, r.point ≠ .finished result) ∧
      ms[w]? = some (.turn (.run i)) ∧ Goes (k.moment ms w) (.turn (.run i)) i r ∧
      (k.moment ms (w + 1)).result? i = some result := by
  induction huv with
  | refl =>
    rw [hu] at hv
    cases hv
  | @step v huv ih =>
    cases hbefore : (k.moment ms v).result? i with
    | some result' =>
      have hsame := moment_result? hbefore (Nat.le_succ v)
      rw [hv] at hsame
      cases hsame
      obtain ⟨w, r, huw, hwv, hr, hn, hm, hg, hend⟩ := ih hbefore
      exact ⟨w, r, huw, Nat.lt_succ_of_lt hwv, hr, hn, hm, hg, hend⟩
    | none =>
      cases hm : ms[v]? with
      | none =>
        rw [moment_succ_of_none hm, hbefore] at hv
        cases hv
      | some m =>
        have hend := hv
        rw [moment_succ hm, result?_eq_some_iff] at hv
        obtain ⟨r', hr', hp'⟩ := Option.map_eq_some_iff.mp hv
        cases hr : (k.moment ms v).runs[i]? with
        | none =>
          rw [next_fresh hr hr'] at hp'
          cases hp'
        | some r =>
          have hn := (result?_eq_none_iff hr).mp hbefore
          obtain ⟨s, hs, -, hstays | hgoes⟩ := next_run hr m
          · rw [hr'] at hs
            cases hs
            rw [hp'] at hstays
            cases hp : r.point with
            | finished result => exact absurd hp (hn result)
            | _ =>
              rw [hp] at hstays
              cases hstays
          · obtain rfl := hgoes.move
            exact ⟨v, r, huv, Nat.lt_succ_self v, hr, hn, hm, hgoes, hend⟩

theorem moment_job {i t u : Nat} (htu : t ≤ u) {r r' : Run} (hr : (k.moment ms t).runs[i]? = some r)
    (hr' : (k.moment ms u).runs[i]? = some r') : r'.job = r.job := by
  have hsame : ∃ s, (k.moment ms u).runs[i]? = some s ∧ s.job = r.job := by
    refine moment_induction (P := fun k => ∃ s, k.runs[i]? = some s ∧ s.job = r.job) ⟨r, hr, rfl⟩ ?_
      htu
    rintro v m - - ⟨s, hs, hj⟩
    obtain ⟨s', hs', hj', -⟩ := next_run hs m
    exact ⟨s', hs', hj'.trans hj⟩
  obtain ⟨s, hs, hj⟩ := hsame
  rw [hr'] at hs
  cases hs
  exact hj

/-- What is published was not published before: the run took its turn and ended. -/
theorem PublishedAt.goes {i t : Nat} (h : k.PublishedAt ms i t) :
    ∃ r, (k.moment ms t).runs[i]? = some r ∧ r.job.refreshes = false ∧ r.canceled = false ∧
      (∀ result, r.point ≠ .finished result) ∧ Goes (k.moment ms t) (.turn (.run i)) i r := by
  obtain ⟨hm, hpub⟩ := h
  obtain ⟨r, c, hr, hj, hc, -, -⟩ := hpub.staged
  refine ⟨r, hr, hj, hc, (result?_eq_none_iff hr).mp hpub.unfinished, ?_⟩
  rcases next_turn_run (k.moment ms t) i with ⟨-, ready, he⟩ | ⟨s, hs, hgoes⟩
  · obtain ⟨result, hend, -⟩ := hpub.ended
    rw [moment_succ hm, he] at hend
    have hbefore : (k.moment ms t).result? i = some result := hend
    rw [hpub.unfinished] at hbefore
    cases hbefore
  · rw [hr] at hs
    cases hs
    exact hgoes

theorem PublishedAt.unique {i t u : Nat} (h : k.PublishedAt ms i t) (h' : k.PublishedAt ms i u) :
    t = u := by
  have hbefore : ∀ t u, k.PublishedAt ms i t → k.PublishedAt ms i u → ¬ t < u := by
    intro t u ht hu hlt
    obtain ⟨result, hend, -⟩ := ht.2.ended
    have hlater := moment_result? hend hlt
    rw [hu.2.unfinished] at hlater
    cases hlater
  have := hbefore t u h h'
  have := hbefore u t h' h
  omega

structure Succession (k : Keeper) (ms : List Move) : Prop where
  /-- At every moment at most one run under way is wanted, and the keeper knows which. -/
  wanted : ∀ t i r, (k.moment ms t).runs[i]? = some r → r.isBuilding = true → r.superseded = false →
    (k.moment ms t).current = some i
  /-- A run that builds changes the catalog, and tells that, at once or not at all. -/
  whole : ∀ t i r, ms[t]? = some (.turn (.run i)) → (k.moment ms t).runs[i]? = some r →
    r.job.refreshes = false → k.PublishedAt ms i t ∨
      ((k.moment ms (t + 1)).catalog = (k.moment ms t).catalog ∧
        (k.moment ms (t + 1)).events = (k.moment ms t).events)
  /-- Only a run that was opened does. -/
  opened : ∀ i u, k.PublishedAt ms i u → ∃ t, t ≤ u ∧ k.OpensAt ms i t
  once : ∀ i u v, k.PublishedAt ms i u → k.PublishedAt ms i v → u = v
  /-- A run that comes too late never does. -/
  late : ∀ i u v, k.LateAt ms i u → u < v → ¬ k.PublishedAt ms i v
  /-- A run that comes too late returns that it did not publish, unless something hinders it at its
  last turn. -/
  returns : ∀ i u r result, k.LateAt ms i u → (k.moment ms u).result? i = none →
    (k.after ms).runs[i]? = some r → r.job.refreshes = false → r.point = .finished result →
    ∃ v s, u < v ∧ ms[v]? = some (.turn (.run i)) ∧ (k.moment ms v).runs[i]? = some s ∧
      result = lateResult ((k.moment ms v).hindrance? s)
  /-- Runs publish in the order in which they were opened. -/
  order : ∀ i j t t' u u', k.OpensAt ms i t → k.OpensAt ms j t' → k.PublishedAt ms i u →
    k.PublishedAt ms j u' → u < u' → t < t'
  /-- The run opened last publishes, unless it raises. -/
  last : ∀ i t b, k.OpensAt ms i t → (∀ j u, k.OpensAt ms j u → u ≤ t) → Move.dispose ∉ ms →
    (k.after ms).result? i = some (.ok b) → b = true

section
variable (hst : ∀ t, (k.moment ms t).Standing)

include hst

theorem not_publishedAt_of_lateAt {i u v : Nat} (h : k.LateAt ms i u) (huv : u < v) :
    ¬ k.PublishedAt ms i v := by
  intro hpub
  obtain ⟨r, hr, hj, hc, hn, hgoes⟩ := hpub.goes
  have hunfinished : (k.moment ms u).result? i = none := by
    rw [Option.eq_none_iff_forall_ne_some]
    intro result hu
    have hv := moment_result? hu (Nat.le_of_lt huv)
    rw [(result?_eq_none_iff hr).mpr hn] at hv
    cases hv
  have hhopeless :=
    hopeless_of_lateAt hst h huv hunfinished fun s hs => (moment_job (Nat.le_of_lt huv) hs hr) ▸ hj
  have hsup := isSuperseded_of_hopeless (hst v) hhopeless hr hj hn hc hgoes
  have hwanted := hpub.2.wanted
  rw [moment_succ hpub.1, hsup] at hwanted
  cases hwanted

theorem result_of_lateAt (hsuited : ∀ t, (k.moment ms t).Suited) {i u : Nat} {r : Run}
    {result : Except Stop Bool} (h : k.LateAt ms i u) (hu : (k.moment ms u).result? i = none)
    (hr : (k.after ms).runs[i]? = some r) (hj : r.job.refreshes = false)
    (hp : r.point = .finished result) :
    ∃ v s, u < v ∧ ms[v]? = some (.turn (.run i)) ∧ (k.moment ms v).runs[i]? = some s ∧
      result = lateResult ((k.moment ms v).hindrance? s) := by
  rw [← moment_length] at hr
  have hend : (k.moment ms ms.length).result? i = some result := by
    rw [result?_eq_some_iff, point?_of_run hr, hp]
  have hlen : u < ms.length := by
    rcases h with ⟨-, -, -, -, m, hm, -⟩ | hm
    · exact (List.getElem?_eq_some_iff.mp hm).1
    · exact (List.getElem?_eq_some_iff.mp hm).1
  obtain ⟨v, s, huv, hvl, hs, hn, hm, hgoes, hends⟩ := exists_end hu (Nat.le_of_lt hlen) hend
  have hjob : s.job.refreshes = false := (moment_job (Nat.le_of_lt hvl) hs hr) ▸ hj
  have hlt : u < v := by
    refine Nat.lt_of_le_of_ne huv ?_
    rintro rfl
    rcases h with ⟨t, j, htu, hi, m, hm', hopens⟩ | hm'
    · rw [hm] at hm'
      cases hm'
      obtain ⟨-, hturn, -⟩ := opening?_eq_some_iff.mp hopens
      cases hturn
      exact opening?_ne_of_begun (hi.begun htu) _ hopens
    · rw [hm] at hm'
      cases hm'
  refine ⟨v, s, hlt, hm, hs, ?_⟩
  have hhopeless := hopeless_of_lateAt hst h hlt hu fun s' hs' => (moment_job huv hs' hs) ▸ hjob
  have hsup := fun hc => isSuperseded_of_hopeless (hst v) hhopeless hs hjob hn hc hgoes
  rw [moment_succ hm, result?_eq_some_iff] at hends
  exact hgoes.result hs hjob (hsuited v i s hs) hn hsup hends

end

theorem moment_disposed (hk : k.disposed = false) (hms : Move.dispose ∉ ms) (t : Nat) :
    (k.moment ms t).disposed = false := by
  refine moment_induction (P := fun k => k.disposed = false) (t := 0) hk ?_ (Nat.zero_le t)
  intro u m _ hm hu
  rw [← Bool.not_eq_true, next_disposed]
  rintro (rfl | hd)
  · exact hms (List.mem_of_getElem? hm)
  · rw [hu] at hd
    cases hd

/-- The run that is opened last is wanted to the end. -/
theorem isSuperseded_of_last (hk : k.disposed = false) (hms : Move.dispose ∉ ms) {i t : Nat}
    (h : k.OpensAt ms i t) (hlast : ∀ j u, k.OpensAt ms j u → u ≤ t) {u : Nat} (hu : t < u) :
    (k.moment ms u).isSuperseded i = false := by
  have hfirst : (k.moment ms (t + 1)).isSuperseded i = false := by
    obtain ⟨m, hm, hc⟩ := h
    obtain ⟨r, -, -, hr, -⟩ := opening?_eq_some_iff.mp hc
    rw [moment_succ hm, next_isSuperseded hr, supersededBy, hc]
    simpa using moment_disposed hk hms t
  refine moment_induction (P := fun k => k.isSuperseded i = false) hfirst ?_ hu
  intro v m htv hm hv
  obtain ⟨r, hr, -⟩ := h.begun htv
  have hopens : (k.moment ms v).opening? m = none := by
    rw [Option.eq_none_iff_forall_ne_some]
    intro j hj
    have := hlast j v ⟨m, hm, hj⟩
    omega
  have houtdated : (k.moment ms v).outdated m i = false := by
    cases m with
    | dispose => exact absurd (List.mem_of_getElem? hm) hms
    | _ => rfl
  rw [isSuperseded_of_run hr] at hv
  rw [next_isSuperseded hr, supersededBy, hopens, houtdated, hv]
  rfl

theorem OpensAt.unfinished {i t : Nat} (h : k.OpensAt ms i t) :
    (k.moment ms t).result? i = none := by
  obtain ⟨m, -, hc⟩ := h
  obtain ⟨r, -, -, hr, ho⟩ := opening?_eq_some_iff.mp hc
  rw [result?_eq_none_iff hr, (Run.opens_iff.mp ho).1]
  simp

/-- A run that is under way was opened. -/
theorem exists_opensAt (hk : k.runs = []) {u i : Nat} {r : Run}
    (hr : (k.moment ms u).runs[i]? = some r) (hb : r.isBuilding = true) :
    ∃ t, t < u ∧ k.OpensAt ms i t := by
  induction u generalizing r with
  | zero =>
    have hr₀ : k.runs[i]? = some r := hr
    rw [hk] at hr₀
    cases hr₀
  | succ u ih =>
    cases hm : ms[u]? with
    | none =>
      rw [moment_succ_of_none hm] at hr
      obtain ⟨t, htu, hopens⟩ := ih hr hb
      exact ⟨t, Nat.lt_succ_of_lt htu, hopens⟩
    | some m =>
      by_cases hc : (k.moment ms u).opening? m = some i
      · exact ⟨u, Nat.lt_succ_self u, m, hm, hc⟩
      · rw [moment_succ hm] at hr
        obtain ⟨s, hs, hbefore, -⟩ := isBuilding_of_next hr hb hc
        obtain ⟨t, htu, hopens⟩ := ih hs hbefore
        exact ⟨t, Nat.lt_succ_of_lt htu, hopens⟩

theorem PublishedAt.exists_opensAt (hk : k.runs = []) {i u : Nat} (h : k.PublishedAt ms i u) :
    ∃ t, t ≤ u ∧ k.OpensAt ms i t := by
  obtain ⟨r, hr, hj, hc, hn, hgoes⟩ := h.goes
  by_cases hp : r.point = .created
  · exact ⟨u, Nat.le_refl u, _, h.1,
      opening?_eq_some_iff.mpr ⟨r, rfl, hgoes.ready, hr, Run.opens_iff.mpr ⟨hp, hj, hc⟩⟩⟩
  · obtain ⟨t, htu, hopens⟩ := Keeper.exists_opensAt hk hr (Run.isBuilding_iff.mpr ⟨hj, hp, hn⟩)
    exact ⟨t, Nat.le_of_lt htu, hopens⟩

theorem publishedAt_or_same (hsuited : ∀ t, (k.moment ms t).Suited) {t i : Nat} {r : Run}
    (hm : ms[t]? = some (.turn (.run i))) (hr : (k.moment ms t).runs[i]? = some r)
    (hj : r.job.refreshes = false) :
    k.PublishedAt ms i t ∨
      ((k.moment ms (t + 1)).catalog = (k.moment ms t).catalog ∧
        (k.moment ms (t + 1)).events = (k.moment ms t).events) := by
  rw [PublishedAt, moment_succ hm]
  rcases next_turn_run (k.moment ms t) i with ⟨-, ready, he⟩ | ⟨s, hs, hgoes⟩
  · rw [he]
    exact .inr ⟨rfl, rfl⟩
  · rw [hr] at hs
    cases hs
    rcases hgoes.takes.publishes_or_same hr hj (hsuited t i r hr) with hpub | hsame
    · exact .inl ⟨hm, hpub.staged, hpub.told, hpub.unfinished, hpub.wanted, hpub.ended⟩
    · exact .inr hsame

theorem opensAt_lt_of_publishedAt_lt (hk : k.runs = []) (hst : ∀ t, (k.moment ms t).Standing)
    {i j t t' u u' : Nat} (hi : k.OpensAt ms i t) (hj : k.OpensAt ms j t')
    (hiu : k.PublishedAt ms i u) (hju : k.PublishedAt ms j u') (huu : u < u') : t < t' := by
  obtain ⟨t₀, ht₀, hopens₀⟩ := hiu.exists_opensAt hk
  obtain rfl := hi.unique hopens₀
  rcases Nat.lt_trichotomy t t' with hlt | rfl | hgt
  · exact hlt
  · -- One move calls one run, and one run publishes once.
    obtain ⟨m, hm, hc⟩ := hi
    obtain ⟨m', hm', hc'⟩ := hj
    rw [hm] at hm'
    cases hm'
    rw [hc] at hc'
    cases hc'
    have := hiu.unique hju
    omega
  · exact absurd hju (not_publishedAt_of_lateAt hst (.inl ⟨t', i, hgt, hj, hi⟩) (by omega))

theorem result_of_last (hk : k.disposed = false) (hsuited : ∀ t, (k.moment ms t).Suited) {i t : Nat}
    {b : Bool} (hi : k.OpensAt ms i t) (hlast : ∀ j u, k.OpensAt ms j u → u ≤ t)
    (hms : Move.dispose ∉ ms) (hend : (k.after ms).result? i = some (.ok b)) : b = true := by
  obtain ⟨m, hm, hc⟩ := id hi
  have hlen : t ≤ ms.length := Nat.le_of_lt (List.getElem?_eq_some_iff.mp hm).1
  rw [← moment_length] at hend
  obtain ⟨v, s, htv, -, hs, hn, hm', hgoes, hends⟩ := exists_end hi.unfinished hlen hend
  obtain ⟨r, -, -, hr, ho⟩ := opening?_eq_some_iff.mp hc
  have hj : s.job.refreshes = false := by
    rw [moment_job htv hr hs]
    exact (Run.opens_iff.mp ho).2.1
  have hwanted := isSuperseded_of_last hk hms hi hlast (Nat.lt_succ_of_le htv)
  rw [moment_succ hm', result?_eq_some_iff] at hends
  rw [moment_succ hm'] at hwanted
  cases b with
  | true => rfl
  | false =>
    rw [hgoes.takes.isSuperseded_of_false hs hj (hsuited v i s hs) hn hends] at hwanted
    cases hwanted

/-- However calls, changes of files, settings and modes, and turns interleave, overlapping runs
succeed each other: the last one opened is the one whose catalog counts. -/
theorem new_succession (w : Workspace) (provider : Provider Unit) (groupSize : Nat) (limit : Int)
    (delay : Nat) (watchable : Bool) (ms : List Move) :
    Succession (new w provider groupSize limit delay watchable) ms := by
  have hstanding := new_standing w provider groupSize limit delay watchable
  have hsuited := new_suited w provider groupSize limit delay watchable
  have hruns : (new w provider groupSize limit delay watchable).runs = [] := rfl
  have hdisposed : (new w provider groupSize limit delay watchable).disposed = false := rfl
  generalize new w provider groupSize limit delay watchable = k at *
  replace hstanding : ∀ t, (k.moment ms t).Standing := fun t =>
    moment_induction (P := Standing) (t := 0) hstanding (fun _ m _ _ h => next_standing h m)
      (Nat.zero_le t)
  replace hsuited : ∀ t, (k.moment ms t).Suited := fun t =>
    moment_induction (P := Suited) (t := 0) hsuited (fun _ m _ _ h => next_suited h m)
      (Nat.zero_le t)
  exact {
    wanted := fun t => (hstanding t).wanted
    whole := fun t i r => publishedAt_or_same hsuited
    opened := fun i u h => h.exists_opensAt hruns
    once := fun i u v => PublishedAt.unique
    late := fun i u v => not_publishedAt_of_lateAt hstanding
    returns := fun i u r result => result_of_lateAt hstanding hsuited
    order := fun i j t t' u u' => opensAt_lt_of_publishedAt_lt hruns hstanding
    last := fun i t b => result_of_last hdisposed hsuited }

/-- A keeper for two files, the first of which cannot be read, for a reason that cannot be shown. -/
def unshowable : Keeper :=
  new ((inMemory twoFiles).answering (shortPath 'f' 'a') (.error (.indexing "[/b]")))
    (.new .boundless default shortSettings) 20
    1000 500 false

/-- A run is overtaken by another while it waits for its first file. -/
def overtaken : List Move :=
  [.rebuild, .turn (.run 0), .rebuild, .turn (.run 1), .turn (.load 0), .turn (.report 0),
    .turn (.run 0)]

/-- A run that was overtaken still raises if one of its own loads does. -/
theorem overtaken_raises :
    unshowable.LateAt overtaken 0 3 ∧ (unshowable.moment overtaken 3).result? 0 = none ∧
      (unshowable.after overtaken).result? 0 =
        some (.error
          (.failed (.unshown "closing tag '[/b]' at position 40 doesn't match any open tag"))) := by
  refine ⟨.inl ⟨1, 1, by decide, ⟨_, rfl, by decide +kernel⟩, ⟨_, rfl, by decide +kernel⟩⟩, ?_, ?_⟩
  · decide +kernel
  · decide +kernel

end Keeper
end StepAtlas
