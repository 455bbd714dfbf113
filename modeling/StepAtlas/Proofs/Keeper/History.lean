import StepAtlas.Proofs.Keeper.Rebuilt

/-
Who changes the content of a keeper, and when.  The content is what the keeper looks at and what it
shows: the site, the mode and the catalog.  `Alters` lists the moves that touch it: files are
edited, settings or the mode are changed, a run publishes, or a run applies changes.  All other
moves leave it alone.

A run that publishes took the lock at some time before, and since then it held it; so the entries
that it publishes are those of the settings of that time.
-/

namespace StepAtlas
namespace Keeper

structure Content where
  site : Site
  matcher : Matcher
  catalog : Catalog

def content (k : Keeper) : Content := { site := k.site, matcher := k.matcher, catalog := k.catalog }

/-! ## Moves that leave the content alone -/

theorem CancelsRun.content {k k' : Keeper} {id : Nat} (hc : CancelsRun k id k') :
    k'.content = k.content := by
  cases hc with
  | rests | flags | wakes => rfl
  | stops hr hg hd hs =>
    obtain ⟨loads, ts, rfl, -, -⟩ := hs
    rfl

theorem Cancels.content {k k' : Keeper} (hc : Cancels k k') : k'.content = k.content :=
  hc.induction (P := fun k' => k'.content = k.content)
    (fun _ _ _ hk hcan => hcan.content.trans hk) rfl

theorem content_notify (k : Keeper) (p : Path) (c : Change) :
    (k.notify p c).content = k.content := by
  unfold notify
  split
  · rfl
  · exact (cancelTimer_cancels { k with pending := k.pending.set p c }).content

theorem content_dispose (k : Keeper) : k.dispose.content = k.content := by
  obtain ⟨k₁, k₂, provider, connected, changed, h₁, h₂, -, he⟩ := dispose_eq k
  rw [he]
  exact h₂.content.trans h₁.content

theorem TakesRun.content {k k' : Keeper} {id : Nat} {r : Run} (ht : TakesRun k id r k') :
    k'.content = { k.content with catalog := k'.catalog } := by
  have hw : k'.workspace = k.workspace := ht.frame.workspace
  have hs : k'.settings = k.settings := ht.frame.settings
  have hl : k'.sizeLimit = k.sizeLimit := ht.frame.sizeLimit
  have hm : k'.matcher = k.matcher := ht.frame.matcher
  simp only [Keeper.content, site, hw, hs, hl, hm]

/-! ## Moves that touch the content -/

/-- A run has its turn to apply changes, and nothing has stopped it. -/
structure Applies (k : Keeper) (i : Nat) (changes : PathMap Change) (g : Group) : Prop where
  ready : Turn.run i ∈ k.ready
  run : ∃ r, k.runs[i]? = some r ∧ r.point = .applying changes g ∧ r.canceled = false
  stop : g.stop = none
  disposed : k.disposed = false

inductive Alters (k : Keeper) : Move → Keeper → Prop where
  | keeps {m : Move} {k' : Keeper} (h : k'.content = k.content) : Alters k m k'
  | edits (w : Workspace) : Alters k (.edit w) { k with workspace := w }
  | switches (mode : MatchMode) : Alters k (.switchMode mode) (k.switchMode mode).1
  | resets (changes : List (Text × Value)) : Alters k (.changeSettings changes)
      (k.changeSettings changes).1
  | publishes {i : Nat} {k' : Keeper} (h : Publishes k i k')
      (hk : k'.content = { k.content with catalog := k'.catalog }) :
      Alters k (.turn (.run i)) k'
  /-- A run enters its changes, and matching their steps may fail. -/
  | applies {i : Nat} {changes : PathMap Change} {g : Group} {fault : Option Fault} {k' : Keeper}
      (ha : k.Applies i changes g)
      (h : k.catalog.refresh k.matcher (k.loadedChanges changes g) = (k'.catalog, fault))
      (hf : ∀ f, fault = some f → k'.result? i = some (.error (.failed f)))
      (hk : k'.content = { k.content with catalog := k'.catalog }) : Alters k (.turn (.run i)) k'

theorem Stamped.staged {k : Keeper} (h : k.Stamped) {i : Nat} {r : Run} (hr : k.runs[i]? = some r) :
    r.staged.Stamped := by
  cases hd : r.point.draft? with
  | none => rw [Run.staged_of_draft?_eq_none hd]; exact Catalog.empty_stamped
  | some d => rw [Run.staged_of_draft? hd]; exact (h.points r (List.mem_of_getElem? hr)).staged hd

theorem Publishes.of_ready {k k' : Keeper} {ready : List Turn} {i : Nat}
    (h : Publishes { k with ready } i k') :
    Publishes k i k' :=
  ⟨h.staged, h.told, h.unfinished, h.wanted, h.ended⟩

theorem Goes.alters {k : Keeper} {m : Move} {i : Nat} {r : Run} (hg : Goes k m i r)
    (hr : k.runs[i]? = some r) (hs : RunSuited r) : Alters k m (k.next m) := by
  obtain rfl := hg.move
  have ht := hg.takes
  generalize k.next (.turn (.run i)) = k' at ht ⊢
  have hcontent : k'.content = { k.content with catalog := k'.catalog } := ht.content
  have hkeeps : k'.catalog = k.catalog → Alters k (.turn (.run i)) k' :=
    fun hc => .keeps (by rw [hcontent, hc]; rfl)
  cases hj : r.job.refreshes with
  | false =>
    rcases ht.publishes_or_same hr hj hs with hp | ⟨hc, -⟩
    · exact .publishes hp.of_ready hcontent
    · exact hkeeps hc
  | true =>
    cases ht.writes with
    | nothing hc => exact hkeeps hc
    | publishes hd hcan hk hw hre =>
      obtain ⟨d, hd⟩ := Option.isSome_iff_exists.mp (hd hj)
      rw [hs.draft d hd] at hj
      cases hj
    | @breaks changes g c fault hp hcan hgs hd hre =>
      have hcatalog : ({ k with ready := k.ready.erase (.run i), catalog := c }.leave i
          (.error (.failed fault))).catalog = c := by rw [leave_eq]; rfl
      rw [← hcatalog] at hre
      refine .applies ⟨hg.ready, ⟨r, hr, hp, hcan⟩, hgs, hd⟩ hre ?_ hcontent
      intro f hf
      cases hf
      exact result?_eq_some_iff.mpr
        (point?_leave_self (k := { k with ready := _, catalog := c }) hr _)
    | applies hp hcan hgs hd hre hk =>
      rw [← hk] at hre
      exact .applies ⟨hg.ready, ⟨r, hr, hp, hcan⟩, hgs, hd⟩ hre (fun f hf => by cases hf) hcontent

theorem next_alters {k : Keeper} (hs : k.Suited) (m : Move) : Alters k m (k.next m) := by
  have h := next_moves k m
  generalize hk' : k.next m = k' at h ⊢
  cases h with
  | notify p c => exact .keeps (content_notify k p c)
  | dispose => exact .keeps (content_dispose k)
  | switchMode mode => exact .switches mode
  | changeSettings changes => exact .resets changes
  | edit w => exact .edits w
  | @run i r _ hready hr => exact hk' ▸ (goes_of_ready hr hready).alters hr (hs i r hr)
  | starts | listen | works | waits => exact .keeps rfl

/-! ## When a run took the lock -/

/-- A run that builds and has no draft before its turn takes the lock in it, or it gets no
further. -/
theorem Goes.begins {k : Keeper} {m : Move} {i : Nat} {r : Run} (hg : Goes k m i r)
    (hr : k.runs[i]? = some r) (hs : RunSuited r) (hu : r.Undisturbed)
    (hj : r.job.refreshes = false) (hd : r.point.draft? = none) :
    k.Begins i ∨ ∃ p, (k.next m).point? i = some p ∧ p.draft? = none ∧
      ∀ result, p = .finished result → result = .error .canceled ∨ r.point = .finished result := by
  obtain rfl := hg.move
  have ht := hg.takes
  have hready := hg.ready
  generalize k.next (.turn (.run i)) = k' at ht ⊢
  cases ht with
  | rests hp =>
    exact .inr ⟨_, point?_of_run (k := { k with ready := _ }) hr, hd, fun result h => .inr h⟩
  | stops hp hc =>
    exact .inr ⟨_, point?_wait_self (k := { k with ready := _ }) hr _, rfl, fun result h =>
      by cases h; exact .inl rfl⟩
  | sleeps hp hjob => rw [hjob] at hj; cases hj
  | @queues k₀ hc ha hl =>
    obtain ⟨superseded, hr₀⟩ := ha.run hr
    exact .inr ⟨_, point?_wait_self (k := { k₀ with queue := _ }) hr₀ _, rfl, fun result h =>
      by cases h⟩
  | enters hc ha hl hq he =>
    refine .inl ⟨hready, r, hr, hj, hc, .inr ⟨?_, hl, hq⟩⟩
    cases ha with
    | rebuild hp | startUp hp | refresh hp => exact hp
    | wakes hp => rw [hu.sleeping _ hp] at hj; cases hj
  | quits hp hc =>
    exact .inr ⟨_, point?_wait_self (k := { k with queue := _, ready := _ }) hr _, rfl,
      fun result h => by cases h; exact .inl rfl⟩
  | admitted hp hc he => exact .inl ⟨hready, r, hr, hj, hc, .inl hp⟩
  | resumes hp | yields hp | continues hp => rw [hp] at hd; cases hd
  | givesUp hp => rw [hp] at hd; cases hd
  | leaves hp | breaks hp | applies hp => rw [hs.applying _ _ hp] at hj; cases hj

theorem Builds.draft_settings {k k' : Keeper} {id : Nat} {d : Draft} {goal : Except Fault Catalog}
    (hb : Builds k id d goal k') {s : Run} (hs : k.runs[id]? = some s) {p : Point}
    (hp : k'.point? id = some p) {d' : Draft} (hd : p.draft? = some d') :
    d'.settings = d.settings := by
  have hend : ∀ result, k'.point? id = some (.finished result) → d'.settings = d.settings := by
    intro result hfinished
    rw [hp] at hfinished
    cases hfinished
    cases hd
  cases hb with
  | searches hset =>
    rw [point?_wait_self hs] at hp
    cases hp
    cases hd
    exact hset
  | @loads d₁ files rest hset =>
    have hs' : (k.startLoads id (files.map fun p => (p, d₁.cls, false))).1.runs[id]? = some s := hs
    rw [point?_wait_self hs'] at hp
    cases hp
    cases hd
    exact hset
  | abandons | fails => exact hend _ (point?_giveUp_self hs _)
  | @publishes c =>
    obtain ⟨told, subscriptions, he⟩ := publish_eq k id c
    rw [he] at hp hend
    exact hend _ (point?_finish_self (k := { k with .. }) hs _)

theorem Enters.draft_settings {k k' : Keeper} {id : Nat} {job : Job} (he : Enters k id job k')
    {s : Run} (hs : k.runs[id]? = some s) {p : Point} (hp : k'.point? id = some p) {d : Draft}
    (hd : p.draft? = some d) :
    d.settings = k.settings := by
  cases he with
  | builds hj hb => exact hb.draft_settings hs hp hd
  | idles =>
    rw [point?_leave_self (k := { k with pending := .empty }) hs] at hp
    cases hp
    cases hd
  | takesOver =>
    have hs' : ({ k with pending := .empty }.startLoads id (changedFiles k.pending)).1.runs[id]? =
        some s := hs
    rw [point?_wait_self hs'] at hp
    cases hp
    cases hd

/-- A draft keeps the settings that its run found when it took the lock. -/
theorem TakesRun.draft_settings {k k' : Keeper} {id : Nat} {r : Run} (ht : TakesRun k id r k')
    (hr : k.runs[id]? = some r) {p : Point} (hp : k'.point? id = some p) {d : Draft}
    (hd : p.draft? = some d) :
    d.settings = (r.point.draft?.map Draft.settings).getD k.settings := by
  have hend : ∀ {q}, k'.point? id = some q → q.draft? = none →
      d.settings = (r.point.draft?.map Draft.settings).getD k.settings := by
    intro q hq hnone
    rw [hp] at hq
    cases hq
    rw [hnone] at hd
    cases hd
  cases ht with
  | rests hpt => exact hend (point?_of_run hr) (by rw [hpt]; rfl)
  | stops => exact hend (point?_wait_self hr _) rfl
  | sleeps => exact hend (point?_wait_self (k := { k with ready := _ }) hr _) rfl
  | @queues k₀ hc ha =>
    obtain ⟨superseded, hr₀⟩ := ha.run hr
    exact hend (point?_wait_self (k := { k₀ with queue := _ }) hr₀ _) rfl
  | @enters k₀ _ hc ha hl hq he =>
    obtain ⟨superseded, hr₀⟩ := ha.run hr
    rw [ha.draft?, he.draft_settings hr₀ hp hd]
    obtain ⟨_, _, _, _, _, rfl⟩ := ha.eq
    rfl
  | quits => exact hend (point?_wait_self (k := { k with queue := _, ready := _ }) hr _) rfl
  | admitted hpt hc he =>
    rw [hpt, he.draft_settings hr hp hd]
    rfl
  | resumes hpt hc hb | continues hpt hc hb =>
    rw [hpt, hb.draft_settings hr hp hd]
    rfl
  | yields hpt =>
    rw [point?_wait_self (k := { k with ready := k.ready ++ [Turn.run id] }) hr] at hp
    cases hp
    cases hd
    rw [hpt]
    rfl
  | givesUp => exact hend (point?_giveUp_self hr _) rfl
  | leaves => exact hend (point?_leave_self hr _) rfl
  | @breaks changes g c => exact hend (point?_leave_self (k := { k with catalog := c }) hr _) rfl
  | applies => exact hend (point?_wait_self (k := { k with .. }) hr _) rfl

/-! ## Courses -/

def AppliesAt (k : Keeper) (ms : List Move) (i t : Nat) (changes : PathMap Change) : Prop :=
  ms[t]? = some (.turn (.run i)) ∧ ∃ g, (k.moment ms t).Applies i changes g

variable {k : Keeper} {ms : List Move}

/-- The rest of a course, from one of its moments on. -/
theorem moment_drop (k : Keeper) (ms : List Move) (s n : Nat) :
    (k.moment ms s).moment (ms.drop s) n = k.moment ms (s + n) := by
  rw [moment, moment, moment, List.take_add, after_append]

theorem Reachable.standing (h : Reachable k) : k.Standing := by
  induction h with
  | @new w hw provider size limit delay watchable c hc =>
    have hnew := new_standing w provider size.toNat limit delay watchable
    exact ⟨hnew.wanted, hnew.spent⟩
  | next _ _ ih => exact next_standing ih _

/-- A run that is wanted was wanted before. -/
theorem isSuperseded_before {i t u : Nat} (hb : (k.moment ms t).Begun i) (htu : t ≤ u)
    (hu : (k.moment ms u).isSuperseded i = false) : (k.moment ms t).isSuperseded i = false := by
  by_contra hs
  have hlate : (k.moment ms u).Begun i ∧ (k.moment ms u).isSuperseded i = true :=
    moment_induction (P := fun k => k.Begun i ∧ k.isSuperseded i = true) ⟨hb, by simpa using hs⟩
      (fun _ m _ _ hk => ⟨next_begun hk.1 m, next_isSuperseded_of_begun hk.1 hk.2 m⟩) htu
  rw [hu] at hlate
  cases hlate.2

/-- A keeper that has ended publishes nothing any more. -/
theorem PublishedAt.not_disposed {i t : Nat} (h : k.PublishedAt ms i t)
    (hst : (k.moment ms t).Standing) :
    (k.moment ms (t + 1)).disposed = false := by
  obtain ⟨r, hr, hj, hc, hn, hgoes⟩ := h.goes
  have hwanted := h.2.wanted
  rw [moment_succ h.1] at hwanted ⊢
  rw [next_disposed_eq_false]
  refine ⟨by simp, ?_⟩
  by_contra hd
  rw [isSuperseded_of_hopeless hst (.inl (by simpa using hd)) hr hj hn hc hgoes] at hwanted
  cases hwanted

section
variable (hk : ∀ t, (k.moment ms t).Reachable)

include hk

/-- A run with a draft took the lock at some time, and its draft has the settings of that time. -/
theorem exists_begins {i u v : Nat} (huv : u ≤ v) (hdis : (k.moment ms v).disposed = false)
    (hu : ∀ r, (k.moment ms u).runs[i]? = some r → r.point.draft? = none) {r : Run} {d : Draft}
    (hr : (k.moment ms v).runs[i]? = some r) (hd : r.point.draft? = some d) :
    ∃ s, u ≤ s ∧ s < v ∧ ms[s]? = some (.turn (.run i)) ∧ (k.moment ms s).Begins i ∧
      d.settings = (k.moment ms s).settings := by
  -- Backwards from the draft: either it was there a moment before, or this was the turn that began
  -- it.
  induction huv generalizing r d with
  | refl =>
    rw [hu r hr] at hd
    cases hd
  | @step v huv ih =>
    have hdis₀ : (k.moment ms v).disposed = false := moment_not_disposed (Nat.le_succ v) hdis
    have hbefore : ∀ {r d'}, (k.moment ms v).runs[i]? = some r → r.point.draft? = some d' →
        d.settings = d'.settings → ∃ s, u ≤ s ∧ s < v + 1 ∧ ms[s]? = some (.turn (.run i)) ∧
          (k.moment ms s).Begins i ∧ d.settings = (k.moment ms s).settings := by
      intro r d' hr hd' hset
      obtain ⟨s, hus, hsv, hm, hb, hs⟩ := ih hdis₀ hr hd'
      exact ⟨s, hus, Nat.lt_succ_of_lt hsv, hm, hb, hset.trans hs⟩
    cases hm : ms[v]? with
    | none =>
      rw [moment_succ_of_none hm] at hr
      exact hbefore hr hd rfl
    | some m =>
      rw [moment_succ hm] at hr
      cases hr₀ : (k.moment ms v).runs[i]? with
      | none =>
        rw [next_fresh hr₀ hr] at hd
        cases hd
      | some r₀ =>
        obtain ⟨r', hr', hj, hstays | hgoes⟩ := next_run hr₀ m
        · rw [hr] at hr'
          cases hr'
          exact hbefore hr₀ (hstays.draft? ▸ hd) rfl
        · have hset := hgoes.takes.draft_settings hr₀ (point?_of_run hr) hd
          cases hd₀ : r₀.point.draft? with
          | some d₀ => exact hbefore hr₀ hd₀ (by rw [hset, hd₀]; rfl)
          | none =>
            have hsuited := (hk (v + 1)).suited i r (by rw [moment_succ hm]; exact hr)
            rw [hr] at hr'
            cases hr'
            have hj₀ : r₀.job.refreshes = false := hj ▸ hsuited.draft d hd
            have hundisturbed := ((hk v).undisturbed hdis₀).run i r₀ hr₀
            rcases hgoes.begins hr₀ ((hk v).suited i r₀ hr₀) hundisturbed hj₀ hd₀ with hb
              | ⟨p, hp, hdp, -⟩
            · exact ⟨v, huv, Nat.lt_succ_self v, hgoes.move ▸ hm, hb, by rw [hset, hd₀]; rfl⟩
            · rw [point?_of_run hr] at hp
              cases hp
              rw [hdp] at hd
              cases hd

/-- A run that publishes took the lock at some time, then or before. -/
theorem PublishedAt.exists_begins {i u v : Nat} (h : k.PublishedAt ms i v) (huv : u ≤ v)
    (hu : ∀ r, (k.moment ms u).runs[i]? = some r → r.point.draft? = none) :
    ∃ s, u ≤ s ∧ s ≤ v ∧ ms[s]? = some (.turn (.run i)) ∧ (k.moment ms s).Begins i := by
  have hdis : (k.moment ms v).disposed = false :=
    moment_not_disposed (Nat.le_succ v) (h.not_disposed (hk v).standing)
  obtain ⟨r, hr, hj, hc, hn, hgoes⟩ := h.goes
  cases hd : r.point.draft? with
  | some d =>
    obtain ⟨s, hus, hsv, hm, hb, -⟩ := Keeper.exists_begins hk huv hdis hu hr hd
    exact ⟨s, hus, Nat.le_of_lt hsv, hm, hb⟩
  | none =>
    have hundisturbed := ((hk v).undisturbed hdis).run i r hr
    rcases hgoes.begins hr ((hk v).suited i r hr) hundisturbed hj hd with hb | ⟨p, hp, -, hresult⟩
    · exact ⟨v, huv, Nat.le_refl v, h.1, hb⟩
    · -- A turn without the lock ends with a result that is none of a publication.
      obtain ⟨result, hend, hwhich⟩ := h.2.ended
      rw [moment_succ h.1, result?_eq_some_iff, hp] at hend
      rcases hresult result (Option.some.inj hend) with rfl | hfinished
      · rcases hwhich with hwhich | ⟨fault, hwhich⟩ <;> cases hwhich
      · exact absurd hfinished (hn result)

/-- Once a run has published, no run has a draft. -/
theorem PublishedAt.draft?_eq_none {i t : Nat} (h : k.PublishedAt ms i t) {j : Nat} {r : Run}
    (hr : (k.moment ms (t + 1)).runs[j]? = some r) : r.point.draft? = none := by
  by_contra hd
  obtain ⟨d, hd⟩ := Option.ne_none_iff_exists'.mp hd
  obtain ⟨s, hs, hjob, hc, hn, hgoes⟩ := h.goes
  by_cases hij : j = i
  · subst hij
    obtain ⟨result, hend, -⟩ := h.2.ended
    rw [result?_eq_some_iff, point?_of_run hr, Option.some.injEq] at hend
    rw [hend] at hd
    cases hd
  · -- The other run had its draft before, and so it held the lock.
    rw [moment_succ h.1] at hr
    cases hr₀ : (k.moment ms t).runs[j]? with
    | none =>
      rw [next_fresh hr₀ hr] at hd
      cases hd
    | some r₀ =>
      obtain ⟨r', hr', -, hstays | hother⟩ := next_run hr₀ (.turn (.run i))
      · rw [hr] at hr'
        cases hr'
        have hholds : r₀.point.holds = true := Point.holds_of_draft? (hstays.draft? ▸ hd)
        have hlocked : (k.moment ms t).locked = true := (hk t).orderly.holds j r₀ hr₀ hholds
        have hnone : ∀ s, (k.moment ms t).runs[i]? = some s → s.point.draft? = none := by
          intro s hs
          by_contra hds
          obtain ⟨d', hd'⟩ := Option.ne_none_iff_exists'.mp hds
          exact hij ((hk t).orderly.alone j i r₀ s hr₀ hs hholds (Point.holds_of_draft? hd'))
        obtain ⟨u, htu, hut, -, hb⟩ := PublishedAt.exists_begins hk h (Nat.le_refl t) hnone
        obtain rfl : t = u := Nat.le_antisymm htu hut
        obtain ⟨s', hs', -, hc', hp | ⟨-, hfree, -⟩⟩ := hb.run
        · have hfree := ((hk t).orderly.summoned i s' hs' hp hc' hb.ready).1
          rw [hlocked] at hfree
          cases hfree
        · rw [hlocked] at hfree
          cases hfree
      · have hturn := hother.move
        simp only [Move.turn.injEq, Turn.run.injEq] at hturn
        exact hij hturn.symm

end

end Keeper
end StepAtlas
