import StepAtlas.Proofs.Keeper.Ending

/-
How a keeper follows the settings.  `Watched` holds of every course: from the time the subscriptions
are set up until the end there are exactly those that the settings of the keeper ask for, and
otherwise there are none.  `Follows` says that until the end the settings of the keeper are those in
force.  This fails in one way: the keeper has the settings that were in force when it was made, and
a start-up connects to them with its first turn without looking at them, so a change between the
call of the start-up and its first turn is missed.
-/

namespace StepAtlas

/-! ## Scopes in which files are watched -/

namespace Scope

/-- Files can be watched, and the end has not come. -/
structure Open (s : Scope) : Prop where
  watchable : s.watchable = true
  disposed : s.disposed = false

variable {s : Scope}

theorem live_renew (h : s.subscriptions.Tidy) (ho : s.Open) :
    s.renew.subscriptions.live = s.settings.watches := by
  rw [subscriptions_renew h, ho.watchable, ho.disposed]
  rfl

theorem live_renew_ne_nil (h : s.subscriptions.Tidy) (ho : s.Open) :
    s.renew.subscriptions.live ≠ [] := by
  rw [live_renew h ho]
  exact List.cons_ne_nil _ _

/-- The subscriptions are left alone by a change of the settings, or they are set up anew for other
files. -/
theorem subscriptions_change (s : Scope) (settings : Settings) (heard : Bool) :
    (s.change settings heard).subscriptions = s.subscriptions ∧
        s.settings.sameFiles (s.change settings heard).settings = true ∨
      (s.change settings heard).subscriptions =
        { s with inForce := settings, settings }.renew.subscriptions ∧
          s.settings.sameFiles (s.change settings heard).settings = false := by
  cases heard with
  | false => exact .inl ⟨rfl, by simp [change, Settings.sameFiles]⟩
  | true =>
    have hset : (s.change settings true).settings = settings :=
      settings_takeOver { s with inForce := settings }
    rw [hset]
    cases hsame : s.settings.sameFiles settings with
    | true => simp [change, takeOver, hsame]
    | false => simp [change, takeOver, hsame]

end Scope

namespace Keeper

variable {k : Keeper}

theorem next_watchable (hs : k.Suited) (m : Move) : (k.next m).watchable = k.watchable := by
  have hmove := next_rescopes hs m
  have hscope : (k.next m).scope.watchable = (k.next m).watchable := rfl
  rw [← hscope]
  generalize (k.next m).scope = s at hmove ⊢
  cases hmove with
  | keeps | starts | ends => rfl
  | changes hm settings =>
    unfold Scope.change Scope.takeOver
    split
    · split
      · rfl
      · rfl
    · rfl

/-- What is watched before the end is so after every other move. -/
theorem next_watches_ne_nil {m : Move} (hs : k.Suited) (h : k.scope.Sound) (ho : k.scope.Open)
    (hd : m ≠ .dispose) (hne : k.watches ≠ []) : (k.next m).watches ≠ [] := by
  have hmove := next_rescopes hs m
  have hscope : (k.next m).scope.subscriptions.live = (k.next m).watches := rfl
  rw [← hscope]
  generalize (k.next m).scope = s at hmove ⊢
  cases hmove with
  | keeps => exact hne
  | starts => exact Scope.live_renew_ne_nil h.tidy ho
  | changes hm settings =>
    rcases Scope.subscriptions_change k.scope settings
      (decide (k.provider.changed.listeners ≠ [])) with
      ⟨hsub, -⟩ | ⟨hsub, -⟩
    · rw [hsub]
      exact hne
    · rw [hsub]
      exact Scope.live_renew_ne_nil (s := { k.scope with inForce := settings, settings }) h.tidy
        ⟨ho.1, ho.2⟩
  | ends hm => exact absurd hm hd

/-! ## The subscriptions in a course -/

/-- By a time the subscriptions have been set up: a start-up has returned, or the keeper has heard
of settings that lead to other files. -/
def SetUpBy (k : Keeper) (ms : List Move) (t : Nat) : Prop :=
  (∃ i r b, (k.moment ms t).runs[i]? = some r ∧ r.job = .startUp ∧
    (k.moment ms t).result? i = some (.ok b)) ∨
      ∃ v < t, (k.moment ms v).settings.sameFiles (k.moment ms (v + 1)).settings = false

structure Watched (k : Keeper) (ms : List Move) : Prop where
  /-- Once they are set up, there are the subscriptions that the settings of the keeper ask for, and
  no others. -/
  live : ∀ t, k.SetUpBy ms t → Move.dispose ∉ ms.take t →
    (k.moment ms t).watches = (k.moment ms t).settings.watches
  none : ∀ t, ¬ k.SetUpBy ms t ∨ Move.dispose ∈ ms.take t → (k.moment ms t).watches = []
  /-- The keeper can take back each of them. -/
  handles : ∀ t, (k.moment ms t).subscriptions.handles = (k.moment ms t).watches

section
variable {ms : List Move}

theorem after_disposed_eq_false :
    (k.after ms).disposed = false ↔ Move.dispose ∉ ms ∧ k.disposed = false := by
  induction ms generalizing k with
  | nil => simp
  | cons m ms ih =>
    rw [after_cons, ih, next_disposed_eq_false, List.mem_cons, not_or, ← and_assoc,
      and_comm (a := Move.dispose ∉ ms), ne_comm]

/-- The end has come if it was among the moves so far. -/
theorem moment_disposed_eq_false_iff (hk : k.disposed = false) (t : Nat) :
    (k.moment ms t).disposed = false ↔ Move.dispose ∉ ms.take t := by
  rw [moment, after_disposed_eq_false, hk]
  simp

theorem SetUpBy.succ {t : Nat} (h : k.SetUpBy ms t) : k.SetUpBy ms (t + 1) := by
  rcases h with ⟨i, r, b, hr, hj, hb⟩ | ⟨v, hv, hfiles⟩
  · have hb' := moment_result? hb (Nat.le_succ t)
    obtain ⟨r', hr', -⟩ := Option.map_eq_some_iff.mp (result?_eq_some_iff.mp hb')
    exact .inl ⟨i, r', b, hr', (moment_job (Nat.le_succ t) hr hr').trans hj, hb'⟩
  · exact .inr ⟨v, by omega, hfiles⟩

variable (hsuited : ∀ t, (k.moment ms t).Suited) (hsound : ∀ t, (k.moment ms t).scope.Sound)
include hsuited hsound

/-- Nothing is watched before the subscriptions are set up. -/
theorem setUpBy_of_watches_ne_nil (hk : k.watches = []) {t : Nat}
    (hne : (k.moment ms t).watches ≠ []) :
    k.SetUpBy ms t := by
  induction t with
  | zero => exact absurd hk hne
  | succ t ih =>
    cases hm : ms[t]? with
    | none =>
      rw [moment_succ_of_none hm] at hne
      exact (ih hne).succ
    | some m =>
      have hmove := next_rescopes (hsuited t) m
      rw [← moment_succ hm] at hmove
      have hlive : (k.moment ms (t + 1)).scope.subscriptions.live ≠ [] := hne
      have hset : (k.moment ms (t + 1)).settings = (k.moment ms (t + 1)).scope.settings := rfl
      generalize (k.moment ms (t + 1)).scope = s at hmove hlive hset
      cases hmove with
      | keeps => exact (ih hlive).succ
      | starts hr hj hb =>
        rw [← moment_succ hm] at hr hb
        exact .inl ⟨_, _, _, hr, hj, hb⟩
      | changes hchange settings =>
        rcases Scope.subscriptions_change (k.moment ms t).scope settings
          (decide ((k.moment ms t).provider.changed.listeners ≠ [])) with ⟨hsub, -⟩ | ⟨-, hfiles⟩
        · rw [hsub] at hlive
          exact (ih hlive).succ
        · refine .inr ⟨t, Nat.lt_succ_self t, ?_⟩
          rw [hset]
          exact hfiles
      | ends =>
        have hnone : (k.moment ms t).scope.close.subscriptions = .none := (hsound t).tidy.release_eq
        rw [hnone] at hlive
        exact absurd rfl hlive

/-- When the keeper turns to other files it watches them, unless the end has come. -/
theorem watches_ne_nil_of_sameFiles (hwatchable : ∀ t, (k.moment ms t).watchable = true) {t : Nat}
    (hd : (k.moment ms (t + 1)).disposed = false)
    (hfiles : (k.moment ms t).settings.sameFiles (k.moment ms (t + 1)).settings = false) :
    (k.moment ms (t + 1)).watches ≠ [] := by
  have hrefl : (k.moment ms t).settings.sameFiles (k.moment ms t).settings ≠ false := by
    simp [Settings.sameFiles]
  cases hm : ms[t]? with
  | none =>
    rw [moment_succ_of_none hm] at hfiles
    exact absurd hfiles hrefl
  | some m =>
    have hmove := next_rescopes (hsuited t) m
    rw [← moment_succ hm] at hmove
    rw [moment_succ hm, next_disposed_eq_false] at hd
    have hset : (k.moment ms (t + 1)).settings = (k.moment ms (t + 1)).scope.settings := rfl
    have hlive : (k.moment ms (t + 1)).watches = (k.moment ms (t + 1)).scope.subscriptions.live :=
      rfl
    rw [hset] at hfiles
    rw [hlive]
    generalize (k.moment ms (t + 1)).scope = s at hmove hfiles ⊢
    cases hmove with
    | keeps | starts | ends => exact absurd hfiles hrefl
    | changes hchange settings =>
      rcases Scope.subscriptions_change (k.moment ms t).scope settings
        (decide ((k.moment ms t).provider.changed.listeners ≠ [])) with ⟨-, hsame⟩ | ⟨hsub, -⟩
      · exact absurd (hfiles.symm.trans hsame) Bool.false_ne_true
      · rw [hsub]
        exact Scope.live_renew_ne_nil
          (s := { (k.moment ms t).scope with inForce := settings, settings })
          (hsound t).tidy ⟨hwatchable t, hd.2⟩

/-- From the time the subscriptions are set up until the end files are watched. -/
theorem SetUpBy.watches_ne_nil (hwatchable : ∀ t, (k.moment ms t).watchable = true)
    (hruns : k.runs = []) {t : Nat} (h : k.SetUpBy ms t) (hd : (k.moment ms t).disposed = false) :
    (k.moment ms t).watches ≠ [] := by
  have hlater : ∀ {v}, v ≤ t → (k.moment ms v).watches ≠ [] → (k.moment ms t).watches ≠ [] := by
    intro v hv hne
    refine moment_induction (P := fun k => k.disposed = false → k.watches ≠ []) (fun _ => hne) ?_ hv
      hd
    intro u m _ _ hu hd'
    rw [next_disposed_eq_false] at hd'
    exact next_watches_ne_nil (hsuited u) (hsound u) ⟨hwatchable u, hd'.2⟩ hd'.1 (hu hd'.2)
  rcases h with ⟨i, r, b, hr, hj, hb⟩ | ⟨v, hv, hfiles⟩
  · -- The start-up returns with a turn of its own, and the subscriptions are set up with it.
    have hnone : (k.moment ms 0).result? i = none := by
      rw [moment, List.take_zero, after_nil, result?, point?, hruns]
      rfl
    obtain ⟨v, s, -, hv, hs, hn, hm, hg, hresult⟩ := exists_end hnone (Nat.zero_le t) hb
    refine hlater hv ?_
    have htends := hg.takes.tends hs (hsuited v i s hs) hn
    rw [← moment_succ hm, result?_eq_some_iff.mp hresult] at htends
    have hlive : (k.moment ms (v + 1)).watches = (k.moment ms (v + 1)).scope.subscriptions.live :=
      rfl
    rw [hlive]
    generalize (k.moment ms (v + 1)).scope = s' at htends ⊢
    cases htends with
    | keeps h => exact absurd rfl (h ((moment_job (Nat.le_of_lt hv) hs hr).symm.trans hj) b)
    | renews =>
      exact Scope.live_renew_ne_nil (s := (k.moment ms v).scope) (hsound v).tidy
        ⟨hwatchable v, moment_not_disposed (Nat.le_of_lt hv) hd⟩
  · exact hlater hv
      (watches_ne_nil_of_sameFiles hsuited hsound hwatchable (moment_not_disposed hv hd) hfiles)

end

/-! ## The settings in a course -/

def Follows (k : Keeper) (ms : List Move) : Prop :=
  ∀ t, Move.dispose ∉ ms.take t → (k.moment ms t).settings = (k.moment ms t).provider.settings

def AlteredAt (k : Keeper) (ms : List Move) (t : Nat) : Prop :=
  (k.moment ms (t + 1)).provider.settings ≠ (k.moment ms t).provider.settings

/-- A start-up has its first turn with the move at a time. -/
def StartsUpAt (k : Keeper) (ms : List Move) (t : Nat) : Prop :=
  ∃ m, ms[t]? = some m ∧ (k.moment ms t).StartsUp m

/-- The settings are followed by a move if the keeper is connected to them. -/
theorem next_follows {m : Move} (hs : k.Suited) (h : k.settings = k.provider.settings)
    (hl : (k.next m).provider.settings ≠ k.provider.settings → k.provider.changed.listeners ≠ []) :
    (k.next m).settings = (k.next m).provider.settings := by
  have hmove := next_rescopes hs m
  show (k.next m).scope.settings = (k.next m).scope.inForce
  have hforce : (k.next m).provider.settings = (k.next m).scope.inForce := rfl
  rw [hforce] at hl
  generalize (k.next m).scope = s at hmove hl ⊢
  cases hmove with
  | keeps | starts | ends => exact h
  | changes hm settings =>
    by_cases hls : k.provider.changed.listeners = []
    · have hsame : settings = k.provider.settings := by
        by_contra hne
        refine hl ?_ hls
        simpa [hls, Scope.change] using hne
      simp only [hls, Scope.change, ne_eq, not_true, decide_false, Bool.false_eq_true, if_false]
      exact h.trans hsame.symm
    · simp only [hls, Scope.change, ne_eq, not_false_eq_true, decide_true, if_true]
      rw [Scope.settings_takeOver, Scope.inForce_takeOver]

/-- A keeper without a connection stays behind. -/
theorem next_stays_behind {m : Move} (hs : k.Suited) (hls : k.provider.changed.listeners = [])
    (halter : (k.next m).provider.settings ≠ k.provider.settings) :
    m ≠ .dispose ∧ (k.next m).settings = k.settings := by
  have hmove := next_rescopes hs m
  have hset : (k.next m).settings = (k.next m).scope.settings := rfl
  have hforce : (k.next m).provider.settings = (k.next m).scope.inForce := rfl
  rw [hforce] at halter
  rw [hset]
  generalize (k.next m).scope = s at hmove halter ⊢
  cases hmove with
  | keeps | starts | ends => exact absurd rfl halter
  | changes hm settings =>
    refine ⟨by rw [hm]; simp, ?_⟩
    simp only [hls, Scope.change, ne_eq, not_true, decide_false, Bool.false_eq_true, if_false]
    rfl

/-- The signal of the settings is never given up. -/
theorem next_link_live (h : k.link.changed.disposed = false) (m : Move) :
    (k.next m).link.changed.disposed = false := by
  by_cases hs : k.StartsUp m
  · rw [next_link_of_startsUp hs, Link.tie, Signal.connect, h]
    rfl
  · by_cases hd : m = .dispose
    · subst hd
      rw [show (k.next .dispose).link = _ from dispose_link k, Link.cut]
      split
      · exact h
      · exact h
    · rw [next_link hs hd]
      exact h

/-- The keeper stays connected until the end. -/
theorem next_listeners_ne_nil {m : Move} (hd : m ≠ .dispose) (h : k.link.changed.listeners ≠ []) :
    (k.next m).link.changed.listeners ≠ [] := by
  by_cases hs : k.StartsUp m
  · rw [next_link_of_startsUp hs, Link.tie, Signal.connect]
    split
    · exact h
    · simp
  · rw [next_link hs hd]
    exact h

section
variable {ms : List Move}

/-- A start-up connects the keeper until the end. -/
theorem StartsUpAt.listeners_ne_nil {t u : Nat} (h : k.StartsUpAt ms u)
    (hk : k.link.changed.disposed = false) (hut : u < t) (hd : (k.moment ms t).disposed = false) :
    (k.moment ms t).provider.changed.listeners ≠ [] := by
  obtain ⟨m, hm, hs⟩ := h
  have hlive : (k.moment ms u).link.changed.disposed = false :=
    moment_induction (P := fun k => k.link.changed.disposed = false) (t := 0) hk
      (fun _ m _ _ h => next_link_live h m) (Nat.zero_le u)
  have hfirst : (k.moment ms (u + 1)).link.changed.listeners ≠ [] := by
    rw [moment_succ hm, next_link_of_startsUp hs, Link.tie, Signal.connect, hlive]
    simp
  refine moment_induction (P := fun k => k.disposed = false → k.link.changed.listeners ≠ [])
    (fun _ => hfirst) ?_ hut hd
  intro v m _ _ hv hd'
  rw [next_disposed_eq_false] at hd'
  exact next_listeners_ne_nil hd'.1 (hv hd'.2)

/-- Nobody is connected before a start-up begins. -/
theorem listeners_eq_nil {t : Nat} (hk : k.link.changed.listeners = [])
    (hd : (k.moment ms t).disposed = false) (hstartsUp : ∀ u < t, ¬ k.StartsUpAt ms u) :
    (k.moment ms t).provider.changed.listeners = [] := by
  induction t with
  | zero => exact hk
  | succ t ih =>
    have ih := ih (moment_not_disposed (Nat.le_succ t) hd) fun u hu => hstartsUp u (by omega)
    cases hm : ms[t]? with
    | none =>
      rw [moment_succ_of_none hm]
      exact ih
    | some m =>
      rw [moment_succ hm] at hd ⊢
      have hlink :=
        next_link (fun hs => hstartsUp t (Nat.lt_succ_self t) ⟨m, hm, hs⟩)
          (next_disposed_eq_false.mp hd).1
      exact (congrArg (fun l => l.changed.listeners) hlink).trans ih

/-- The settings are followed exactly if every change of them comes after the beginning of a
start-up. -/
theorem follows_iff_begins (hk : k.disposed = false) (hstart : k.settings = k.provider.settings)
    (hlink : k.link = { changed := .new, connected := false })
    (hsuited : ∀ t, (k.moment ms t).Suited) :
    k.Follows ms ↔
      ∀ t, Move.dispose ∉ ms.take t → k.AlteredAt ms t → ∃ u < t, k.StartsUpAt ms u := by
  constructor
  · intro h t hend halter
    by_contra hno
    have hd := (moment_disposed_eq_false_iff hk t).mpr hend
    have hls := listeners_eq_nil (k := k) (by rw [hlink]; rfl) hd fun u hu hb => hno ⟨u, hu, hb⟩
    cases hm : ms[t]? with
    | none => exact halter (by rw [moment_succ_of_none hm])
    | some m =>
      rw [AlteredAt, moment_succ hm] at halter
      obtain ⟨hm', hset⟩ := next_stays_behind (hsuited t) hls halter
      have hd' : (k.moment ms (t + 1)).disposed = false := by
        rw [moment_succ hm]
        exact next_disposed_eq_false.mpr ⟨hm', hd⟩
      have hnow := h (t + 1) ((moment_disposed_eq_false_iff hk _).mp hd')
      rw [moment_succ hm, hset, h t hend] at hnow
      exact halter hnow.symm
  · intro h t hend
    induction t with
    | zero => exact hstart
    | succ t ih =>
      have hd := (moment_disposed_eq_false_iff hk _).mpr hend
      have hend' := (moment_disposed_eq_false_iff hk t).mp (moment_not_disposed (Nat.le_succ t) hd)
      cases hm : ms[t]? with
      | none =>
        rw [moment_succ_of_none hm]
        exact ih hend'
      | some m =>
        rw [moment_succ hm]
        refine next_follows (hsuited t) (ih hend') ?_
        intro halter
        rw [← moment_succ hm] at halter
        obtain ⟨u, hu, hb⟩ := h t hend' halter
        exact hb.listeners_ne_nil (by rw [hlink]; rfl) hu (moment_not_disposed (Nat.le_succ t) hd)

end

/-- In every course exactly the files are watched that the settings of the keeper name, from the
time this is set up until the end.  These are the settings in force at all times exactly if each
change of them comes after a start-up has had its first turn. -/
theorem watched_and_follows_iff (w : Workspace) (machine : Machine) (dir : Path)
    (settings : Settings) (groupSize : Nat) (limit : Int) (delay : Nat) (ms : List Move) :
    (new w (.new machine dir settings) groupSize limit delay true).Watched ms ∧
      ((new w (.new machine dir settings) groupSize limit delay true).Follows ms ↔
        ∀ t, Move.dispose ∉ ms.take t →
          (new w (.new machine dir settings) groupSize limit delay true).AlteredAt ms t →
          ∃ u < t,
            (new w (.new machine dir settings) groupSize limit delay true).StartsUpAt ms u) := by
  have hsuited := new_suited w (.new machine dir settings) groupSize limit delay true
  have hsound := new_scope_sound w (.new machine dir settings) groupSize limit delay true
  have hruns : (new w (.new machine dir settings) groupSize limit delay true).runs = [] := rfl
  have hwatches : (new w (.new machine dir settings) groupSize limit delay true).watches = [] := rfl
  have hwatchable : (new w (.new machine dir settings) groupSize limit delay true).watchable =
      true := rfl
  have hlive : (new w (.new machine dir settings) groupSize limit delay true).disposed = false :=
    rfl
  have hstart : (new w (.new machine dir settings) groupSize limit delay true).settings =
      (new w (.new machine dir settings) groupSize limit delay true).provider.settings := rfl
  have hlink : (new w (.new machine dir settings) groupSize limit delay true).link =
      { changed := .new, connected := false } :=
    rfl
  generalize new w (.new machine dir settings) groupSize limit delay true = k at *
  have hsuited : ∀ u, (k.moment ms u).Suited := fun u =>
    moment_induction (k := k) (t := 0) hsuited (fun _ m _ _ h => next_suited h m) (Nat.zero_le u)
  have hsound : ∀ u, (k.moment ms u).scope.Sound := fun u =>
    moment_induction (P := fun k => k.scope.Sound) (t := 0) hsound
      (fun v m _ _ h => next_scope_sound h (hsuited v) m) (Nat.zero_le u)
  have hwatchable : ∀ u, (k.moment ms u).watchable = true := fun u =>
    moment_induction (P := fun k => k.watchable = true) (t := 0) hwatchable
      (fun v m _ _ h => (next_watchable (hsuited v) m).trans h) (Nat.zero_le u)
  refine ⟨⟨?_, ?_, fun t => (hsound t).tidy.symm⟩, follows_iff_begins hlive hstart hlink hsuited⟩
  · intro t hset hend
    have hd := (moment_disposed_eq_false_iff hlive t).mpr hend
    exact (hsound t).live.resolve_left (hset.watches_ne_nil hsuited hsound hwatchable hruns hd)
  · intro t h
    by_contra hne
    rcases h with hset | hend
    · exact hset (setUpBy_of_watches_ne_nil hsuited hsound hwatches hne)
    · refine hne ((hsound t).ended (Bool.eq_false_or_eq_true _ |>.resolve_right fun hd => ?_))
      exact (moment_disposed_eq_false_iff hlive t).mp hd hend

def watcherOfFiles (files : List (Path × Text)) : Keeper :=
  new (inMemory files) (.new .boundless default shortSettings) 20 1000 500 true

/-- The settings are changed between the call of a start-up and its first turn, and then it runs to
its end. -/
def missedChange : List Move :=
  [.startUp, .changeSettings [("feature_globs", .text "x")], .turn (.run 0), .turn (.load 0),
    .turn (.report 0), .turn (.run 0), .turn (.run 0), .turn (.load 1), .turn (.report 1),
    .turn (.run 0), .turn (.run 0)]

/-- The start-up returns, and what is watched is not what the settings in force ask for. -/
theorem missedChange_stays_behind :
    ((watcherOfFiles twoFiles).moment missedChange 11).result? 0 = some (.ok true) ∧
      ((watcherOfFiles twoFiles).moment missedChange 11).provider.settings.featureGlobs = ["x"] ∧
      ((watcherOfFiles twoFiles).moment missedChange 11).watches = shortSettings.watches ∧
      shortSettings.featureGlobs ≠ ["x"] :=
  ⟨by decide +kernel, by decide +kernel, by decide +kernel, by decide +kernel⟩

end Keeper
end StepAtlas
