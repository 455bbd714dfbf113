import StepAtlas.Proofs.Keeper.Supersession

/-
What a keeper watches.  Its subscriptions depend on a few of its fields only, which make up its
scope.  `Rescopes` lists what a move can do to the scope: a start-up that returns sets the
subscriptions up, a change of the settings that the keeper hears of may set them up anew, and the
end takes them back.

At any time nothing is watched, or exactly what the settings of the keeper ask for; and all of it
can be taken back, so no subscription is left over when others come in its place
(`next_scope_sound`).
-/

namespace StepAtlas

/-! ## Subscriptions -/

namespace Subscriptions

/-- The subscriptions that are told of changes are those that can be taken back. -/
def Tidy (s : Subscriptions) : Prop := s.live = s.handles

theorem foldl_erase_append (ws rest : List Watch) : ws.foldl List.erase (ws ++ rest) = rest := by
  induction ws with
  | nil => rfl
  | cons w ws ih => rw [List.cons_append, List.foldl_cons, List.erase_cons_head, ih]

theorem foldl_erase_nil (ws : List Watch) : ws.foldl List.erase [] = [] := by
  induction ws with
  | nil => rfl
  | cons w ws ih => rw [List.foldl_cons, List.erase_nil, ih]

theorem live_release {s : Subscriptions} (h : s.live = []) : s.release.live = [] := by
  rw [release, h]
  exact foldl_erase_nil s.handles

theorem Tidy.release_eq {s : Subscriptions} (h : s.Tidy) : s.release = none := by
  have hlive := foldl_erase_append s.handles []
  rw [List.append_nil] at hlive
  rw [release, show s.live = s.handles from h, hlive, none]

end Subscriptions

/-! ## The scope of a keeper -/

/-- The parts of a keeper that its subscriptions depend on. -/
structure Scope where
  /-- The settings in force. -/
  inForce : Settings
  /-- The settings that the keeper works with. -/
  settings : Settings
  watchable : Bool
  disposed : Bool
  subscriptions : Subscriptions

namespace Scope

/-- Subscribe to the files that the settings name, in place of all earlier subscriptions. -/
def renew (s : Scope) : Scope :=
  { s with
    subscriptions :=
      if s.watchable && !s.disposed then s.subscriptions.release.subscribe s.settings.watches
      else s.subscriptions.release }

def takeOver (s : Scope) : Scope :=
  if s.settings.sameFiles s.inForce then { s with settings := s.inForce }
    else { s with settings := s.inForce }.renew

/-- Other settings are in force; the keeper may hear of it. -/
def change (s : Scope) (settings : Settings) (heard : Bool) : Scope :=
  if heard then { s with inForce := settings }.takeOver else { s with inForce := settings }

def close (s : Scope) : Scope :=
  { s with disposed := true, subscriptions := s.subscriptions.release }

/-- Nothing is watched, or what the settings ask for; and all of it can be taken back. -/
structure Sound (s : Scope) : Prop where
  tidy : s.subscriptions.Tidy
  live : s.subscriptions.live = [] ∨ s.subscriptions.live = s.settings.watches
  ended : s.disposed = true → s.subscriptions.live = []

variable {s : Scope}

theorem subscriptions_renew (h : s.subscriptions.Tidy) :
    s.renew.subscriptions = if s.watchable && !s.disposed then
      ⟨s.settings.watches, s.settings.watches⟩ else .none := by
  rw [renew, h.release_eq]
  rfl

theorem sound_renew (h : s.subscriptions.Tidy) : s.renew.Sound := by
  have hsub := subscriptions_renew h
  split at hsub
  · rename_i hopen
    refine ⟨by rw [hsub]; rfl, .inr (by rw [hsub]; rfl), ?_⟩
    intro hd
    rw [show s.disposed = true from hd, Bool.not_true, Bool.and_false] at hopen
    cases hopen
  · exact ⟨by rw [hsub]; rfl, .inl (by rw [hsub]; rfl), fun _ => by rw [hsub]; rfl⟩

theorem Sound.close (h : s.Sound) : s.close.Sound := by
  have hsub : s.close.subscriptions = .none := h.tidy.release_eq
  exact ⟨by rw [hsub]; rfl, .inl (by rw [hsub]; rfl), fun _ => by rw [hsub]; rfl⟩

/-- Settings that lead to the same files ask for the same subscriptions. -/
theorem watches_eq_of_sameFiles {a b : Settings} (h : a.sameFiles b = true) :
    a.watches = b.watches := by
  simp only [Settings.sameFiles, Bool.and_eq_true, decide_eq_true_eq] at h
  simp [Settings.watches, h]

theorem Sound.takeOver (h : s.Sound) : s.takeOver.Sound := by
  unfold Scope.takeOver
  split
  · rename_i hsame
    refine ⟨h.tidy, h.live.imp_right fun hlive => ?_, h.ended⟩
    exact hlive.trans (watches_eq_of_sameFiles hsame)
  · exact sound_renew (s := { s with settings := s.inForce }) h.tidy

theorem Sound.change (h : s.Sound) (settings : Settings) (heard : Bool) :
    (s.change settings heard).Sound := by
  cases heard with
  | true => exact Sound.takeOver (s := { s with inForce := settings }) ⟨h.tidy, h.live, h.ended⟩
  | false => exact ⟨h.tidy, h.live, h.ended⟩

theorem settings_takeOver (s : Scope) : s.takeOver.settings = s.inForce := by
  unfold takeOver
  split
  · rfl
  · rfl

theorem inForce_takeOver (s : Scope) : s.takeOver.inForce = s.inForce := by
  unfold takeOver
  split
  · rfl
  · rfl

/-- To hear of a change twice comes to the same as once. -/
theorem takeOver_takeOver (s : Scope) : s.takeOver.takeOver = s.takeOver := by
  have hsame : s.takeOver.settings.sameFiles s.takeOver.inForce = true := by
    rw [settings_takeOver, inForce_takeOver]
    simp [Settings.sameFiles]
  have hset : s.takeOver.inForce = s.takeOver.settings := by
    rw [settings_takeOver, inForce_takeOver]
  generalize s.takeOver = t at hsame hset ⊢
  rw [takeOver, if_pos hsame]
  cases t
  cases hset
  rfl

end Scope

namespace Keeper

def scope (k : Keeper) : Scope :=
  { inForce := k.provider.settings, settings := k.settings, watchable := k.watchable,
    disposed := k.disposed
    subscriptions := k.subscriptions }

/-! ## Turns -/

/-- What the turn of a run does to the scope: it stays as it is, unless a start-up returns. -/
inductive Tends (r : Run) (s : Scope) : Option Point → Scope → Prop where
  | keeps {p : Option Point} (h : r.job = .startUp → ∀ b, p ≠ some (.finished (.ok b))) :
      Tends r s p s
  | renews {b : Bool} (hj : r.job = .startUp) : Tends r s (some (.finished (.ok b))) s.renew

section
variable {k k' : Keeper} {id : Nat} {r : Run}

theorem Tends.of_point {p : Point} (hp : k'.point? id = some p) (h : ∀ b, p ≠ .finished (.ok b))
    (hscope : k'.scope = k.scope) : Tends r k.scope (k'.point? id) k'.scope := by
  rw [hp, hscope]
  exact .keeps fun _ b hb => h b (Option.some.inj hb)

theorem finishBuild_tends {s : Run} (hs : k.runs[id]? = some s) (hj : s.job = r.job)
    (result : Except Stop Bool) :
    Tends r k.scope (some (.finished result)) (k.finishBuild id result).scope := by
  unfold finishBuild
  cases result with
  | error stop => exact .keeps (by simp)
  | ok b =>
    by_cases hstart : r.job = .startUp
    · simp only [hs, hj, hstart, Option.any_some, decide_true, if_true]
      exact .renews hstart
    · simp only [hs, hj, hstart, Option.any_some, decide_false, Bool.false_eq_true, if_false]
      exact .keeps fun h => absurd h hstart

theorem giveUp_tends {s : Run} (hs : k.runs[id]? = some s) (hj : s.job = r.job)
    (result : Except Stop Bool) :
    Tends r k.scope ((k.giveUp id result).point? id) (k.giveUp id result).scope := by
  rw [point?_giveUp_self hs]
  simp only [giveUp, dropCurrent_eq, unlock_eq]
  exact finishBuild_tends
    (k := { k with current := k.currentWithout id, locked := false,
                   ready := callHead k.ready k.queue }) hs hj result

theorem publish_tends {s : Run} (hs : k.runs[id]? = some s) (hj : s.job = r.job) (c : Catalog) :
    Tends r k.scope ((k.publish id c).point? id) (k.publish id c).scope := by
  have hpoint : ∀ {k : Keeper}, k.runs[id]? = some s → ∀ result,
      (k.finishBuild id result).point? id = some (.finished result) := by
    intro k hs result
    obtain ⟨subscriptions, he⟩ := finishBuild_eq k id result
    rw [he]
    exact point?_finish_self (k := { k with subscriptions }) hs result
  simp only [publish, dropCurrent_eq, unlock_eq]
  obtain ⟨told, fault, ha⟩ := announce_eq { k with
    current := k.currentWithout id, catalog := c.published, locked := false
    ready := callHead k.ready k.queue }
  rw [ha]
  generalize hk₁ : { k with
    current := k.currentWithout id, catalog := c.published, locked := false
    ready := callHead k.ready k.queue
    events := k.events ++ told } = k₁
  have hs₁ : k₁.runs[id]? = some s := by rw [← hk₁]; exact hs
  have hscope : k₁.scope = k.scope := by rw [← hk₁]; rfl
  rw [← hscope]
  cases fault with
  | none =>
    show Tends r k₁.scope ((k₁.finishBuild id (.ok true)).point? id)
      (k₁.finishBuild id (.ok true)).scope
    rw [hpoint hs₁]
    exact finishBuild_tends hs₁ hj _
  | some fault =>
    show Tends r k₁.scope ((k₁.finishBuild id (.error (.failed fault))).point? id)
      (k₁.finishBuild id (.error (.failed fault))).scope
    rw [hpoint hs₁]
    exact finishBuild_tends hs₁ hj _

theorem Builds.tends {d : Draft} {goal : Except Fault Catalog} (hb : Builds k id d goal k')
    {s : Run} (hs : k.runs[id]? = some s) (hj : s.job = r.job) :
    Tends r k.scope (k'.point? id) k'.scope := by
  cases hb with
  | searches => exact .of_point (point?_wait_self hs _) (by simp) rfl
  | @loads d' files =>
    have hs' : (k.startLoads id (files.map fun p => (p, d'.cls, false))).1.runs[id]? = some s := hs
    exact .of_point (point?_wait_self hs' _) (by simp) rfl
  | abandons | fails => exact giveUp_tends hs hj _
  | publishes => exact publish_tends hs hj _

theorem Enters.tends (he : Enters k id r.job k') {s : Run} (hs : k.runs[id]? = some s)
    (hj : s.job = r.job) :
    Tends r k.scope (k'.point? id) k'.scope := by
  have hrefreshes : r.job.refreshes = true → r.job ≠ .startUp := by
    intro hr h
    rw [h] at hr
    cases hr
  cases he with
  | builds _ hb => exact hb.tends hs hj
  | idles hr =>
    rw [leave_eq]
    exact .keeps fun h => absurd h (hrefreshes hr)
  | takesOver hr => exact .keeps fun h => absurd h (hrefreshes hr)

theorem Arrives.scope (ha : Arrives k id r k') : k'.scope = k.scope := by
  cases ha with
  | rebuild =>
    rw [supersede_eq]
    rfl
  | startUp =>
    rw [supersede_eq]
    rfl
  | refresh | wakes => rfl

theorem TakesRun.tends (ht : TakesRun k id r k') (hr : k.runs[id]? = some r) (hs : RunSuited r)
    (hn : ∀ result, r.point ≠ .finished result) : Tends r k.scope (k'.point? id) k'.scope := by
  have happlying : ∀ {changes g}, r.point = .applying changes g → r.job ≠ .startUp := by
    intro changes g hp h
    have hrefreshes := hs.applying changes g hp
    rw [h] at hrefreshes
    cases hrefreshes
  cases ht with
  | rests hp => exact absurd hp (hn _)
  | stops => exact .of_point (point?_finish_self hr _) (by simp) rfl
  | sleeps => exact .of_point (point?_wait_self (k := { k with ready := _ }) hr _) (by simp) rfl
  | @queues k₀ hc ha =>
    obtain ⟨superseded, hr₀⟩ := ha.run hr
    exact .of_point (point?_wait_self (k := { k₀ with queue := _ }) hr₀ _) (by simp) ha.scope
  | enters hc ha hl hq he =>
    obtain ⟨superseded, hr₀⟩ := ha.run hr
    rw [← ha.scope]
    exact he.tends hr₀ rfl
  | quits =>
    exact .of_point (point?_finish_self (k := { k with queue := _, ready := _ }) hr _) (by simp) rfl
  | admitted hp hc he => exact he.tends hr rfl
  | resumes hp hc hb | continues hp hc hb => exact hb.tends hr rfl
  | yields => exact .of_point (point?_wait_self (k := { k with ready := _ }) hr _) (by simp) rfl
  | givesUp => exact giveUp_tends hr rfl _
  | leaves hp | breaks hp =>
    rw [leave_eq]
    exact .keeps fun h => absurd h (happlying hp)
  | applies hp => exact .keeps fun h => absurd h (happlying hp)

end

/-! ## Changes of the settings -/

theorem switchMode_scope (k : Keeper) (mode : MatchMode) :
    (k.switchMode mode).1.scope = k.scope := by
  obtain ⟨c, told, fault, -, he⟩ | ⟨fault, -, he⟩ := switchMode_eq k mode
  · rw [he]
    rfl
  · rw [he]
    rfl

theorem spawnRebuild_scope (k : Keeper) : k.spawnRebuild.scope = k.scope := by
  unfold spawnRebuild
  split
  · rfl
  · rfl

theorem settingsChanged_scope (k : Keeper) : k.settingsChanged.1.scope = k.scope.takeOver := by
  unfold settingsChanged Scope.takeOver
  by_cases hfiles : k.settings.sameFiles k.provider.settings = true
  · rw [if_pos (show k.scope.settings.sameFiles k.scope.inForce = true from hfiles)]
    simp only [hfiles, Bool.not_true, Bool.false_eq_true, if_false]
    split
    · exact switchMode_scope _ _
    · rfl
  · rw [if_neg (show ¬ k.scope.settings.sameFiles k.scope.inForce = true from hfiles)]
    simp only [hfiles, Bool.not_false, if_true]
    exact spawnRebuild_scope _

/-- However many connections there are, the settings are taken over once. -/
theorem callAll_scope (k : Keeper) {ls : List Unit} (h : ls ≠ []) :
    (Signal.callAll (fun () k => k.settingsChanged) ls k).1.scope = k.scope.takeOver := by
  cases ls with
  | nil => exact absurd rfl h
  | cons l ls =>
    have hfirst := settingsChanged_scope k
    have hrest := fun k₁ (hk₁ : k₁.scope = k.scope.takeOver) =>
      callAll_induction (P := fun k' : Keeper => k'.scope = k.scope.takeOver)
        (fun () k => k.settingsChanged)
        (fun _ k' hk' => by rw [settingsChanged_scope, hk', Scope.takeOver_takeOver]) ls k₁ hk₁
    rw [Signal.callAll]
    split
    · rename_i k₁ hk₁
      rw [hk₁] at hfirst
      exact hrest k₁ hfirst
    · rename_i k₁ fault hk₁
      rw [hk₁] at hfirst
      split
      · exact hrest k₁ hfirst
      · exact hfirst

/-- The scope after a change of the settings. -/
theorem changeSettings_scope (k : Keeper) (changes : List (Text × Value)) :
    (k.changeSettings changes).1.scope =
      match k.provider.settings.change changes with
      | .error _ => k.scope
      | .ok s =>
        if s.same k.provider.settings then k.scope
        else k.scope.change s (decide (k.provider.changed.listeners ≠ [])) := by
  unfold changeSettings Provider.update Provider.take
  cases k.provider.settings.change changes with
  | error fault => rfl
  | ok s =>
    by_cases hsame : s.same k.provider.settings = true
    · simp only [Refusal.raise_ok, bind, Except.bind, pure, Except.pure, hsame, if_true]
    · simp only [Refusal.raise_ok, bind, Except.bind, pure, Except.pure, hsame, Bool.false_eq_true,
        if_false]
      by_cases hls : k.provider.changed.listeners = []
      · simp only [hls, Signal.callAll, ne_eq, not_true, decide_false, Scope.change,
          Bool.false_eq_true, if_false]
        rfl
      · have hcall := callAll_scope { k with provider := { k.provider with settings := s } } hls
        simp only [hls, ne_eq, not_false_eq_true, decide_true, Scope.change, if_true]
        split
        · rename_i k' hc
          rw [hc] at hcall
          exact hcall
        · rename_i k' fault hc
          rw [hc] at hcall
          exact hcall

/-! ## Moves -/

inductive Rescopes (k : Keeper) (m : Move) : Scope → Prop where
  | keeps : Rescopes k m k.scope
  | starts {i : Nat} {r : Run} {b : Bool} (hr : (k.next m).runs[i]? = some r)
      (hj : r.job = .startUp) (hb : (k.next m).result? i = some (.ok b)) :
      Rescopes k m k.scope.renew
  | changes {changes : List (Text × Value)} (hm : m = .changeSettings changes) (s : Settings) :
      Rescopes k m (k.scope.change s (decide (k.provider.changed.listeners ≠ [])))
  | ends (hm : m = .dispose) : Rescopes k m k.scope.close

theorem CancelsRun.scope {k k' : Keeper} {id : Nat} (hc : CancelsRun k id k') :
    k'.scope = k.scope := by
  cases hc with
  | rests | flags | wakes => rfl
  | stops hr hg hd hs =>
    obtain ⟨loads, ts, rfl, -, -⟩ := hs
    rfl

theorem Cancels.scope {k k' : Keeper} (hc : Cancels k k') : k'.scope = k.scope :=
  hc.induction (P := fun k' => k'.scope = k.scope) (fun _ _ _ hk hcan => hcan.scope.trans hk) rfl

theorem disconnect_scope (k : Keeper) : k.disconnect.scope = k.scope := by
  unfold disconnect
  split
  · rfl
  · rfl

theorem dispose_scope (k : Keeper) : k.dispose.scope = k.scope.close := by
  have h₁ := (cancelTimer_cancels { k with disposed := true }.supersedeCurrent).scope
  rw [supersedeCurrent_eq] at h₁
  generalize hk₁ : (Option.map _ _).getD _ = k₁ at h₁
  have h₂ :=
    (foldl_cancelRun_cancels { k₁ with timer := none, pending := .empty } k₁.background).scope
  generalize hk₂ : List.foldl _ _ _ = k₂ at h₂
  have hk : k₂.scope = { k.scope with disposed := true } := h₂.trans h₁
  have hd := disconnect_scope { k₂ with subscriptions := k₂.subscriptions.release }
  simp only [dispose, supersedeCurrent_eq, hk₁, hk₂]
  refine hd.trans ?_
  show { k₂.scope with subscriptions := k₂.scope.subscriptions.release } = k.scope.close
  rw [hk]
  rfl

theorem next_rescopes {k : Keeper} (hs : k.Suited) (m : Move) : Rescopes k m (k.next m).scope := by
  have h := next_moves k m
  generalize hk' : k.next m = k' at h ⊢
  cases h with
  | notify p c =>
    have h : (k.notify p c).scope = k.scope := by
      unfold notify
      split
      · rfl
      · exact (cancelTimer_cancels { k with pending := k.pending.set p c }).scope
    rw [h]
    exact .keeps
  | switchMode mode =>
    rw [switchMode_scope]
    exact .keeps
  | changeSettings changes =>
    rw [changeSettings_scope]
    split
    · exact .keeps
    · split
      · exact .keeps
      · exact .changes rfl _
  | dispose =>
    rw [dispose_scope]
    exact .ends rfl
  | @run i r _ hready hr hrun =>
    by_cases hn : ∃ result, r.point = .finished result
    · obtain ⟨result, hp⟩ := hn
      rw [hrun.eq_of_finished hp]
      exact .keeps
    · have htends := hrun.tends hr (hs i r hr) fun result hp => hn ⟨result, hp⟩
      obtain ⟨r', hr', hj, -⟩ := next_run hr (.turn (.run i))
      generalize hp : k'.point? i = p at htends
      generalize hscope : k'.scope = s at htends ⊢
      cases htends with
      | keeps => exact .keeps
      | renews hstart =>
        subst hk'
        exact .starts hr' (hj.trans hstart) (result?_eq_some_iff.mpr hp)
  | starts | listen | edit | works | waits => exact .keeps

theorem next_scope_sound {k : Keeper} (h : k.scope.Sound) (hs : k.Suited) (m : Move) :
    (k.next m).scope.Sound := by
  have hmove := next_rescopes hs m
  generalize (k.next m).scope = s at hmove ⊢
  cases hmove with
  | keeps => exact h
  | starts => exact Scope.sound_renew h.tidy
  | changes hm settings => exact h.change settings _
  | ends => exact h.close

theorem new_scope_sound (w : Workspace) (provider : Provider Unit) (groupSize : Nat) (limit : Int)
    (delay : Nat) (watchable : Bool) :
    (new w provider groupSize limit delay watchable).scope.Sound :=
  ⟨rfl, .inl rfl, fun _ => rfl⟩

end Keeper
end StepAtlas
