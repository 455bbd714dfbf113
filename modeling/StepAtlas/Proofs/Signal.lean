import Mathlib.Data.Fin.Tuple.Basic
import Mathlib.Data.List.FinRange
import StepAtlas.Signal

/-
Connections and their handles.  Every connection gives out a handle, and the handle of a connection
is to take away this connection and no other.  A signal knows listeners only: a handle takes away
the first connection of its listener.

A history says what was done to a signal, and what is owed after it: the connections whose own
handles were not called, unless the signal is disposed.  Whatever the history, nothing is called
that is not owed and no order is turned round.  The listeners called are those that are owed, at all
times, exactly if no handle was called at the wrong moment; with listeners that are connected once
there is no such moment.
-/

namespace StepAtlas
namespace Signal

variable {α : Type}

/-- An emission calls these listeners one after the other, whatever they do, if none of them
fails. -/
def Emits (s : Signal α) (as : List α) : Prop :=
  ∀ {σ : Type} (change : α → σ → σ) (x : σ),
    callAll (fun a (y : σ × List α) => ((change a y.1, y.2 ++ [a]), none)) s.listeners (x, []) =
      ((as.foldl (fun x a => change a x) x, as), none)

theorem callAll_recorded {σ : Type} (change : α → σ → σ) (as called : List α) (x : σ) :
    callAll (fun a (y : σ × List α) => ((change a y.1, y.2 ++ [a]), none)) as (x, called) =
      ((as.foldl (fun x a => change a x) x, called ++ as), none) := by
  induction as generalizing x called with
  | nil => rw [callAll, List.foldl_nil, List.append_nil]
  | cons a as ih =>
    rw [callAll]
    dsimp only
    rw [ih, List.append_assoc, List.singleton_append, List.foldl_cons]

theorem emits_iff {s : Signal α} {as : List α} : s.Emits as ↔ s.listeners = as := by
  constructor
  · intro h
    have hcalls :=
      (callAll_recorded (fun _ (x : Unit) => x) s.listeners [] ()).symm.trans (h (fun _ x => x) ())
    exact congrArg (·.1.2) hcalls
  · rintro rfl σ change x
    exact callAll_recorded change s.listeners [] x

/-! ## Histories -/

/-- What was done to a signal, the last act outermost.  The handles that were given out are counted,
and only these can be called. -/
inductive History (α : Type) : Nat → Type where
  | new : History α 0
  | connect {n : Nat} (h : History α n) (a : α) : History α (n + 1)
  | disconnect {n : Nat} (h : History α n) (i : Fin n) : History α n
  | dispose {n : Nat} (h : History α n) : History α n

namespace History

variable {n : Nat}

def listener {n : Nat} : History α n → Fin n → α
  | .new => Fin.elim0
  | .connect h a => Fin.snoc h.listener a
  | .disconnect h _ | .dispose h => h.listener

def called {n : Nat} : History α n → Fin n → Bool
  | .new => Fin.elim0
  | .connect h _ => Fin.snoc h.called false
  | .disconnect h i => fun j => j == i || h.called j
  | .dispose h => h.called

def disposed {n : Nat} : History α n → Bool
  | .new => false
  | .connect h _ | .disconnect h _ => h.disposed
  | .dispose _ => true

/-- The signal after a history.  A handle knows its listener and nothing else. -/
def signal [DecidableEq α] {n : Nat} : History α n → Signal α
  | .new => .new
  | .connect h a => h.signal.connect a
  | .disconnect h i => h.signal.disconnect (h.listener i)
  | .dispose h => h.signal.dispose

def connected (h : History α n) : List α := (List.finRange n).map h.listener

/-- The connections that are left: their handles were not called, and the signal was not
disposed. -/
def due (h : History α n) : List (Fin n) :=
  if h.disposed then [] else (List.finRange n).filter fun i => !h.called i

def owed (h : History α n) : List α := h.due.map h.listener

def Throughout (P : ∀ m, History α m → Prop) {n : Nat} : History α n → Prop
  | .new => P 0 .new
  | .connect h a => h.Throughout P ∧ P _ (h.connect a)
  | .disconnect h i => h.Throughout P ∧ P _ (h.disconnect i)
  | .dispose h => h.Throughout P ∧ P _ h.dispose

/-- A good moment to call a handle.  If its connection is left, then all that lies between it and
the first connection of its listener is of this listener too; if it is not, then no connection of
its listener is left. -/
def Timely (h : History α n) (i : Fin n) : Prop :=
  if i ∈ h.due then
    ∀ j ∈ h.due, ∀ k ∈ h.due, j < k → k < i → h.listener j = h.listener i →
    h.listener k = h.listener i
  else ∀ j ∈ h.due, h.listener j ≠ h.listener i

def Orderly {n : Nat} : History α n → Prop
  | .new => True
  | .connect h _ | .dispose h => h.Orderly
  | .disconnect h i => h.Orderly ∧ h.Timely i

/-! ## What is owed -/

section
variable {h : History α n}

theorem due_connect (hopen : h.disposed = false) (a : α) :
    (h.connect a).due = h.due.map Fin.castSucc ++ [Fin.last n] := by
  simp [due, disposed, hopen, called, List.finRange_succ_last, List.filter_append, List.filter_map,
    Function.comp_def]

theorem owed_connect (hopen : h.disposed = false) (a : α) : (h.connect a).owed = h.owed ++ [a] := by
  simp [owed, due_connect hopen, listener, Function.comp_def]

theorem connected_connect (a : α) : (h.connect a).connected = h.connected ++ [a] := by
  simp [connected, listener, List.finRange_succ_last, Function.comp_def]

theorem due_disconnect (i : Fin n) : (h.disconnect i).due = h.due.filter (· != i) := by
  cases hdisposed : h.disposed with
  | true => simp [due, disposed, hdisposed]
  | false =>
    simp only [due, disposed, hdisposed, called, Bool.false_eq_true, if_false, List.filter_filter]
    exact List.filter_congr fun j _ => Bool.not_or _ _

theorem owed_disconnect (i : Fin n) :
    (h.disconnect i).owed = (h.due.filter (· != i)).map h.listener := by
  rw [owed, due_disconnect]
  rfl

theorem owed_of_disposed (hdisposed : h.disposed = true) : h.owed = [] := by
  rw [owed, due, if_pos hdisposed, List.map_nil]

theorem pairwise_due (h : History α n) : h.due.Pairwise (· < ·) := by
  rw [due]
  split
  · exact .nil
  · exact (List.pairwise_lt_finRange n).filter _

end

/-! ## A handle at its moment -/

section
variable {f : Fin n → α} {i : Fin n} {l : List (Fin n)}

/-- The first of a row is taken away instead of a later one, which makes no difference if all before
are the same. -/
theorem map_eq_cons_iff (hl : l.Pairwise (· < ·)) :
    l.map f = f i :: (l.filter (· != i)).map f ↔ i ∈ l ∧ ∀ k ∈ l, k < i → f k = f i := by
  induction l with
  | nil => simp
  | cons j l ih =>
    obtain ⟨hj, hl⟩ := List.pairwise_cons.mp hl
    by_cases hji : j = i
    · subst hji
      have hrest : l.filter (· != j) = l := List.filter_eq_self.mpr fun k hk => by
        simp [(hj k hk).ne']
      have hlate : ∀ k ∈ l, ¬ k < j := fun k hk => (hj k hk).le.not_gt
      rw [List.filter_cons_of_neg (by simp), hrest]
      simpa using fun k hk hlt => absurd hlt (hlate k hk)
    · rw [List.filter_cons_of_pos (by simpa using hji), List.map_cons, List.map_cons,
        List.cons_eq_cons]
      constructor
      · rintro ⟨hfj, htail⟩
        rw [hfj] at htail
        obtain ⟨hi, hall⟩ := (ih hl).mp htail
        exact ⟨List.mem_cons_of_mem j hi, List.forall_mem_cons.mpr ⟨fun _ => hfj, hall⟩⟩
      · rintro ⟨hi, hall⟩
        have hi : i ∈ l := (List.mem_cons.mp hi).resolve_left (Ne.symm hji)
        obtain ⟨hfj, hall⟩ := List.forall_mem_cons.mp hall
        have hfj := hfj (hj i hi)
        exact ⟨hfj, by rw [hfj]; exact (ih hl).mpr ⟨hi, hall⟩⟩

/-- Taking away the first of a listener comes to taking away the connection itself. -/
theorem erase_map_eq_iff [DecidableEq α] (hl : l.Pairwise (· < ·)) :
    (l.map f).erase (f i) = (l.filter (· != i)).map f ↔
      if i ∈ l then ∀ j ∈ l, ∀ k ∈ l, j < k → k < i → f j = f i →
      f k = f i else ∀ j ∈ l, f j ≠ f i := by
  induction l with
  | nil => simp
  | cons j l ih =>
    obtain ⟨hj, hl⟩ := List.pairwise_cons.mp hl
    by_cases hfj : f j = f i
    · -- the first of the listener is taken away: its own connection, or an earlier one
      rw [List.map_cons, hfj, List.erase_cons_head]
      by_cases hji : j = i
      · subst hji
        have hrest : l.filter (· != j) = l := List.filter_eq_self.mpr fun k hk => by
          simp [(hj k hk).ne']
        have hlate : ∀ k ∈ j :: l, ¬ k < j := by
          simpa using fun k hk => (hj k hk).le
        rw [List.filter_cons_of_neg (by simp), hrest, if_pos List.mem_cons_self]
        exact iff_of_true rfl fun _ _ k hk _ hki => absurd hki (hlate k hk)
      · rw [List.filter_cons_of_pos (by simpa using hji), List.map_cons, hfj, map_eq_cons_iff hl]
        by_cases hi : i ∈ l
        · rw [if_pos (List.mem_cons_of_mem j hi)]
          constructor
          · rintro ⟨-, hall⟩ j' _ k hk _ hki _
            exact (List.mem_cons.mp hk).elim (fun hkj => hkj ▸ hfj) fun hk => hall k hk hki
          · intro hall
            exact ⟨hi, fun k hk hki => hall j List.mem_cons_self k (List.mem_cons_of_mem j hk)
              (hj k hk) hki hfj⟩
        · rw [if_neg (by simpa [Ne.symm hji] using hi)]
          exact iff_of_false (fun h => hi h.1) fun h => h j List.mem_cons_self hfj
    · have hji : j ≠ i := fun h => hfj (congrArg f h)
      rw [List.map_cons, List.erase_cons_tail (by simpa using hfj),
        List.filter_cons_of_pos (by simpa using hji), List.map_cons, List.cons_eq_cons, ih hl]
      simp only [true_and, List.mem_cons, Ne.symm hji, false_or]
      split
      · constructor
        · rintro hall j' (rfl | hj') k (rfl | hk) hjk hki hfj'
          · exact absurd hjk (lt_irrefl _)
          · exact absurd hfj' hfj
          · exact absurd hjk (hj j' hj').le.not_gt
          · exact hall j' hj' k hk hjk hki hfj'
        · intro hall j' hj' k hk
          exact hall j' (.inr hj') k (.inr hk)
      · constructor
        · rintro hall j' (rfl | hj')
          · exact hfj
          · exact hall j' hj'
        · exact fun hall j' hj' => hall j' (.inr hj')

end

/-! ## All histories -/

section
variable [DecidableEq α]

theorem disposed_signal (h : History α n) : h.signal.disposed = h.disposed := by
  induction h with
  | new => rfl
  | connect h a ih =>
    rw [signal, Signal.connect, disposed]
    split
    · exact ih
    · exact ih
  | disconnect h i ih => exact ih
  | dispose h ih => rfl

theorem listeners_of_disposed {h : History α n} (hdisposed : h.disposed = true) :
    h.signal.listeners = [] := by
  induction h with
  | new => rfl
  | connect h a ih =>
    have hsignal : h.signal.disposed = true := h.disposed_signal.trans hdisposed
    rw [signal, Signal.connect, if_pos hsignal]
    exact ih hdisposed
  | disconnect h i ih =>
    rw [signal, Signal.disconnect, ih hdisposed]
    rfl
  | dispose h ih => rfl

theorem listeners_connect {h : History α n} (hopen : h.disposed = false) (a : α) :
    (h.connect a).signal.listeners = h.signal.listeners ++ [a] := by
  rw [signal, Signal.connect, h.disposed_signal, hopen]
  rfl

theorem listeners_sublist (h : History α n) : h.signal.listeners.Sublist h.connected := by
  induction h with
  | new => exact .slnil
  | connect h a ih =>
    rw [connected_connect]
    cases hdisposed : h.disposed with
    | true => rw [listeners_of_disposed (h := h.connect a) hdisposed]; exact List.nil_sublist _
    | false => rw [listeners_connect hdisposed]; exact ih.append_right [a]
  | disconnect h i ih => exact List.erase_sublist.trans ih
  | dispose h ih => exact List.nil_sublist _

/-- A handle that is called takes away one connection of its listener at least. -/
theorem erase_subperm_owed {h : History α n} {as : List α} (hsub : as.Subperm h.owed) (i : Fin n) :
    (as.erase (h.listener i)).Subperm (h.disconnect i).owed := by
  rw [owed_disconnect]
  by_cases hi : i ∈ h.due
  · have hperm : h.owed.Perm (h.listener i :: (h.due.filter (· != i)).map h.listener) := by
      have hnodup : h.due.Nodup := h.pairwise_due.imp ne_of_lt
      rw [← List.map_cons, ← hnodup.erase_eq_filter]
      exact (List.perm_cons_erase hi).map _
    have herase := (hsub.trans hperm.subperm).erase (h.listener i)
    rwa [List.erase_cons_head] at herase
  · have hrest : h.due.filter (· != i) = h.due := List.filter_eq_self.mpr fun j hj => by
      simpa using fun hji : j = i => hi (hji ▸ hj)
    rw [hrest]
    exact List.erase_sublist.subperm.trans hsub

theorem listeners_subperm (h : History α n) : h.signal.listeners.Subperm h.owed := by
  induction h with
  | new => exact List.nil_subperm
  | connect h a ih =>
    cases hdisposed : h.disposed with
    | true => rw [listeners_of_disposed (h := h.connect a) hdisposed]; exact List.nil_subperm
    | false =>
      rw [listeners_connect hdisposed, owed_connect hdisposed]
      exact (List.subperm_append_right [a]).mpr ih
  | disconnect h i ih => exact erase_subperm_owed ih i
  | dispose h ih => exact List.nil_subperm

end

/-! ## Orderly histories -/

theorem Throughout.last {P : ∀ m, History α m → Prop} {h : History α n} (hall : h.Throughout P) :
    P n h := by
  cases h with
  | new => exact hall
  | connect | disconnect | dispose => exact hall.2

theorem Throughout.congr {P Q : ∀ m, History α m → Prop} (h : History α n)
    (hPQ : ∀ m g, P m g ↔ Q m g) :
    h.Throughout P ↔ h.Throughout Q := by
  have heq : P = Q := funext fun m => funext fun g => propext (hPQ m g)
  rw [heq]

theorem timely_of_nodup {h : History α n} (hnodup : h.connected.Nodup) (i : Fin n) :
    h.Timely i := by
  have hinj : ∀ j, h.listener j = h.listener i → j = i := fun j hj =>
    List.inj_on_of_nodup_map hnodup (List.mem_finRange j) (List.mem_finRange i) hj
  rw [Timely]
  split
  · intro j _ k _ hjk hki hj
    exact absurd (hjk.trans hki) (hinj j hj ▸ lt_irrefl j)
  · next hi => exact fun j hj heq => hi (hinj j heq ▸ hj)

/-- With listeners that are connected once every moment is a good one. -/
theorem orderly_of_nodup {h : History α n} (hnodup : h.connected.Nodup) : h.Orderly := by
  induction h with
  | new => trivial
  | connect h a ih =>
    rw [connected_connect] at hnodup
    exact ih hnodup.of_append_left
  | disconnect h i ih => exact ⟨ih hnodup, timely_of_nodup (h := h) hnodup i⟩
  | dispose h ih => exact ih hnodup

section
variable [DecidableEq α]

theorem throughout_owed_iff (h : History α n) :
    (h.Throughout fun _ g => g.signal.listeners = g.owed) ↔ h.Orderly := by
  induction h with
  | new => exact iff_of_true rfl trivial
  | connect h a ih =>
    rw [Throughout, Orderly, ← ih]
    refine and_iff_left_of_imp fun hall => ?_
    cases hdisposed : h.disposed with
    | true =>
      rw [listeners_of_disposed (h := h.connect a) hdisposed, owed_of_disposed (h := h.connect a)
        hdisposed]
    | false => rw [listeners_connect hdisposed, owed_connect hdisposed, hall.last]
  | disconnect h i ih =>
    rw [Throughout, Orderly, ← ih]
    refine and_congr_right fun hall => ?_
    rw [signal, Signal.disconnect, hall.last, owed_disconnect]
    exact erase_map_eq_iff h.pairwise_due
  | dispose h ih =>
    rw [Throughout, Orderly, ← ih]
    exact and_iff_left rfl

/-- Listeners are called in the order of their connections, none more often than it is owed, and
none when the signal is disposed.  They are those that are owed, after every act of a history, if
and only if all handles were called at good moments; this is so if no listener is connected
twice. -/
theorem emits_owed_iff_orderly (h : History α n) :
    (∃ as, h.signal.Emits as ∧ as.Sublist h.connected ∧ as.Subperm h.owed ∧
      (h.disposed = true → as = [])) ∧
      ((h.Throughout fun _ g => g.signal.Emits g.owed) ↔ h.Orderly) ∧
      (h.connected.Nodup → h.Orderly) := by
  refine ⟨⟨_, emits_iff.mpr rfl, h.listeners_sublist, h.listeners_subperm, listeners_of_disposed⟩,
    ?_, orderly_of_nodup⟩
  rw [← throughout_owed_iff]
  exact Throughout.congr h fun _ _ => emits_iff

end

/-- A listener is connected before and behind another one, and the later connection is taken
back. -/
def aroundAnother : History Nat 3 := (((new.connect 0).connect 1).connect 0).disconnect 2

/-- A listener is connected twice, and the handle of the later connection is called twice. -/
def calledTwice : History Nat 2 := (((new.connect 0).connect 0).disconnect 1).disconnect 1

/-- The earlier connection is taken away instead of the later one, and a second call of a handle
takes away another connection: what is called is not what is owed. -/
theorem handle_takes_another :
    (aroundAnother.owed = [0, 1] ∧ aroundAnother.signal.Emits [1, 0] ∧
      ¬ aroundAnother.signal.Emits aroundAnother.owed) ∧
      calledTwice.owed = [0] ∧ calledTwice.signal.Emits [] ∧
      ¬ calledTwice.signal.Emits calledTwice.owed := by
  simp only [emits_iff]
  decide

end History
end Signal
end StepAtlas
