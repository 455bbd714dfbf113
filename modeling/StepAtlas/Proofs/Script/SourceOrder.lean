import Mathlib.Data.Prod.Lex
import StepAtlas.Proofs.Script.Registering

/-
Definitions in the order of the script.  Chained calls start at the same place and calls stand in
the arguments of other calls, so that places alone do not tell definitions apart.  The spans of a
tree nest, and then a walk meets the registering calls in a strict order: by where they start, and
of those that start together the longest first.
-/

namespace StepAtlas

namespace Span

def start (s : Span) : ℕ ×ₗ ℕ := toLex (s.startLine, s.startColumn)

def stop (s : Span) : ℕ ×ₗ ℕ := toLex (s.endLine, s.endColumn)

/-- A stretch comes before another if it starts before it, or at the same place and ends behind
it. -/
def Precedes (s u : Span) : Prop := s.start < u.start ∨ s.start = u.start ∧ u.stop < s.stop

theorem ext_places {s u : Span} (hstart : s.start = u.start) (hstop : s.stop = u.stop) : s = u := by
  obtain ⟨_, _, _, _⟩ := s
  obtain ⟨_, _, _, _⟩ := u
  cases hstart
  cases hstop
  rfl

def Within (s u : Span) : Prop := u.start ≤ s.start ∧ s.stop ≤ u.stop

instance (s u : Span) : Decidable (s.Within u) := inferInstanceAs (Decidable (_ ∧ _))

theorem Within.refl (s : Span) : s.Within s := ⟨le_refl _, le_refl _⟩

theorem Within.trans {s u v : Span} (hsu : s.Within u) (huv : u.Within v) : s.Within v :=
  ⟨huv.1.trans hsu.1, hsu.2.trans huv.2⟩

/-- The longer of two stretches comes first if the other lies inside. -/
theorem Within.precedes {s u : Span} (h : s.Within u) (hne : s ≠ u) : u.Precedes s := by
  rcases h.1.lt_or_eq with hlt | heq
  · exact .inl hlt
  · exact .inr ⟨heq, h.2.lt_of_ne fun hstop => hne (ext_places heq.symm hstop)⟩

theorem Precedes.of_within {s u v : Span} (h : s.Precedes u) (hv : v.Within u) : s.Precedes v := by
  rcases h with hlt | ⟨heq, hlt⟩
  · exact .inl (hlt.trans_le hv.1)
  · rcases hv.1.lt_or_eq with hstart | hstart
    · exact .inl (heq ▸ hstart)
    · exact .inr ⟨heq.trans hstart, hv.2.trans_lt hlt⟩

theorem Precedes.ne {s u : Span} (h : s.Precedes u) : s ≠ u := by
  rintro rfl
  rcases h with h | ⟨-, h⟩ <;> exact lt_irrefl _ h

end Span

namespace Script
namespace Tree

/-- The parts of a node lie inside it, one behind the other, and a call is longer than each of its
parts. -/
structure Encloses (t : Tree) : Prop where
  forward : t.span.start ≤ t.span.stop
  inside : ∀ p ∈ t.parts, p.span.Within t.span
  ordered : t.parts.Pairwise fun p q => p.span.stop ≤ q.span.start
  longer : t.kind = .call → ∀ p ∈ t.parts, p.span ≠ t.span

instance (t : Tree) : Decidable t.Encloses :=
  decidable_of_iff
    (t.span.start ≤ t.span.stop ∧ (∀ p ∈ t.parts, p.span.Within t.span) ∧
      (t.parts.Pairwise fun p q => p.span.stop ≤ q.span.start) ∧
      (t.kind = .call → ∀ p ∈ t.parts, p.span ≠ t.span))
    ⟨fun ⟨hforward, hinside, hordered, hlonger⟩ => ⟨hforward, hinside, hordered, hlonger⟩,
      fun h => ⟨h.forward, h.inside, h.ordered, h.longer⟩⟩

def Nests (t : Tree) : Prop := ∀ n ∈ t.preorder, n.Encloses

instance (t : Tree) : Decidable t.Nests :=
  inferInstanceAs (Decidable (∀ n ∈ t.preorder, n.Encloses))

namespace Nests

variable {t : Tree}

theorem encloses (h : t.Nests) : t.Encloses := h t (by rw [preorder_eq]; exact List.mem_cons_self)

theorem of_mem (h : t.Nests) {p : Tree} (hp : p ∈ t.parts) : p.Nests := by
  intro n hn
  refine h n ?_
  rw [preorder_eq]
  exact List.mem_cons_of_mem _ (List.mem_flatMap.mpr ⟨p, hp, hn⟩)

theorem of_mem_preorder (h : t.Nests) {n : Tree} (hn : n ∈ t.preorder) : n.Nests := by
  induction t using inductionOn with
  | node l s ps ih =>
    rw [preorder_eq] at hn
    rcases List.mem_cons.mp hn with rfl | hn
    · exact h
    · obtain ⟨p, hp, hn⟩ := List.mem_flatMap.mp hn
      exact ih p hp (h.of_mem hp) hn

theorem within (h : t.Nests) : ∀ n ∈ t.preorder, n.span.Within t.span := by
  induction t using inductionOn with
  | node l s ps ih =>
    intro n hn
    rw [preorder_eq] at hn
    rcases List.mem_cons.mp hn with rfl | hn
    · exact .refl _
    · obtain ⟨p, hp, hn⟩ := List.mem_flatMap.mp hn
      exact (ih p hp (h.of_mem hp) n hn).trans (h.encloses.inside p hp)

/-- A call that has parts is not empty. -/
theorem start_lt_stop (h : t.Nests) (hcall : t.kind = .call) (hparts : t.parts ≠ []) :
    t.span.start < t.span.stop := by
  obtain ⟨p, hp⟩ := List.exists_mem_of_ne_nil _ hparts
  have hinside := h.encloses.inside p hp
  have hforward := (h.of_mem hp).encloses.forward
  rcases hinside.precedes (h.encloses.longer hcall p hp) with hlt | ⟨heq, hlt⟩
  · exact hlt.trans_le (hforward.trans hinside.2)
  · exact heq ▸ hforward.trans_lt hlt

/-- Along a walk each call that has parts comes before all that follows. -/
theorem pairwise_preorder (h : t.Nests) :
    t.preorder.Pairwise fun a b => a.kind = .call → a.parts ≠ [] → a.span.Precedes b.span := by
  induction t using inductionOn with
  | node l s ps ih =>
    rw [preorder_eq, List.pairwise_cons, List.pairwise_flatMap]
    refine ⟨fun b hb hcall _ => ?_, fun p hp => ih p hp (h.of_mem hp), ?_⟩
    · -- what lies inside the call
      obtain ⟨p, hp, hb⟩ := List.mem_flatMap.mp hb
      have hlonger := (h.encloses.inside p hp).precedes (h.encloses.longer hcall p hp)
      exact hlonger.of_within ((h.of_mem hp).within b hb)
    · -- what lies in different parts
      refine h.encloses.ordered.imp_of_mem fun {p q} hp hq hpq a ha b hb hcall hparts => .inl ?_
      have hpnests := h.of_mem hp
      calc a.span.start < a.span.stop := (hpnests.of_mem_preorder ha).start_lt_stop hcall hparts
        _ ≤ p.span.stop := (hpnests.within a ha).2
        _ ≤ q.span.start := hpq
        _ ≤ b.span.start := ((h.of_mem hq).within b hb).1

end Nests

/-- The definitions of a tree are in the order of their calls. -/
theorem Nests.pairwise_definitions {functions : Registry} {source : Path} {t : Tree}
    {ds : List Definition} (h : t.Nests) (hds : t.definitions functions source = .ok ds) :
    ds.Pairwise fun d e => d.span.Precedes e.span := by
  have hregisters := forall₂_registers hds
  have hcalls : (t.preorder.filter (Registering functions)).Pairwise fun a b =>
      a.span.Precedes b.span := by
    refine (h.pairwise_preorder.filter _).imp_of_mem fun {a b} ha _ hab => ?_
    obtain ⟨f, k, l, hhands, -⟩ := of_decide_eq_true (List.mem_filter.mp ha).2
    obtain ⟨hcall, hfunction, -⟩ := hhands
    exact hab hcall (List.ne_nil_of_mem (List.mem_of_find?_eq_some hfunction))
  have hspans : (t.preorder.filter (Registering functions)).map span = ds.map (·.span) := by
    rw [← List.forall₂_eq_eq_eq, List.forall₂_map_left_iff, List.forall₂_map_right_iff]
    exact hregisters.imp fun c d ⟨_, _, _, _, hspan⟩ => hspan.symm
  rw [← List.pairwise_map (f := span) (R := Span.Precedes)] at hcalls
  rw [hspans] at hcalls
  exact List.pairwise_map.mp hcalls

/-- If the spans of a tree nest and its literals can be decoded, its definitions are those of its
registering calls, one of each, and in a strict order by their places; no two of them are equal.
One literal that cannot be decoded leaves no definition at all. -/
theorem definitions_in_source_order (functions : Registry) (source : Path) {t : Tree}
    (h : t.Nests) :
    (t.Legible functions → ∃ ds, t.definitions functions source = .ok ds ∧
      List.Forall₂ (Registers functions source) (t.preorder.filter (Registering functions)) ds ∧
      (ds.Pairwise fun d e => d.span.Precedes e.span) ∧ ds.Nodup) ∧
    (¬ t.Legible functions → t.definitions functions source = .error .codePointTooLarge) := by
  refine ⟨fun hlegible => ?_, definitions_of_not_legible⟩
  obtain ⟨ds, hds⟩ := exists_definitions_iff.mpr hlegible
  have hpairwise := h.pairwise_definitions hds
  refine ⟨ds, hds, forall₂_registers hds, hpairwise, hpairwise.imp fun hprecedes heq => ?_⟩
  exact hprecedes.ne (congrArg Definition.span heq)

/-- The tree of `Given('a').When('b', Then('c'))`: two calls that start together, and one inside an
argument. -/
def chained : Tree :=
  .node { kind := .call } ⟨0, 0, 0, 31⟩
    [.node { kind := .member, role := some .function } ⟨0, 0, 0, 15⟩
      [callAt 0 "Given" "a",
        .node { kind := .property, role := some .property, text := "When" } ⟨0, 11, 0, 15⟩ []],
      .node { kind := .arguments, role := some .arguments } ⟨0, 15, 0, 31⟩
        [.node { kind := .sign } ⟨0, 15, 0, 16⟩ [],
          .node { kind := .string, text := "'b'" } ⟨0, 16, 0, 19⟩ [],
          .node { kind := .sign } ⟨0, 19, 0, 20⟩ [],
          callAt 21 "Then" "c",
          .node { kind := .sign } ⟨0, 30, 0, 31⟩ []]]

theorem definitions_in_source_order_chained :
    chained.Nests ∧ ∃ ds, chained.definitions .standard (Path.ofText "steps.js") = .ok ds ∧
      ds.map (·.pattern) = (["b", "a", "c"] : List Text) ∧
      (ds.Pairwise fun d e => d.span.Precedes e.span) ∧ ds.Nodup := by
  have hnests : chained.Nests := by decide
  have hpatterns : List.map (·.pattern) <$>
      chained.definitions .standard (Path.ofText "steps.js") = .ok ["b", "a", "c"] := by
    rw [definitions, walk_eq]
    decide +kernel
  obtain ⟨ds, hds, hpatterns⟩ := map_eq_ok_iff.mp hpatterns
  obtain ⟨ds', hds', -, hpairwise, hnodup⟩ :=
    (definitions_in_source_order .standard (Path.ofText "steps.js") hnests).1
      (exists_definitions_iff.mp ⟨ds, hds⟩)
  cases hds.symm.trans hds'
  exact ⟨hnests, ds, hds, hpatterns, hpairwise, hnodup⟩

/-- A tree that nests and has two registering calls, but no definitions. -/
theorem nested_definitions_lost :
    (twoWith "\\u\x7b80000000\x7d").Nests ∧
      ((twoWith "\\u\x7b80000000\x7d").preorder.filter (Registering .standard)).length = 2 ∧
      (twoWith "\\u\x7b80000000\x7d").definitions .standard (Path.ofText "steps.js") =
        .error .codePointTooLarge := by
  refine ⟨by decide, by decide +kernel, ?_⟩
  rw [definitions, walk_eq]
  decide +kernel

end Tree
end Script
end StepAtlas
