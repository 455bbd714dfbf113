import StepAtlas.Proofs.Log
import StepAtlas.Proofs.Script.Registering

/-
One literal among others.  What a call registers is its own affair: with another argument, be it a
literal or not, the other calls of the script register what they did before, in the same order.
Only their places may have moved.

But the calls share one fate.  One literal that cannot be decoded is enough for the whole script to
have no definitions, and so is the line about a damaged script, if the path in it reads like a
closing tag.
-/

namespace StepAtlas

def Definition.unplaced (d : Definition) : Definition := { d with span := ⟨0, 0, 0, 0⟩ }

theorem eq_filterMap_of_filterMapM {α β : Type} {f : α → Except Fault (Option β)} {xs : List α}
    {ys : List β} (h : xs.filterMapM f = .ok ys) :
    ys = xs.filterMap fun x => (f x).toOption.join := by
  obtain ⟨vs, hvs, rfl⟩ := filterMapM_eq_ok_iff.mp h
  induction hvs with
  | nil => rfl
  | @cons x v xs vs hv hvs ih =>
    have hrest := ih (filterMapM_eq_ok_iff.mpr ⟨vs, hvs, rfl⟩)
    rw [List.filterMap_cons, hv, ← hrest]
    cases v <;> rfl

theorem filterMapM_map {α β : Type} {f : α → Except Fault (Option β)} {g : α → α} {h : β → β}
    (hf : ∀ x, f (g x) = Option.map h <$> f x) (xs : List α) :
    (xs.map g).filterMapM f = List.map h <$> xs.filterMapM f := by
  induction xs with
  | nil => rfl
  | cons x xs ih =>
    rw [List.map_cons, List.filterMapM_cons, List.filterMapM_cons, hf, ih]
    cases f x with
    | error e => rfl
    | ok v =>
      cases v with
      | none => rfl
      | some y => cases xs.filterMapM f <;> rfl

namespace Script
namespace Tree

variable {functions : Registry} {source : Path}

/-! ## What decides about a node -/

/-- A tree without its places and cut off at its calls. -/
def crop : Tree → Tree
  | .node l _ ps => .node l ⟨0, 0, 0, 0⟩ (if l.kind = .call then [] else ps.map crop)

theorem label_crop (t : Tree) : t.crop.label = t.label := by
  cases t
  rw [crop, label, label]

theorem kind_crop (t : Tree) : t.crop.kind = t.kind := congrArg Label.kind t.label_crop

theorem text_crop (t : Tree) : t.crop.text = t.text := congrArg Label.text t.label_crop

theorem parts_crop {t : Tree} (h : t.kind ≠ .call) : t.crop.parts = t.parts.map crop := by
  cases t
  rw [crop, parts, parts]
  exact if_neg h

theorem child?_of_parts {t u : Tree} (h : t.parts = u.parts.map crop) (role : Role) :
    t.child? role = (u.child? role).map crop := by
  rw [child?, h, List.find?_map, child?]
  simp only [Function.comp_def, label_crop]

theorem calleeName?_crop (t : Tree) : t.crop.calleeName? = t.calleeName? := by
  rw [calleeName?, calleeName?, kind_crop, text_crop]
  split
  · rfl
  · next h =>
    rw [child?_of_parts (parts_crop (by rw [h]; decide))]
    cases t.child? .property with
    | none => rfl
    | some p => simp [Option.filter_some, kind_crop, apply_ite (Option.map text), text_crop]
  · rfl

theorem firstArgument?_crop (t : Tree) : t.crop.firstArgument? = t.firstArgument?.map crop := by
  rw [firstArgument?, firstArgument?, kind_crop]
  split
  · next h =>
    rw [parts_crop (by rw [h]; decide), List.find?_map]
    simp only [Function.comp_def, kind_crop]
  · rfl

theorem raw?_crop (t : Tree) : t.crop.raw? = t.raw? := by
  rw [raw?, raw?, unquoted, text_crop, kind_crop]
  split
  · rfl
  · next h =>
    rw [parts_crop (by rw [h]; decide), List.any_map]
    simp only [Function.comp_def, kind_crop]
    rfl
  · rfl

theorem pattern?_crop (t : Tree) : t.crop.pattern? = t.pattern? := by
  rw [pattern?, pattern?, raw?_crop, kind_crop]
  split
  · rfl
  · next h =>
    have hparts := parts_crop (t := t) (by rw [h]; decide)
    simp only [child?_of_parts hparts, Option.map_map, Function.comp_def, text_crop]
  · rfl

/-- What decides about a node: its label and its parts, cropped. -/
def outline (t : Tree) : Tree := .node t.label ⟨0, 0, 0, 0⟩ (t.parts.map crop)

theorem registration?_outline (t : Tree) :
    t.outline.registration? functions =
      (t.registration? functions).map fun r => (r.1, r.2.1, r.2.2.crop) := by
  have hchild : ∀ role, t.outline.child? role = (t.child? role).map crop := child?_of_parts rfl
  rw [registration?, registration?, show t.outline.kind = t.kind from rfl]
  split
  · have hname : (t.outline.child? .function).bind calleeName? =
        (t.child? .function).bind calleeName? := by
      simp only [hchild, Option.bind_map, Function.comp_def, calleeName?_crop]
    have hargument : (t.outline.child? .arguments).bind firstArgument? =
        ((t.child? .arguments).bind firstArgument?).map crop := by
      simp only [hchild, Option.bind_map, Function.comp_def, firstArgument?_crop, Option.map_bind]
    rw [hname, hargument]
    cases (t.child? .function).bind calleeName? with
    | none => rfl
    | some f =>
      cases h : functions.lookup f with
      | none => simp [h]
      | some k => cases (t.child? .arguments).bind firstArgument? <;> simp [h]
  · rfl

theorem definition?_eq (t : Tree) : t.definition? functions source =
    Option.map (fun d => { d with span := t.span }) <$> t.outline.definition? functions source := by
  rw [definition?, definition?, registration?_outline]
  cases t.registration? functions with
  | none => rfl
  | some r =>
    obtain ⟨f, k, a⟩ := r
    dsimp only [Option.map]
    rw [pattern?_crop]
    cases a.pattern? with
    | error fault => rfl
    | ok pattern => cases pattern <;> rfl

theorem definition?_congr {t u : Tree} (houtline : t.outline = u.outline)
    (hspan : t.span = u.span) :
    t.definition? functions source = u.definition? functions source := by
  rw [definition?_eq, definition?_eq u, houtline, hspan]

/-! ## Places -/

def unplaced : Tree → Tree
  | .node l _ ps => .node l ⟨0, 0, 0, 0⟩ (ps.map unplaced)

theorem parts_unplaced (t : Tree) : t.unplaced.parts = t.parts.map unplaced := by
  cases t
  rw [unplaced, parts, parts]

theorem crop_unplaced (t : Tree) : t.unplaced.crop = t.crop := by
  induction t using inductionOn with
  | node l s ps ih =>
    rw [unplaced, crop, crop, List.map_map]
    exact congrArg (fun ps => Tree.node l ⟨0, 0, 0, 0⟩ (if l.kind = .call then [] else ps))
      (List.map_congr_left ih)

theorem outline_unplaced (t : Tree) : t.unplaced.outline = t.outline := by
  cases t
  simp [unplaced, outline, label, parts, crop_unplaced]

theorem definition?_unplaced (t : Tree) : t.unplaced.definition? functions source =
    Option.map Definition.unplaced <$> t.definition? functions source := by
  have hspan : t.unplaced.span = ⟨0, 0, 0, 0⟩ := by
    cases t
    rw [unplaced, span]
  rw [definition?_eq, definition?_eq t, outline_unplaced, hspan]
  cases t.outline.definition? functions source with
  | error fault => rfl
  | ok v => cases v <;> rfl

theorem preorder_unplaced (t : Tree) : t.unplaced.preorder = t.preorder.map unplaced := by
  induction t using inductionOn with
  | node l s ps ih =>
    rw [preorder_eq, parts_unplaced, preorder_eq, List.map_cons, List.flatMap_map, List.map_flatMap]
    exact congrArg _ (List.flatMap_congr ih)

theorem definitions_unplaced (functions : Registry) (source : Path) (t : Tree) :
    t.unplaced.definitions functions source = List.map Definition.unplaced <$>
      t.definitions functions source := by
  rw [definitions, definitions, walk_eq, walk_eq, preorder_unplaced]
  exact filterMapM_map definition?_unplaced t.preorder

/-! ## Trees with a hole -/

/-- A tree with a hole in which another tree can be put. -/
inductive Context where
  | hole
  | node (label : Label) (span : Span) (left : List Tree) (inner : Context) (right : List Tree)

namespace Context

def fill : Context → Tree → Tree
  | hole, t => t
  | node l s left inner right, t => .node l s (left ++ inner.fill t :: right)

/-- The nodes that a walk meets before it comes to the hole, in which `t` has been put. -/
def before : Context → Tree → List Tree
  | hole, _ => []
  | node l s left inner right, t =>
    (node l s left inner right).fill t :: (left.flatMap preorder ++ inner.before t)

def behind : Context → List Tree
  | hole => []
  | node _ _ _ inner right => inner.behind ++ right.flatMap preorder

theorem preorder_fill (K : Context) (t : Tree) :
    (K.fill t).preorder = K.before t ++ t.preorder ++ K.behind := by
  induction K with
  | hole => rw [fill, before, behind, List.nil_append, List.append_nil]
  | node l s left inner right ih =>
    rw [preorder_eq, before, behind, fill, parts, List.flatMap_append, List.flatMap_cons, ih]
    simp only [List.cons_append, List.append_assoc]

theorem crop_fill {t u : Tree} (h : t.crop = u.crop) (K : Context) :
    (K.fill t).crop = (K.fill u).crop := by
  induction K with
  | hole => exact h
  | node l s left inner right ih => simp only [fill, crop, List.map_append, List.map_cons, ih]

/-- Before the hole a walk meets the same, whatever has been put there, if it is the same
cropped. -/
theorem map_before {t u : Tree} (h : t.crop = u.crop) (K : Context) :
    (K.before t).map (definition? functions source) =
      (K.before u).map (definition? functions source) := by
  induction K with
  | hole => rfl
  | node l s left inner right ih =>
    have houtline : ((node l s left inner right).fill t).outline =
        ((node l s left inner right).fill u).outline := by
      simp only [outline, fill, parts, label, List.map_append, List.map_cons, crop_fill h]
    rw [before, before, List.map_cons, List.map_cons, List.map_append, List.map_append, ih,
      definition?_congr houtline rfl]

end Context

/-- A call somewhere in a tree, with a gap among its arguments. -/
structure Site where
  around : Context
  label : Label
  isCall : label.kind = .call
  span : Span
  /-- What stands before the arguments: the callee. -/
  left : List Tree
  argumentsLabel : Label
  areArguments : argumentsLabel.kind = .arguments
  within : Span
  /-- The arguments before the gap, with the signs and the comments. -/
  before : List Tree
  behind : List Tree
  right : List Tree

namespace Site

def arguments (site : Site) (argument : Tree) : Tree :=
  .node site.argumentsLabel site.within (site.before ++ argument :: site.behind)

def call (site : Site) (argument : Tree) : Tree :=
  .node site.label site.span (site.left ++ site.arguments argument :: site.right)

def tree (site : Site) (argument : Tree) : Tree := site.around.fill (site.call argument)

theorem preorder_call (site : Site) (argument : Tree) :
    (site.call argument).preorder =
      site.call argument :: (site.left.flatMap preorder ++
        site.arguments argument :: (site.before.flatMap preorder ++ argument.preorder ++
          site.behind.flatMap preorder) ++ site.right.flatMap preorder) := by
  rw [preorder_eq, call, parts, List.flatMap_append, List.flatMap_cons,
    preorder_eq (site.arguments argument), arguments, parts, List.flatMap_append, List.flatMap_cons]
  simp only [List.cons_append, List.append_assoc]

/-- A call that is cropped has lost its arguments. -/
theorem crop_call (site : Site) (a a' : Tree) : (site.call a).crop = (site.call a').crop := by
  rw [call, call, crop, crop, if_pos site.isCall, if_pos site.isCall]

theorem definition?_arguments (site : Site) (argument : Tree) :
    (site.arguments argument).definition? functions source = .ok none := by
  refine definition?_of_ne fun h => ?_
  cases h.symm.trans site.areArguments

theorem call_mem_preorder (site : Site) (argument : Tree) :
    site.call argument ∈ (site.tree argument).preorder := by
  rw [tree, Context.preorder_fill, preorder_call]
  simp

theorem preorder_subset (site : Site) (argument : Tree) :
    argument.preorder ⊆ (site.tree argument).preorder := by
  intro c hc
  rw [tree, Context.preorder_fill, preorder_call]
  simp [hc]

end Site

/-! ## The definitions around a call -/

def found (functions : Registry) (source : Path) (cs : List Tree) : List Definition :=
  cs.filterMap fun c => (c.definition? functions source).toOption.join

theorem definitions_eq_found {t : Tree} {ds : List Definition}
    (h : t.definitions functions source = .ok ds) :
    ds = found functions source t.preorder := by
  rw [definitions, walk_eq] at h
  exact eq_filterMap_of_filterMapM h

theorem found_append (cs cs' : List Tree) :
    found functions source (cs ++ cs') = found functions source cs ++ found functions source cs' :=
  List.filterMap_append

theorem found_cons {c : Tree} {own : Option Definition}
    (h : c.definition? functions source = .ok own) (cs : List Tree) :
    found functions source (c :: cs) = own.toList ++ found functions source cs := by
  rw [found, List.filterMap_cons, h]
  cases own <;> rfl

theorem found_before (K : Context) {t u : Tree} (h : t.crop = u.crop) :
    found functions source (K.before t) = found functions source (K.before u) := by
  have hmap : ∀ cs : List Tree, found functions source cs =
      (cs.map (definition? functions source)).filterMap fun x => x.toOption.join := fun cs => by
    rw [List.filterMap_map]
    rfl
  rw [hmap, hmap, K.map_before h]

/-- Whatever an argument of a call, the definitions before the call, between its callee and the
argument, and behind it are the same. -/
theorem Site.exists_frame (functions : Registry) (source : Path) (site : Site) :
    ∃ before between behind : List Definition, ∀ (argument : Tree) (ds : List Definition),
      (site.tree argument).definitions functions source = .ok ds →
        ∃ own inside, (site.call argument).definition? functions source = .ok own ∧
          argument.definitions functions source = .ok inside ∧
          ds = before ++ own.toList ++ between ++ inside ++ behind := by
  let empty : Tree := .node { kind := .other } site.span []
  refine ⟨found functions source (site.around.before (site.call empty)),
    found functions source (site.left.flatMap preorder ++ site.before.flatMap preorder),
    found functions source
      (site.behind.flatMap preorder ++ site.right.flatMap preorder ++ site.around.behind),
    fun argument ds h => ?_⟩
  have hlegible := exists_definitions_iff.mp ⟨ds, h⟩
  obtain ⟨own, hown⟩ := exists_definition?_iff.mpr (hlegible _ (site.call_mem_preorder argument))
  obtain ⟨inside, hinside⟩ := exists_definitions_iff.mpr fun c hc =>
    hlegible c (site.preorder_subset argument hc)
  refine ⟨own, inside, hown, hinside, ?_⟩
  rw [definitions_eq_found h, definitions_eq_found hinside, tree, Context.preorder_fill,
    preorder_call]
  simp only [found_append, found_cons hown, found_cons (site.definition?_arguments argument),
    Option.toList_none, List.nil_append, List.append_assoc,
    found_before site.around (site.crop_call argument empty)]

/-- The same where all places may have moved. -/
theorem Site.exists_unplaced_frame (functions : Registry) (source : Path) (site : Site) :
    ∃ before between behind : List Definition, ∀ (argument t : Tree) (ds : List Definition),
      t.unplaced = (site.tree argument).unplaced → t.definitions functions source = .ok ds →
        ∃ own inside, (site.call argument).definition? functions source = .ok own ∧
          argument.definitions functions source = .ok inside ∧
          ds.map Definition.unplaced = before ++ own.toList.map Definition.unplaced ++ between ++
            inside.map Definition.unplaced ++ behind := by
  obtain ⟨before, between, behind, hframe⟩ := site.exists_frame functions source
  refine ⟨before.map .unplaced, between.map .unplaced, behind.map .unplaced,
    fun argument t ds ht h => ?_⟩
  have hunplaced := definitions_unplaced functions source t
  rw [ht, definitions_unplaced, h] at hunplaced
  obtain ⟨ds', hds', heq⟩ := map_eq_ok_iff.mp hunplaced
  obtain ⟨own, inside, hown, hinside, rfl⟩ := hframe argument ds' hds'
  refine ⟨own, inside, hown, hinside, heq.symm.trans ?_⟩
  simp only [List.map_append]

end Tree

/-! ## Scripts -/

/-- The literals of a script can be decoded, and if something is to be said about the script, the
line can be shown. -/
def Extractable (functions : Registry) (source : Path) (content : Text) : Prop :=
  match content.chars? with
  | none =>
    Markup.shows (warning ++ "Failed to parse step definition file " ++ source.toText ++ ": " ++
      content.encodingComplaint?.getD []) = true
  | some chars =>
    let (tree, damaged) := parse (Dialect.ofPath source) chars
    (damaged = true →
      Markup.shows ("[dim]" ++ source.toText ++ ": syntax errors, extracting what parses[/dim]") =
        true) ∧
      tree.Legible functions

theorem exists_definitions_iff_extractable {functions : Registry} {source : Path} {content : Text} :
    (∃ ds, definitions functions source content = .ok ds) ↔
      Extractable functions source content := by
  rw [definitions, Extractable]
  cases content.chars? with
  | none =>
    dsimp only
    rw [← log_eq_ok_iff]
    constructor
    · rintro ⟨ds, h⟩
      obtain ⟨_, hlog, -⟩ := bind_eq_ok_iff.mp h
      exact hlog
    · exact fun hlog => ⟨[], bind_eq_ok_iff.mpr ⟨(), hlog, rfl⟩⟩
  | some chars =>
    dsimp only
    generalize parse (Dialect.ofPath source) chars = reading
    obtain ⟨tree, damaged⟩ := reading
    dsimp only
    have hlegible : (∃ ds, tree.definitions functions source = .ok ds) ↔ tree.Legible functions :=
      Tree.exists_definitions_iff
    rw [← log_eq_ok_iff, ← hlegible]
    cases damaged with
    | false => exact ⟨fun h => ⟨nofun, h⟩, fun h => h.2⟩
    | true =>
      constructor
      · rintro ⟨ds, h⟩
        obtain ⟨_, hlog, h⟩ := bind_eq_ok_iff.mp h
        exact ⟨fun _ => hlog, ds, h⟩
      · rintro ⟨hlog, ds, h⟩
        exact ⟨ds, bind_eq_ok_iff.mpr ⟨(), hlog rfl, h⟩⟩

def firstOfTwo : Tree.Site where
  around := .node { kind := .other } ⟨0, 0, 0, 22⟩ [] .hole [Tree.callAt 12 "When" "a"]
  label := { kind := .call }
  isCall := rfl
  span := ⟨0, 0, 0, 10⟩
  left := [.node { kind := .identifier, role := some .function, text := "Given" } ⟨0, 0, 0, 5⟩ []]
  argumentsLabel := { kind := .arguments, role := some .arguments }
  areArguments := rfl
  within := ⟨0, 5, 0, 10⟩
  before := [.node { kind := .sign } ⟨0, 5, 0, 6⟩ []]
  behind := [.node { kind := .sign } ⟨0, 9, 0, 10⟩ []]
  right := []

def literal (raw : Text) : Tree :=
  .node { kind := .string, text := "'" ++ raw ++ "'" } ⟨0, 6, 0, 9⟩ []

end Script
end StepAtlas
