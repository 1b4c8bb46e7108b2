import ScreenDoc.Proofs.Expansion.Control

/-!
# What is recorded for values

When a view is made, the paths that are read for its values are recorded for it. For a template
these are the paths that its evaluation asks for. A binding is followed from its place later on, and
the place is recorded. What it reads beyond its place, if nothing lies there, is another matter: the
path that the document wrote is not the name of the place.

## Main definitions

- `Bound.asks` — the paths that the evaluation of a value reads
- `Bound.IsAnchored` — the place of a value is covered, or all that it reads is
- `Comparison.anchored` — the comparison of a run with itself that looks at what is noted
- `ViewTree.isTemplated` — all views show templates alone

## Main results

- `Rulebook.anchored_of_build` — what is recorded for the values of a view when it is made
-/

namespace ScreenDoc

/-! ### What values read -/

namespace Bound

/-- The paths that the evaluation of a value reads over a state, in order. -/
def asks (store : Store) (bound : Bound) : List Path :=
  (bound.evaluation store).paths store.get?

/-- Whether a value follows a template. -/
def isTemplate : Bound → Bool
  | .template .. => true
  | _ => false

theorem asks_eq_of_face_eq {a b : Bound} (h : a.face = b.face) (store : Store) :
    a.asks store = b.asks store :=
  paths_evaluation_eq_of_face_eq h store store.get?

variable {scope : Scope} {store : Store}

theorem asks_binding (store : Store) (path : String) (shown : Value) :
    (binding path shown).asks store = (followPath .empty path).paths store.get? := by
  simp only [asks, evaluation, rescoped, reading, Reading.paths_bind, Reading.paths,
    List.append_nil]

/-- Within a scope that mirrors the state, a template reads what its text asks for. -/
theorem asks_template (h : scope.Mirrors store) (source shown : String) :
    (template source shown scope).asks store =
      (Expr.fill scope source.toList).paths store.get? := by
  rw [asks, evaluation, rescoped, Scope.refreshed_of_mirrors h, reading, Reading.paths_bind]
  exact List.append_nil _

/-- Within a scope that mirrors the state, a template is evaluated to its text. -/
theorem shownOver_template (h : scope.Mirrors store) (source shown : String) :
    (template source shown scope).shownOver store =
      .string (String.ofList ((Expr.fill scope source.toList).value store.get?)) := by
  rw [shownOver, evaluation, rescoped, Scope.refreshed_of_mirrors h, reading, Reading.value_bind]
  rfl

/-- A value that follows the place of a path reads it, and nothing else if there is a value. -/
theorem asks_of_path? {bound : Bound} {name : String} (hname : bound.path? = some name)
    {place : Path} (hplace : Path.ofText? name = some place) (store : Store) :
    place ∈ bound.asks store ∧ ((store.get? place).isSome → bound.asks store = [place]) := by
  cases bound with
  | binding path shown =>
    obtain rfl := Option.some.inj hname
    have hread := Scope.read_of_lookup_eq_none hplace (Scope.lookup_empty place)
    rw [asks_binding, followPath, hread]
    refine ⟨List.mem_cons_self, fun hsome => ?_⟩
    obtain ⟨value, hvalue⟩ := Option.isSome_iff_exists.1 hsome
    simp only [Reading.paths_bind, Reading.paths, Reading.value, hvalue, List.append_nil]
  | _ => cases hname

/-- Whether the place of a value is covered, or all that it reads over the state that it was made
over. -/
def IsAnchored (store : Store) (covered : Path → Prop) (bound : Bound) : Prop :=
  (∃ place : Path, place.Written ∧ bound.path? = some place.text ∧ covered place) ∨
    ∀ path ∈ bound.asks store, covered path

theorem IsAnchored.imp {covered covered' : Path → Prop} {bound : Bound}
    (h : bound.IsAnchored store covered) (himp : ∀ path, covered path → covered' path) :
    bound.IsAnchored store covered' := by
  rcases h with ⟨place, hwritten, hpath, hcovered⟩ | hasks
  · exact .inl ⟨place, hwritten, hpath, himp place hcovered⟩
  · exact .inr fun path hpath => himp path (hasks path hpath)

theorem isAnchored_literal (store : Store) (covered : Path → Prop) (value : Value) :
    (literal value).IsAnchored store covered :=
  .inr fun _ hpath => absurd hpath List.not_mem_nil

end Bound

/-! ### Views of templates -/

/-- Whether a view shows templates alone. -/
def ViewKind.isTemplated (kind : ViewKind) : Bool :=
  kind.properties.isEmpty && kind.overlooked.isEmpty && kind.bounds.all Bound.isTemplate

/-- Whether all views of a tree show templates alone. -/
def ViewTree.isTemplated (tree : ViewTree) : Bool :=
  tree.arena.entries.toList.all fun entry => entry.view.kind.isTemplated

theorem ViewKind.isTemplated_iff {kind : ViewKind} :
    kind.isTemplated = true ↔ kind.properties = [] ∧ kind.overlooked = [] ∧
      ∀ bound ∈ kind.bounds, bound.isTemplate = true := by
  rw [isTemplated, Bool.and_eq_true, Bool.and_eq_true, List.isEmpty_iff, List.isEmpty_iff,
    List.all_eq_true, and_assoc]

theorem ViewTree.isTemplated_get? {tree : ViewTree} (h : tree.isTemplated = true) {id : ViewId}
    {view : View} (hview : tree.arena.get? id = some view) : view.kind.isTemplated = true := by
  obtain ⟨entry, hentry, rfl⟩ := Option.map_eq_some_iff.1 hview
  exact List.all_eq_true.1 h entry (Array.mem_toList_iff.2 (Array.mem_of_getElem? hentry))

/-! ### Values that are made -/

/-- Whether a read of a path is among the dependencies, and leads into the state. -/
def Path.IsNoted (noted : List Dependency) (path : Path) : Prop :=
  path.firstKey?.isSome ∧ ⟨path, .value⟩ ∈ noted

theorem Path.IsNoted.append {noted : List Dependency} {path : Path} (h : path.IsNoted noted)
    (more : List Dependency) : path.IsNoted (noted ++ more) :=
  ⟨h.1, List.mem_append_left more h.2⟩

namespace Context

variable {ctx : Context} {scope : Scope} {state : Store}

/-- A template notes all that it reads. -/
theorem anchored_boundTemplate (hscope : scope.Placed state) (htracks : ctx.tracks = true)
    (raw : String) :
    ((ctx.withScope scope).boundTemplate raw).Ensures state.get? fun bound noted =>
      bound.IsAnchored state (Path.IsNoted noted) := by
  rw [boundTemplate]
  split
  · have htracks' : (ctx.withScope scope).tracks = true := htracks
    refine (ensures_observe htracks' _ _).bind_of_mono ?_
    rintro text noted more ⟨-, hnoted⟩
    refine .inr fun path hpath => Path.IsNoted.append ?_ more
    rw [Reading.paths_bind, Reading.paths, List.append_nil] at hnoted
    have hasked : path ∈ (Expr.fill scope raw.toList).paths state.get? := by
      rwa [← Bound.asks_template hscope.mirrors raw text]
    refine ⟨?_, hnoted path hasked⟩
    rw [Expr.fill_eq_within] at hasked
    exact hscope.mirrors.rooted_of_mem_paths
      (Expr.through_fill Scope.read_through_askRooted raw.toList) hasked
  · exact Bound.isAnchored_literal _ _ _

/-- A path notes the place that it leads to. Outside of iterations, a text that is no path notes all
that it reads. -/
theorem anchored_boundPath (hscope : scope.Placed state) (htracks : ctx.tracks = true)
    (raw : String) :
    ((ctx.withScope scope).boundPath raw).Ensures state.get? fun bound noted =>
      bound.IsAnchored state (Path.IsNoted noted) := by
  have htracks' : (ctx.withScope scope).tracks = true := htracks
  have hcases := (ctx.withScope scope).boundPath_cases raw
  simp only at hcases
  generalize String.ofList (Text.trim raw.toList) = text at hcases
  rcases hcases with heq | ⟨hlive, ⟨target, htarget, heq⟩ | ⟨-, heq⟩⟩
  · rw [heq]
    exact anchored_boundTemplate hscope htracks _
  · rw [heq]
    refine (ensures_observe htracks' _ _).bind_of_mono ?_
    rintro value noted more ⟨hvalue, hnoted⟩
    refine Bound.IsAnchored.imp ?_ fun path hpath => Path.IsNoted.append hpath more
    have hbinds := binds_of_bindingTarget? hscope htarget hnoted
    rw [← show value = (followPath scope text).value state.get? from hvalue] at hbinds
    cases hbinds with
    | place hwritten hrecorded _ => exact .inl ⟨_, hwritten, rfl, hwritten.rooted, hrecorded⟩
    | loose hloose =>
      obtain ⟨hnone, rfl⟩ := hloose
      -- Within an iteration, such a text would have become a template.
      obtain rfl : scope = .empty := Scope.eq_empty_of_depth_eq_zero
        (by_contra fun hdepth => (hlive hdepth).2 hnone)
      refine .inr fun path hpath => ?_
      have hasked : path ∈ (followPath .empty target).paths state.get? := by
        rwa [← Bound.asks_binding state target value]
      refine ⟨?_, hnoted path hasked⟩
      rw [followPath_eq_within] at hasked
      exact (Scope.mirrors_empty state).rooted_of_mem_paths
        (followPath_through Scope.read_through_askRooted target) hasked
  · rw [heq]
    refine (Noting.Ensures.trivial _).bind_of_mono fun value noted more _ => ?_
    exact Bound.isAnchored_literal _ _ _

end Context

namespace Comparison

/-- The comparison of a run with itself that tells whether values are anchored in the dependencies
that it counts on. -/
def anchored (state : Store) (noted : List Dependency) : Comparison where
  before := state.get?
  after := state.get?
  steady dependency := dependency ∈ noted
  bound b b' := b.path? = b'.path? ∧ b.IsAnchored state (Path.IsNoted noted)
  property _ _ := True

variable {ctx : Context} {scope : Scope} {state : Store} {noted : List Dependency}

/-- A computation that notes all that it asks for is related to itself by what it ensures. -/
theorem Relates.self {α : Type} {c : Comparison} {R : α → α → Prop} {x : Noting α}
    (hafter : c.after = c.before) (hnotes : x.NotesAll c.before)
    (hx : x.Ensures c.before fun a noted => (∀ d ∈ noted, c.steady d) → R a a) :
    c.Relates R x x := by
  intro hsteady
  rw [hafter]
  exact ⟨hnotes, rfl, hx hsteady⟩

theorem anchored_basic (hscope : scope.Placed state) (htracks : ctx.tracks = true)
    (noted : List Dependency) : (anchored state noted).Basic (ctx.withScope scope) scope := by
  have hcourse : (course state state).Basic (ctx.withScope scope) scope :=
    course_basic (.refl hscope.mirrors) htracks
  have hanchored {x : Noting Bound} (hnotes : x.NotesAll state.get?)
      (hx : x.Ensures state.get? fun bound noted =>
        bound.IsAnchored state (Path.IsNoted noted)) :
      (anchored state noted).Relates (anchored state noted).bound x x := by
    refine .self rfl hnotes fun hsteady => ⟨rfl, hx.imp fun path hpath => ?_⟩
    exact ⟨hpath.1, hsteady _ hpath.2⟩
  refine ⟨fun value => ⟨rfl, Bound.isAnchored_literal _ _ value⟩, fun _ => trivial, And.left,
    fun raw => ?_, fun raw => ?_, fun raw => ?_⟩
  · exact hanchored (hcourse.template raw fun _ _ _ => rfl).1
      (Context.anchored_boundTemplate hscope htracks raw)
  · exact hanchored (hcourse.path raw fun _ _ _ => rfl).1
      (Context.anchored_boundPath hscope htracks raw)
  · exact .self rfl (hcourse.fill raw fun _ _ _ => rfl).1 fun _ => trivial

end Comparison

namespace Rulebook

variable {rulebook : Rulebook} {document : Document} {state : Store}

/-- That the values of a view are anchored in its dependencies is a law of views. -/
theorem viewLaw_anchored (rulebook : Rulebook) (document : Document) (state : Store) :
    ViewLaw rulebook.leaves (rulebook.context document) state.get? (document.Expands state)
      fun view noted => ∀ bound ∈ view.kind.held, bound.IsAnchored state (Path.IsNoted noted) where
  plain view noted hheld bound hbound := by
    rw [hheld] at hbound
    exact absurd hbound List.not_mem_nil
  leaf scope leaf hexpands kind := by
    intro noted hkind id slot pending bound hbound
    have hbasic : (Comparison.anchored state noted.dependencies).Basic
        ((rulebook.context document).withScope scope) scope :=
      Comparison.anchored_basic hexpands.placed rfl _
    obtain ⟨-, -, hsame⟩ := hbasic.kindOf rulebook.leaves leaf fun d hd => hd
    have hkinds : SameOutcome (Comparison.anchored state noted.dependencies).Similar (.ok kind)
        (.ok kind) := by
      rw [← hkind]
      exact hsame
    cases hkinds with
    | ok hsimilar =>
      have hheld := List.forall₂_same.1 (List.rel_append hsimilar.bounds hsimilar.overlooked)
      refine (hheld bound hbound).2.imp fun path hpath => ?_
      exact ⟨hpath.1, List.mem_append_right _ hpath.2⟩

/-- When a view is made, the place of a value is recorded for it, or all that the value reads. -/
theorem anchored_of_build {tree : ViewTree} {index : DependencyIndex}
    (hbuild : rulebook.build document state true = .ok (tree, index)) {id : ViewId} {view : View}
    (hview : tree.arena.get? id = some view) {bound : Bound} (hbound : bound ∈ view.kind.held) :
    bound.IsAnchored state fun path => ⟨id, ⟨path, .value⟩⟩ ∈ index.entries := by
  obtain ⟨noted, hanchored, hrecorded⟩ :=
    (viewLaw_anchored rulebook document state).of_build hbuild hview
  exact (hanchored bound hbound).imp fun path hpath => hrecorded _ hpath.2 hpath.1

end Rulebook

end ScreenDoc
