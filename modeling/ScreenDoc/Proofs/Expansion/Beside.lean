import ScreenDoc.Proofs.Expansion.Gap
import ScreenDoc.Proofs.Expansion.Local
import ScreenDoc.Proofs.Expansion.Sketch

/-!
# What stands beside a leaf

A document is expanded with one leaf, and then with another one in its place. Either both runs fail
in the same way, or they differ only where the leaf is expanded.

## Main definitions

- `Stage.Follows` — computations for all leaves that fail in one way or follow one plan
- `Surroundings` — what all trees of a document with a gap have in common
- `Surroundings.IsFilled` — a tree that consists of its surroundings and a leaf

## Main results

- `Stage.Follows.expand` — the expansion of a part of the layout follows a sketch
- `Surroundings.IsFilled.unchanged` — what does not come from the leaf is the same with each leaf
- `Rulebook.build_fill` — all trees of a document with a gap have their surroundings in common

## Design notes

All leaves are considered at once. The sketch of an expansion is found before a leaf is chosen, so
it cannot depend on the leaf, and a part of the layout without the gap is its own sketch.
-/

namespace ScreenDoc

/-! ### Leaves without failure -/

theorem Expanding.value_ofNoting {α : Type} (answers : Path → Option Value) (x : Noting α) :
    Reading.value answers (Expanding.ofNoting x) =
      (.ok ⟨((x.outcome answers).result, (x.outcome answers).dependencies),
        (x.outcome answers).diagnostics⟩ : Except Problem (Diagnosed (α × List Dependency))) :=
  (Expanding.runs_ofNoting.2 ⟨rfl, rfl⟩).1

/-- What the rules make of a leaf, if they never fail. One that is invalid is an unknown view. -/
theorem Context.value_leafKind {leaves : LeafRules} (hleaves : leaves.NeverFails) (ctx : Context)
    (answers : Path → Option Value) (leaf : Leaf) :
    Reading.value answers (ctx.leafKind leaves leaf) =
      (.ok ⟨(ctx.shownLeaf leaves answers leaf,
          ((leaves.kindOf ctx leaf).outcome answers).dependencies),
        ((leaves.kindOf ctx leaf).outcome answers).complaints⟩ :
        Except Problem (Diagnosed (ViewKind × List Dependency))) := by
  rw [leafKind, Expanding.value_bind, Expanding.value_ofNoting, shownLeaf, Noting.result,
    Noted.complaints]
  cases houtcome : ((leaves.kindOf ctx leaf).outcome answers).result with
  | ok kind => rfl
  | error problem =>
    have hfatal := hleaves.isFatal_kindOf houtcome
    simp only [hfatal, Bool.false_eq_true, if_false]
    rfl

/-! ### Plans -/

/-- A way to get a result from a plan and a leaf, and the spots of a plan. -/
structure Pattern (σ α : Type) where
  fill : Leaf → σ → α
  spots : σ → List Spot

namespace Pattern

variable {σ α : Type}

/-- A result that does not depend on the leaf is its own plan. -/
def fixed : Pattern α α := ⟨fun _ a => a, fun _ => []⟩

/-- A pattern with some spots in front. -/
def after (earlier : List Spot) (pattern : Pattern σ α) : Pattern σ α :=
  { pattern with spots := fun plan => earlier ++ pattern.spots plan }

/-- Views are planned by a sketch. -/
def rendered (stage : Stage) : Pattern Sketch Rendered :=
  ⟨Sketch.fill stage, Sketch.spots⟩

/-- Views side by side are planned by sketches. -/
def allRendered (stage : Stage) : Pattern (List Sketch) (List Rendered) :=
  ⟨Sketch.fillAll stage, Sketch.spotsOfAll⟩

/-- The whole expansion is planned by the screen and a sketch of the views. -/
def expansion (stage : Stage) : Pattern (Screen × Sketch) Expansion :=
  ⟨fun leaf plan => ⟨plan.1, plan.2.fill stage leaf⟩, fun plan => plan.2.spots⟩

end Pattern

namespace Stage

variable {stage : Stage} {σ τ α β : Type} {P : Pattern σ α} {Q : Pattern τ β}
  {earlier : List Spot}

/-- Whether the computations for all leaves fail with one error, or all follow one plan. Besides its
result a plan has notes, with one note for each spot that is not among the earlier ones. -/
def Follows (stage : Stage) (pattern : Pattern σ α) (earlier : List Spot)
    (x : Leaf → Expanding α) : Prop :=
  (∃ error : Problem, ∀ leaf, Reading.value stage.answers (x leaf) = .error error) ∨
    ∃ (plan : σ) (notes : List Note), earlier ++ notes.filterMap Note.spot? = pattern.spots plan ∧
      ∀ leaf, Reading.value stage.answers (x leaf) =
        .ok ⟨pattern.fill leaf plan, notes.flatMap (Note.problems stage leaf)⟩

namespace Follows

/-- A result that a plan gives for each leaf. -/
theorem done {a : Leaf → α} (plan : σ) (hspots : earlier = P.spots plan)
    (hfill : ∀ leaf, a leaf = P.fill leaf plan) :
    stage.Follows P earlier fun leaf => pure (a leaf) := by
  have hvalue : ∀ leaf, (Reading.value stage.answers (pure (a leaf) : Expanding α)) =
      (.ok ⟨P.fill leaf plan, []⟩ : Except Problem (Diagnosed α)) := by
    intro leaf
    rw [← hfill]
    rfl
  exact .inr ⟨plan, [], (List.append_nil _).trans hspots, hvalue⟩

/-- A computation that does not know the leaf. -/
theorem fixed (x : Expanding α) : stage.Follows .fixed [] fun _ => x := by
  cases hvalue : (Reading.value stage.answers x : Except Problem (Diagnosed α)) with
  | error error => exact .inl ⟨error, fun _ => hvalue⟩
  | ok outcome =>
    refine .inr ⟨outcome.result, outcome.diagnostics.map .kept, ?_, fun leaf => ?_⟩
    · exact Note.filterMap_spot?_kept outcome.diagnostics
    · rw [hvalue, Note.flatMap_problems_kept]
      rfl

theorem fail (error : Problem) : stage.Follows P earlier fun _ => Expanding.fail error :=
  .inl ⟨error, fun _ => rfl⟩

/-- One computation after another. The notes of both are kept in order, so the spots of the first
plan are earlier than what the second one notes. -/
theorem bind {x : Leaf → Expanding α} {f : Leaf → α → Expanding β}
    (hx : stage.Follows P earlier x)
    (hf : ∀ plan, stage.Follows Q (P.spots plan) fun leaf => f leaf (P.fill leaf plan)) :
    stage.Follows Q earlier fun leaf => x leaf >>= f leaf := by
  rcases hx with ⟨error, herror⟩ | ⟨plan, notes, hspots, hvalue⟩
  · exact .inl ⟨error, fun leaf => by rw [Expanding.value_bind, herror]⟩
  · rcases hf plan with ⟨error, herror⟩ | ⟨plan', notes', hspots', hvalue'⟩
    · refine .inl ⟨error, fun leaf => ?_⟩
      rw [Expanding.value_bind, hvalue]
      simp only [herror]
    · refine .inr ⟨plan', notes ++ notes', ?_, fun leaf => ?_⟩
      · rw [List.filterMap_append, ← List.append_assoc, hspots, hspots']
      · rw [Expanding.value_bind, hvalue, List.flatMap_append]
        simp only [hvalue']

/-- A computation that does not know the leaf may come first. -/
theorem known {x : Expanding α} {f : Leaf → α → Expanding β}
    (hf : ∀ a, stage.Follows Q [] fun leaf => f leaf a) :
    stage.Follows Q [] fun leaf => x >>= f leaf :=
  (fixed x).bind hf

/-- A computation behind others. -/
theorem behind {x : Leaf → Expanding α} (h : stage.Follows P [] x) (earlier : List Spot) :
    stage.Follows (P.after earlier) earlier x := by
  rcases h with herror | ⟨plan, notes, hspots, hvalue⟩
  · exact .inl herror
  · exact .inr ⟨plan, notes, congrArg (earlier ++ ·) hspots, hvalue⟩

/-- The same computations with another kind of plan. -/
theorem replan {x : Leaf → Expanding α} {P' : Pattern τ α} (h : stage.Follows P earlier x)
    (hplan : ∀ plan, ∃ plan', (∀ leaf, P'.fill leaf plan' = P.fill leaf plan) ∧
      P'.spots plan' = P.spots plan) : stage.Follows P' earlier x := by
  rcases h with herror | ⟨plan, notes, hspots, hvalue⟩
  · exact .inl herror
  · obtain ⟨plan', hfill, hspots'⟩ := hplan plan
    refine .inr ⟨plan', notes, hspots.trans hspots'.symm, fun leaf => ?_⟩
    rw [hvalue, hfill]

/-! ### Views -/

/-- A part of the layout without the gap is its own sketch. -/
theorem whole (x : Expanding Rendered) : stage.Follows (.rendered stage) [] fun _ => x :=
  (fixed x).replan fun r =>
    ⟨.ofRendered r, fun leaf => Sketch.fill_ofRendered stage leaf r, Sketch.spots_ofRendered r⟩

theorem wholes (x : Expanding (List Rendered)) :
    stage.Follows (.allRendered stage) [] fun _ => x :=
  (fixed x).replan fun rs =>
    ⟨Sketch.ofAllRendered rs, fun leaf => Sketch.fillAll_ofAllRendered stage leaf rs,
      Sketch.spotsOfAll_ofAllRendered rs⟩

theorem cons {x : Leaf → Expanding Rendered} {xs : Leaf → Expanding (List Rendered)}
    (hx : stage.Follows (.rendered stage) [] x) (hxs : stage.Follows (.allRendered stage) [] xs) :
    stage.Follows (.allRendered stage) [] fun leaf =>
      x leaf >>= fun first => xs leaf >>= fun others => pure (first :: others) := by
  refine hx.bind fun first => (hxs.behind _).bind fun others => ?_
  exact done (first :: others) (Sketch.spotsOfAll_cons first others).symm fun _ => rfl

theorem traverse {γ : Type} {f : Leaf → γ → Expanding Rendered} {as : List γ}
    (h : ∀ a ∈ as, stage.Follows (.rendered stage) [] fun leaf => f leaf a) :
    stage.Follows (.allRendered stage) [] fun leaf => Expanding.traverse (f leaf) as := by
  induction as with
  | nil => exact wholes (pure [])
  | cons a rest ih =>
    exact (h a List.mem_cons_self).cons (ih fun b hb => h b (List.mem_cons_of_mem _ hb))

/-- Parts of the layout side by side, one of them with the gap. -/
theorem around {γ : Type} {f : γ → Expanding Rendered} {fill : Leaf → γ}
    (h : stage.Follows (.rendered stage) [] fun leaf => f (fill leaf)) (before after : List γ) :
    stage.Follows (.allRendered stage) [] fun leaf =>
      Expanding.traverse f (before ++ fill leaf :: after) := by
  induction before with
  | nil => exact h.cons (wholes (Expanding.traverse f after))
  | cons a rest ih => exact (whole (f a)).cons ih

/-- A view that is known, with views below it. -/
theorem above {x : Leaf → Expanding (List Rendered)} (h : stage.Follows (.allRendered stage) [] x)
    (view : View) (dependencies : List Dependency) :
    stage.Follows (.rendered stage) [] fun leaf =>
      x leaf >>= fun children => pure (.mk view dependencies children) :=
  h.bind fun parts => done (.mk (.kept view dependencies) parts) rfl fun _ => rfl

/-- A section with its header, its items and its footer. -/
theorem sections {hs is fs : Leaf → Expanding (List Rendered)}
    (hhs : stage.Follows (.allRendered stage) [] hs)
    (his : stage.Follows (.allRendered stage) [] is)
    (hfs : stage.Follows (.allRendered stage) [] fs) (view : View) :
    stage.Follows (.rendered stage) [] fun leaf =>
      hs leaf >>= fun header => is leaf >>= fun items => fs leaf >>= fun footer =>
        pure (.mk view [] (header ++ items ++ footer)) := by
  refine hhs.bind fun header => (his.behind _).bind fun items => ?_
  refine (hfs.behind _).bind fun footer => ?_
  refine done (.mk (.kept view []) (header ++ items ++ footer)) ?_ fun leaf => ?_
  · have hparts : Sketch.spotsOfAll (header ++ items ++ footer) =
        Sketch.spotsOfAll header ++ Sketch.spotsOfAll items ++ Sketch.spotsOfAll footer := by
      rw [Sketch.spotsOfAll_append, Sketch.spotsOfAll_append]
    exact hparts.symm
  · simp only [Pattern.rendered, Sketch.fill, Sketch.fillAll_append]
    rfl

/-! ### Levels -/

section Levels

variable {levels : Nat}

/-- The leaf itself. -/
theorem component (hleaves : stage.leaves.NeverFails) (scope : Scope) (pending : List Dependency)
    (slot : Slot) :
    stage.Follows (.rendered stage) [] fun leaf =>
      Node.expand stage.leaves (levels + 1) (stage.ctx.withScope scope) pending slot
        (.component leaf) := by
  refine .inr ⟨.mk (.spot ⟨scope, pending, slot⟩) [], [.spot ⟨scope, pending, slot⟩], rfl, ?_⟩
  intro leaf
  simp only [Node.expand]
  rw [Expanding.value_bind, Context.value_leafKind hleaves, List.flatMap_singleton]
  exact congrArg (fun problems => Except.ok (Diagnosed.mk _ problems)) (List.append_nil _)

/-- The views of an iteration, with the gap in the template. -/
theorem iteration {template : Leaf → Scope → Expanding Rendered} (scope : Scope)
    (settings : ForEachSettings) (slot : Slot) (dependencies : List Dependency)
    (items : List Value) (source : Option Path)
    (h : ∀ scope, stage.Follows (.rendered stage) [] fun leaf => template leaf scope) :
    stage.Follows (.rendered stage) [] fun leaf =>
      Expanding.ofNoting ((stage.ctx.withScope scope).iterationKind settings) >>= fun p =>
        Expanding.traverse (fun (item, i) =>
          template leaf (scope.push (Context.itemFrame settings source item i))) items.zipIdx >>=
            fun children => pure (.mk ⟨p.1, settings.id, slot⟩ (dependencies ++ p.2) children) :=
  known fun _ => above (traverse fun (item, i) _ =>
    h (scope.push (Context.itemFrame settings source item i))) _ _

/-- Whether all nodes with a gap follow a sketch down to a number of levels. -/
def OfNodes (stage : Stage) (levels : Nat) : Prop :=
  ∀ scope pending slot (gap : Node.Gap), stage.Follows (.rendered stage) [] fun leaf =>
    Node.expand stage.leaves levels (stage.ctx.withScope scope) pending slot (gap.fill leaf)

/-- The same for sections. -/
def OfSections (stage : Stage) (levels : Nat) : Prop :=
  ∀ scope (gap : Section.Gap), stage.Follows (.rendered stage) [] fun leaf =>
    Section.expand stage.leaves levels (stage.ctx.withScope scope) (gap.fill leaf)

/-- Nodes and sections with a gap follow a sketch, however deep they are expanded. -/
theorem expand (hleaves : stage.leaves.NeverFails) (levels : Nat) :
    OfNodes stage levels ∧ OfSections stage levels := by
  induction levels with
  | zero =>
    refine ⟨fun scope pending slot gap => ?_, fun scope gap => ?_⟩
    · simp only [Node.expand]
      exact fail _
    · simp only [Section.expand]
      exact fail _
  | succ levels ih =>
    obtain ⟨ihNode, ihSection⟩ := ih
    refine ⟨fun scope pending slot gap => ?_, fun scope gap => ?_⟩
    · cases gap with
      | here =>
        simp only [Node.Gap.fill]
        exact component hleaves scope pending slot
      | container settings before gap after =>
        simp only [Node.Gap.fill, Node.expand]
        exact known fun _ => ((ihNode scope [] .item gap).around before after).above _ _
      | sectionLayout id spacing before gap after =>
        simp only [Node.Gap.fill, Node.expand]
        exact ((ihSection scope gap).around before after).above _ _
      | template settings gap emptyView =>
        simp only [Node.Gap.fill, Node.expand]
        refine known fun found => ?_
        obtain ⟨⟨items, source⟩, shape⟩ := found
        have hiteration := iteration scope settings slot (pending ++ shape) items source
          fun scope => ihNode scope [] .item gap
        cases items with
        | nil =>
          cases emptyView with
          | none => exact hiteration
          -- The template is not expanded, and the empty view does not have the gap.
          | some view => exact whole _
        | cons item rest => exact hiteration
      | emptyView settings template gap =>
        simp only [Node.Gap.fill, Node.expand]
        refine known fun found => ?_
        obtain ⟨⟨items, source⟩, shape⟩ := found
        cases items with
        | nil => exact ihNode scope (pending ++ shape) slot gap
        | cons item rest => exact whole _
    · cases gap with
      | header id settings gap footer stickyHeader children =>
        simp only [Section.Gap.fill, Section.expand]
        exact sections ((ihNode scope [] .header gap).around [] []) (wholes _) (wholes _) _
      | item id settings header footer stickyHeader before gap after =>
        simp only [Section.Gap.fill, Section.expand]
        exact sections (wholes _) ((ihNode scope [] .item gap).around before after) (wholes _) _
      | footer id settings header gap stickyHeader children =>
        simp only [Section.Gap.fill, Section.expand]
        exact sections (wholes _) (wholes _) ((ihNode scope [] .footer gap).around [] []) _

end Levels

/-- A document with a gap. The leaf has no say in the properties of the screen. -/
theorem document (hleaves : stage.leaves.NeverFails) (gap : Document.Gap) :
    stage.Follows (.expansion stage) [] fun leaf =>
      (gap.fill leaf).expand stage.leaves (stage.ctx.withRoot (gap.fill leaf).root) := by
  let node := Node.expand stage.leaves stage.ctx.limits.layout stage.ctx [] .item
  have hexpand : ∀ leaf,
      (gap.fill leaf).expand stage.leaves (stage.ctx.withRoot (gap.fill leaf).root) =
        Expanding.ofNoting (stage.ctx.screen gap.document.root) >>= fun p =>
          Expanding.traverse node (gap.before ++ gap.gap.fill leaf :: gap.after) >>=
            fun children => pure ⟨p.1, .mk (.plainContainer p.1.style) p.2 children⟩ := by
    intro leaf
    have hnode : Node.expand stage.leaves stage.ctx.limits.layout
        (stage.ctx.withRoot (gap.fill leaf).root) [] .item = node :=
      funext (Node.expand_withRoot _ _ _ _ _ _)
    rw [Document.expand, Context.screen_withRoot]
    simp only [← hnode]
    rfl
  simp only [hexpand]
  have hgap := (expand hleaves stage.ctx.limits.layout).1 stage.ctx.scope [] .item gap.gap
  refine known fun p => (hgap.around gap.before gap.after).bind fun parts => ?_
  exact done (p.1, .mk (.kept (.plainContainer p.1.style) p.2) parts) rfl fun _ => rfl

end Follows

end Stage

/-! ### Trees -/

/-- What all trees of a document with a gap have in common. -/
structure Surroundings where
  screen : Screen
  actions : List (String × ReadyAction)
  /-- What is fixed about the views, in the order of their numbers. -/
  cells : List Cell
  /-- The problems, with a note in the place of those of the leaf. -/
  notes : List Note
  /-- Each instance of the leaf has one view and one note, in the same order. -/
  spots : notes.filterMap Note.spot? = cells.filterMap fun cell => cell.mark.spot?

/-- Whether a tree and the dependencies of its views consist of the surroundings, with a leaf in the
gap. -/
structure Surroundings.IsFilled (s : Surroundings) (stage : Stage) (leaf : Leaf) (tree : ViewTree)
    (index : DependencyIndex) : Prop where
  screen : tree.screen = s.screen
  actions : tree.actions = s.actions
  /-- The views are numbered in the order in which they are walked. -/
  walk : tree.walk = List.range s.cells.length
  entries : tree.arena.entries.toList = s.cells.map (Cell.entry stage leaf)
  dependenciesOf : ∀ id : ViewId, index.dependenciesOf id =
    Dependency.recorded ((s.cells[id]?.map fun cell => cell.mark.dependencies stage leaf).getD [])
  diagnostics : tree.diagnostics = s.notes.flatMap (Note.problems stage leaf)

namespace Surroundings

/-- The surroundings in the trees of a plan, with the problems of the actions in front. -/
def ofPlan (actions : List (String × ReadyAction)) (failed : List Problem)
    (plan : Screen × Sketch) (notes : List Note)
    (hspots : notes.filterMap Note.spot? = plan.2.spots) : Surroundings where
  screen := plan.1
  actions := actions
  cells := plan.2.cells none Arena.root
  notes := failed.map .kept ++ notes
  spots := by
    have hcells : (plan.2.cells none Arena.root).filterMap (fun cell => cell.mark.spot?) =
        plan.2.spots := by
      rw [Sketch.spots, ← Sketch.marks_cells none Arena.root, List.filterMap_map]
      rfl
    rw [List.filterMap_append, Note.filterMap_spot?_kept, hcells]
    exact hspots

/-- The tree of an expansion that follows a plan. -/
theorem isFilled_ofPlan (actions : List (String × ReadyAction)) (failed : List Problem)
    {plan : Screen × Sketch} {notes : List Note}
    (hspots : notes.filterMap Note.spot? = plan.2.spots) (stage : Stage) (leaf : Leaf)
    (state : Store) :
    let diagnostics := failed ++ notes.flatMap (Note.problems stage leaf)
    let built := Rulebook.treeOf ((Pattern.expansion stage).fill leaf plan) actions diagnostics
    (ofPlan actions failed plan notes hspots).IsFilled stage leaf { built.1 with state }
      built.2 := by
  refine ⟨rfl, rfl, ?_, ?_, ?_, ?_⟩
  · exact plan.2.walk_ofRendered stage leaf
  · exact plan.2.entries_ofRendered stage leaf
  · exact plan.2.dependenciesOf_ofRendered stage leaf
  · have hnotes : (failed.map Note.kept ++ notes).flatMap (Note.problems stage leaf) =
        failed ++ notes.flatMap (Note.problems stage leaf) := by
      rw [List.flatMap_append, Note.flatMap_problems_kept]
    exact hnotes.symm

variable {s : Surroundings} {stage : Stage} {leaf leaf' : Leaf} {tree tree' : ViewTree}
  {index index' : DependencyIndex}

/-- What does not come from the leaf is the same in the trees of two leaves. -/
theorem IsFilled.unchanged (h : s.IsFilled stage leaf tree index)
    (h' : s.IsFilled stage leaf' tree' index') {id : ViewId} {cell : Cell}
    (hcell : s.cells[id]? = some cell) (hkept : cell.mark.spot? = none) :
    tree.arena.entries[id]? = tree'.arena.entries[id]? ∧
      index.dependenciesOf id = index'.dependenciesOf id := by
  obtain ⟨mark, parent, children⟩ := cell
  cases mark with
  | spot spot => cases hkept
  | kept view dependencies =>
    refine ⟨?_, ?_⟩
    · rw [← Array.getElem?_toList, ← Array.getElem?_toList, h.entries, h'.entries,
        List.getElem?_map, List.getElem?_map, hcell]
      rfl
    · rw [h.dependenciesOf, h'.dependenciesOf, hcell]
      rfl

end Surroundings

namespace Rulebook

/-- What the leaf in the gap of a document is expanded with. -/
def stage (rulebook : Rulebook) (document : Document) (state : Store) (track : Bool) : Stage :=
  ⟨rulebook.leaves, state.get?,
    Context.ofDocument document rulebook.limits track rulebook.actions⟩

/-- The leaf in a gap decides on the views of its own instances alone, and on the problems that are
noted there. With all leaves, known or unknown, valid or not, the expansion of the document fails
with the same error, or all trees have the same surroundings: the numbers of the views, their links,
and all views that do not come from the leaf, with their dependencies and problems. -/
theorem build_fill (rulebook : Rulebook) (gap : Document.Gap) (state : Store) (track : Bool) :
    let builtin := { rulebook with leaves := .builtin }
    (∃ error, ∀ leaf, builtin.build (gap.fill leaf) state track = .error error) ∨
      ∃ s : Surroundings, ∀ leaf, ∃ tree index,
        builtin.build (gap.fill leaf) state track = .ok (tree, index) ∧
          s.IsFilled (builtin.stage gap.document state track) leaf tree index := by
  intro builtin
  let stage := builtin.stage gap.document state track
  have hbuild : ∀ leaf, builtin.build (gap.fill leaf) state track =
      (Reading.value state.get? ((gap.fill leaf).expand stage.leaves
        (stage.ctx.withRoot (gap.fill leaf).root)) :
          Except Problem (Diagnosed Expansion)).map (builtin.treeOver (gap.fill leaf) state) :=
    fun leaf => build_eq track
  have hfollows : stage.Follows (.expansion stage) [] _ :=
    .document LeafRules.neverFails_builtin gap
  rcases hfollows with ⟨error, herror⟩ | ⟨plan, notes, hspots, hvalue⟩
  · refine .inl ⟨error, fun leaf => ?_⟩
    rw [hbuild]
    exact congrArg (Except.map _) (herror leaf)
  · let ready := builtin.actions.readyAll gap.document.actions builtin.limits.actions
    let failed := ready.2.map fun failure => Problem.action failure.1 failure.2
    refine .inr ⟨.ofPlan ready.1 failed plan notes hspots, fun leaf => ?_⟩
    have hexpand := (hbuild leaf).trans (congrArg (Except.map _) (hvalue leaf))
    exact ⟨_, _, hexpand, Surroundings.isFilled_ofPlan ready.1 failed hspots stage leaf state⟩

/-- A leaf is expanded for two photos, below a text. An image without a source and a type that
nobody knows take the same places as a text. -/
example :
    let caption : Node :=
      .component { Leaf.ofType "text" with text := some "$\x7bphotos.count\x7d" }
    let photos : ForEachSettings :=
      ⟨none, "photos", "photo", "index", .vertical, none, none, none⟩
    let album : Document := ⟨"album", none, [], [], [], [],
      ⟨none, none, none, none, none, ⟨none, none⟩, []⟩⟩
    let gap : Document.Gap := ⟨album, [caption], .template photos .here none, []⟩
    let state := Store.ofValues [("photos", .array [.string "a", .string "b"])]
    ["text", "image", "chart"].map (fun type =>
      (standard.build (gap.fill (.ofType type)) state true).toOption.map fun built =>
        (built.1.walk.map built.1.arena.parent?, built.1.diagnostics.length)) =
      [some ([none, some 0, some 0, some 2, some 2], 0),
        some ([none, some 0, some 0, some 2, some 2], 2),
        some ([none, some 0, some 0, some 2, some 2], 0)] := by
  decide +kernel

end Rulebook

end ScreenDoc
