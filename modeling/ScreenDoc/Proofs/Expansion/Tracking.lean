import ScreenDoc.Proofs.Expansion.Beside
import ScreenDoc.Proofs.Expansion.Silent

/-!
# Tracking does not change the tree

A document is expanded with its dependencies noted, and once more without. Both runs fail with the
same error or make the same tree: the dependencies that are noted on the way are passed on, but
nothing is made of them.

## Main definitions

- `Expanding.OnPar` — two computations with the same failure, or with related results and the same
  problems

## Main results

- `Context.onPar_leafKind` — the view of a leaf, with and without its dependencies noted
- `Context.onPar_expand` — the views of nodes and sections
- `Document.onPar_expand` — the screen and the views of a document
- `Rulebook.fst_build_untracked` — the tree of a document over a state
- `Rulebook.render_eq_fst_renderTracked` — the tree of a document over its own state

## Design notes

The outline of an expansion is all of it but its dependencies, and the numbers and links of the
views follow from the outline. So the outlines of two runs are compared. What is pending when a node
is expanded may differ from one run to the other.
-/

namespace ScreenDoc

/-! ### Computations on a par -/

namespace Expanding

variable {α β γ δ : Type} {answers : Path → Option Value} {R : α → β → Prop} {S : γ → δ → Prop}

/-- Whether two computations fail in the same way, or succeed with related results and the same
problems. -/
def OnPar (answers : Path → Option Value) (R : α → β → Prop) (x : Expanding α)
    (y : Expanding β) : Prop :=
  (∃ error : Problem, Reading.value answers x = .error error ∧
      Reading.value answers y = .error error) ∨
    ∃ a b, R a b ∧ ∃ problems, Reading.value answers x = .ok ⟨a, problems⟩ ∧
      Reading.value answers y = .ok ⟨b, problems⟩

namespace OnPar

theorem done {a : α} {b : β} (h : R a b) : OnPar answers R (pure a) (pure b) :=
  .inr ⟨a, b, h, [], rfl, rfl⟩

theorem fail (error : Problem) : OnPar answers R (Expanding.fail error) (Expanding.fail error) :=
  .inl ⟨error, rfl, rfl⟩

theorem diagnose (error : Problem) :
    OnPar answers (fun _ _ => True) (Expanding.diagnose error) (Expanding.diagnose error) :=
  .inr ⟨(), (), trivial, [error], rfl, rfl⟩

theorem bind {x : Expanding α} {y : Expanding β} {f : α → Expanding γ} {g : β → Expanding δ}
    (hx : OnPar answers R x y) (hf : ∀ a b, R a b → OnPar answers S (f a) (g b)) :
    OnPar answers S (x >>= f) (y >>= g) := by
  rcases hx with ⟨error, hx, hy⟩ | ⟨a, b, hab, problems, hx, hy⟩
  · refine .inl ⟨error, ?_, ?_⟩
    · rw [value_bind, hx]
    · rw [value_bind, hy]
  · rcases hf a b hab with ⟨error, hfa, hgb⟩ | ⟨c, d, hcd, others, hfa, hgb⟩
    · refine .inl ⟨error, ?_, ?_⟩
      · simp only [value_bind, hx, hfa]
      · simp only [value_bind, hy, hgb]
    · refine .inr ⟨c, d, hcd, problems ++ others, ?_, ?_⟩
      · simp only [value_bind, hx, hfa]
      · simp only [value_bind, hy, hgb]

/-- A computation gives the same, and has the same problems, if its dependencies are left out. -/
theorem ofNoting {x y : Noting α} (h : x.silent = y) :
    OnPar answers (fun p q => p.1 = q.1) (Expanding.ofNoting x) (Expanding.ofNoting y) := by
  have hsilent : y.outcome answers = { x.outcome answers with dependencies := [] } :=
    h ▸ Reading.value_bind answers x _
  refine .inr ⟨((x.outcome answers).result, (x.outcome answers).dependencies),
    ((x.outcome answers).result, []), rfl, _, value_ofNoting answers x, ?_⟩
  rw [value_ofNoting, hsilent]

theorem traverse {f : α → Expanding γ} {g : α → Expanding δ} (as : List α)
    (h : ∀ a ∈ as, OnPar answers S (f a) (g a)) :
    OnPar answers (List.Forall₂ S) (Expanding.traverse f as) (Expanding.traverse g as) := by
  induction as with
  | nil => exact done .nil
  | cons a rest ih =>
    have hrest := ih fun b hb => h b (List.mem_cons_of_mem a hb)
    exact bind (h a List.mem_cons_self) fun c d hcd =>
      bind hrest fun cs ds hcds => done (.cons hcd hcds)

end OnPar

end Expanding

open Expanding (OnPar)

namespace Rendered

/-- Whether two expansions differ in their dependencies alone. -/
def SameOutline (r r' : Rendered) : Prop :=
  r.outline = r'.outline

theorem SameOutline.mk {rs rs' : List Rendered} (h : List.Forall₂ SameOutline rs rs') (view : View)
    (dependencies dependencies' : List Dependency) :
    SameOutline (.mk view dependencies rs) (.mk view dependencies' rs') := by
  have houtlines : outlines rs = outlines rs' := by
    rw [outlines_eq_map, outlines_eq_map]
    induction h with
    | nil => rfl
    | cons hfirst _ ih => rw [List.map_cons, List.map_cons, ih, show outline _ = _ from hfirst]
  rw [SameOutline, outline, outline, houtlines]

end Rendered

open Rendered (SameOutline)

/-! ### Nodes and sections -/

namespace Context

variable (answers : Path → Option Value) (leaves : LeafRules)

/-- A leaf becomes the same view whether its dependencies are noted or not. -/
theorem onPar_leafKind (ctx : Context) (leaf : Leaf) :
    OnPar answers (fun p q => p.1 = q.1) (ctx.leafKind leaves leaf)
      (ctx.untracked.leafKind leaves leaf) := by
  refine (OnPar.ofNoting (leaves.silent_kindOf ctx leaf)).bind ?_
  rintro ⟨outcome, dependencies⟩ ⟨_, dependencies'⟩ rfl
  cases outcome with
  | ok kind => exact .done rfl
  | error problem =>
    simp only
    split
    · exact .fail problem
    · exact (OnPar.diagnose problem).bind fun _ _ _ => .done rfl

/-- Whether the nodes that are expanded down to a number of levels have the same outlines with and
without their dependencies noted. -/
def NodesOnPar (levels : Nat) : Prop :=
  ∀ ctx pending pending' slot node, OnPar answers SameOutline
    (Node.expand leaves levels ctx pending slot node)
    (Node.expand leaves levels (untracked ctx) pending' slot node)

/-- The same for sections. -/
def SectionsOnPar (levels : Nat) : Prop :=
  ∀ ctx s, OnPar answers SameOutline (Section.expand leaves levels ctx s)
    (Section.expand leaves levels (untracked ctx) s)

variable {answers leaves} {levels : Nat} {ctx : Context} {pending pending' : List Dependency}
  {slot : Slot}

theorem onPar_view {x y : Expanding (List Rendered)} (view : View)
    (dependencies dependencies' : List Dependency)
    (h : OnPar answers (List.Forall₂ SameOutline) x y) :
    OnPar answers SameOutline (x >>= fun children => pure (.mk view dependencies children))
      (y >>= fun children => pure (.mk view dependencies' children)) :=
  h.bind fun _ _ hchildren => .done (.mk hchildren view dependencies dependencies')

theorem onPar_traverse (ih : NodesOnPar answers leaves levels) (ctx : Context) (slot : Slot)
    (nodes : List Node) :
    OnPar answers (List.Forall₂ SameOutline)
      (Expanding.traverse (Node.expand leaves levels ctx [] slot) nodes)
      (Expanding.traverse (Node.expand leaves levels ctx.untracked [] slot) nodes) :=
  OnPar.traverse nodes fun node _ => ih ctx [] [] slot node

theorem onPar_forEach (ih : NodesOnPar answers leaves levels) (settings : ForEachSettings)
    (template : Node) (emptyView : Option Node) :
    OnPar answers SameOutline
      (Node.expand leaves (levels + 1) ctx pending slot (.forEach settings template emptyView))
      (Node.expand leaves (levels + 1) ctx.untracked pending' slot
        (.forEach settings template emptyView)) := by
  rw [Node.expand, Node.expand]
  refine (OnPar.ofNoting (ctx.silent_itemsAt settings.items)).bind ?_
  rintro ⟨⟨items, source⟩, shape⟩ ⟨_, shape'⟩ rfl
  simp only
  -- Both runs find the same items, so both take the empty view, or neither does.
  split
  · exact ih ctx _ _ slot _
  · refine (OnPar.ofNoting (ctx.silent_iterationKind settings)).bind ?_
    rintro ⟨kind, dependencies⟩ ⟨_, dependencies'⟩ rfl
    refine onPar_view _ _ _ (OnPar.traverse _ fun item _ => ?_)
    exact ih (ctx.push (itemFrame settings source item.1 item.2)) [] [] .item template

theorem onPar_section (ih : NodesOnPar answers leaves levels) (s : Section) :
    OnPar answers SameOutline (Section.expand leaves (levels + 1) ctx s)
      (Section.expand leaves (levels + 1) ctx.untracked s) := by
  obtain ⟨id, settings, header, footer, stickyHeader, children⟩ := s
  rw [Section.expand, Section.expand]
  refine (onPar_traverse ih ctx .header header.toList).bind fun _ _ hheader => ?_
  refine (onPar_traverse ih ctx .item children).bind fun _ _ hitems => ?_
  refine (onPar_traverse ih ctx .footer footer.toList).bind fun _ _ hfooter => ?_
  exact .done (.mk (List.rel_append (List.rel_append hheader hitems) hfooter) _ _ _)

/-- Nodes and sections have the same outlines with and without their dependencies noted, however
deep they are expanded. -/
theorem onPar_expand (answers : Path → Option Value) (leaves : LeafRules) (levels : Nat) :
    NodesOnPar answers leaves levels ∧ SectionsOnPar answers leaves levels := by
  induction levels with
  | zero =>
    refine ⟨fun ctx pending pending' slot node => ?_, fun ctx s => ?_⟩
    · rw [Node.expand, Node.expand]
      exact .fail _
    · rw [Section.expand, Section.expand]
      exact .fail _
  | succ levels ih =>
    obtain ⟨ihNode, ihSection⟩ := ih
    refine ⟨fun ctx pending pending' slot node => ?_, fun ctx s => onPar_section ihNode s⟩
    cases node with
    | container settings children =>
      rw [Node.expand, Node.expand]
      refine (OnPar.ofNoting (ctx.silent_containerKind settings)).bind ?_
      rintro ⟨kind, dependencies⟩ ⟨_, dependencies'⟩ rfl
      exact onPar_view _ _ _ (onPar_traverse ihNode ctx .item children)
    | sectionLayout id spacing sections =>
      rw [Node.expand, Node.expand]
      exact onPar_view _ _ _ (OnPar.traverse sections fun s _ => ihSection ctx s)
    | forEach settings template emptyView => exact onPar_forEach ihNode settings template emptyView
    | spacer space =>
      rw [Node.expand, Node.expand]
      exact .done (.mk .nil _ _ _)
    | component leaf =>
      rw [Node.expand, Node.expand]
      refine (onPar_leafKind answers leaves ctx leaf).bind ?_
      rintro ⟨kind, dependencies⟩ ⟨_, dependencies'⟩ rfl
      exact .done (.mk .nil _ _ _)

end Context

/-! ### Documents -/

/-- A document has the same screen and the same views with and without its dependencies noted. -/
theorem Document.onPar_expand (document : Document) (answers : Path → Option Value)
    (leaves : LeafRules) (ctx : Context) :
    OnPar answers (fun e e' => e.screen = e'.screen ∧ SameOutline e.root e'.root)
      (document.expand leaves ctx) (document.expand leaves ctx.untracked) := by
  refine (OnPar.ofNoting (ctx.silent_screen document.root)).bind ?_
  rintro ⟨screen, dependencies⟩ ⟨_, dependencies'⟩ rfl
  have hlevels := (Context.onPar_expand answers leaves ctx.limits.layout).1
  refine (Context.onPar_traverse hlevels ctx .item document.root.children).bind ?_
  exact fun _ _ hchildren => .done ⟨rfl, .mk hchildren _ _ _⟩

/-- Views with the same outline get the same numbers and links. -/
theorem Rendered.SameOutline.arena_eq {r r' : Rendered} (h : SameOutline r r') :
    (Linked.ofRendered r).arena = (Linked.ofRendered r').arena := by
  have hentries : (Linked.ofRendered r).arena.entries.toList =
      (Linked.ofRendered r').arena.entries.toList := by
    rw [Linked.entries_ofRendered, Linked.entries_ofRendered, show r.outline = _ from h]
  cases hr : (Linked.ofRendered r).arena
  cases hr' : (Linked.ofRendered r').arena
  rw [hr, hr'] at hentries
  exact congrArg Arena.mk (Array.toList_inj.1 hentries)

namespace Rulebook

variable (rulebook : Rulebook) (document : Document) (state : Store)

/-- The tree of an expansion does not show its dependencies. -/
theorem fst_treeOver {e e' : Expansion} (hscreen : e.screen = e'.screen)
    (hroot : SameOutline e.root e'.root) (problems : List Problem) :
    (rulebook.treeOver document state ⟨e, problems⟩).1 =
      (rulebook.treeOver document state ⟨e', problems⟩).1 := by
  have harena := hroot.arena_eq
  simp only [Linked.ofRendered] at harena
  simp only [treeOver, treeOf, hscreen, harena]

/-- The tree of a document over a state, or the error in its place, is the same with and without the
dependencies noted. -/
theorem fst_build_untracked (track : Bool) :
    (rulebook.build document state false).map Prod.fst =
      (rulebook.build document state track).map Prod.fst := by
  have hpar := document.onPar_expand state.get? rulebook.leaves
    (Context.ofDocument document rulebook.limits track rulebook.actions)
  have huntracked : (Context.ofDocument document rulebook.limits track rulebook.actions).untracked =
      Context.ofDocument document rulebook.limits false rulebook.actions := rfl
  rw [build_eq, build_eq]
  rw [huntracked] at hpar
  rcases hpar with ⟨error, htracked, hplain⟩ | ⟨e, e', ⟨hscreen, hroot⟩, problems, htracked, hplain⟩
  · rw [htracked, hplain]
  · rw [htracked, hplain]
    exact congrArg Except.ok (rulebook.fst_treeOver document state hscreen hroot problems).symm

/-- The tree of a document is the one that is made along with its dependencies, or fails with the
same error, whatever the rules and limits are, and whether the dependencies are noted or not. -/
theorem render_eq_fst_renderTracked (tracks : Bool) :
    { rulebook with tracks }.render document =
      (rulebook.renderTracked document).map Prod.fst := by
  have hrender : { rulebook with tracks }.render document =
      (rulebook.build document (.ofValues document.state) tracks).map Prod.fst := by
    have hbuild : { rulebook with tracks }.build = rulebook.build := rfl
    rw [render, hbuild]
    cases rulebook.build document (.ofValues document.state) tracks <;> rfl
  rw [hrender, renderTracked, ← fst_build_untracked, ← fst_build_untracked _ _ _ true]

end Rulebook

end ScreenDoc
