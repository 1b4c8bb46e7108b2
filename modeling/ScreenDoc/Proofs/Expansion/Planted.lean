import ScreenDoc.Proofs.Expansion.Twin
import ScreenDoc.Proofs.View.Index
import ScreenDoc.Proofs.View.Links

/-!
# Numbered views and their dependencies

An expansion is numbered and linked view by view. Every dependency that leads into the state ends up
in the index, under the number of its view, and two expansions with related views in the same places
become trees with related views under the same numbers.

## Main definitions

- `Linked.Alike` — linked views that are related under the same numbers
- `Rulebook.context` — the context in which a document is expanded

## Main results

- `Linked.mem_index_plant` — all dependencies of an expansion are in the index
- `Linked.Alike.plant` — related expansions are numbered alike
- `Rulebook.build_eq_ok_iff` — a tree is a numbered expansion
- `Rulebook.build_alike` — the trees of a document over two states
- `Rulebook.build_alike_self` — the tree of a document compared with itself
-/

namespace ScreenDoc

/-! ### Results -/

section Results

variable {ε α β : Type} {x : Except ε α}

theorem exists_of_map_eq_ok {f : α → β} {b : β} (h : x.map f = .ok b) :
    ∃ a, x = .ok a ∧ f a = b := by
  cases x with
  | error error => cases h
  | ok a => exact ⟨a, rfl, Except.ok.inj h⟩

/-- A property of a result that can be tested. -/
theorem exists_of_any_toOption {test : α → Bool} (h : x.toOption.any test = true) :
    ∃ a, x = .ok a ∧ test a = true := by
  cases x with
  | error error => cases h
  | ok a => exact ⟨a, rfl, h⟩

end Results

/-! ### Numbering -/

namespace Linked

/-- Whether two arenas of linked views have the same links, and the views of the same numbers are
related. The dependencies of the first view that lead into the state are in its index. -/
structure Alike (Q : View → List Dependency → View → Prop) (linked linked' : Linked) : Prop where
  links : linked.arena.SameLinks linked'.arena
  view : ∀ id view view', linked.arena.get? id = some view → linked'.arena.get? id = some view' →
    ∃ dependencies, Q view dependencies view' ∧
      ∀ d ∈ dependencies, d.path.firstKey?.isSome → ⟨id, d⟩ ∈ linked.index.entries

variable {Q : View → List Dependency → View → Prop}

theorem Alike.ofRoot {view view' : View} {dependencies dependencies' : List Dependency}
    (h : Q view dependencies view') :
    Alike Q (Linked.ofRoot view dependencies) (Linked.ofRoot view' dependencies') := by
  refine ⟨.ofRoot view view', ?_⟩
  intro id v v' hv hv'
  cases id with
  | zero =>
    obtain rfl : view = v := Option.some.inj hv
    obtain rfl : view' = v' := Option.some.inj hv'
    refine ⟨dependencies, h, fun d hd hrooted => ?_⟩
    exact DependencyIndex.mem_entries_insertAll.2 (.inr ⟨rfl, hd, hrooted⟩)
  | succ id => cases hv

theorem Alike.insertUnder {linked linked' : Linked} (h : Alike Q linked linked') (parent : ViewId)
    {view view' : View} {dependencies dependencies' : List Dependency}
    (hview : Q view dependencies view') :
    Alike Q (linked.insertUnder parent view dependencies).1
      (linked'.insertUnder parent view' dependencies').1 := by
  refine ⟨h.links.insertUnder parent view view', ?_⟩
  intro id v v' hv hv'
  have hindex : (linked.insertUnder parent view dependencies).1.index =
      linked.index.insertAll linked.arena.size dependencies := rfl
  rw [hindex]
  rw [show (linked.insertUnder parent view dependencies).1.arena.get? id = _ from
    linked.arena.get?_insertUnder parent view id] at hv
  rw [show (linked'.insertUnder parent view' dependencies').1.arena.get? id = _ from
    linked'.arena.get?_insertUnder parent view' id, ← h.links.size] at hv'
  by_cases hid : id = linked.arena.size
  · rw [if_pos hid, Option.some.injEq] at hv hv'
    subst hv hv' hid
    refine ⟨dependencies, hview, fun d hd hrooted => ?_⟩
    exact DependencyIndex.mem_entries_insertAll.2 (.inr ⟨rfl, hd, hrooted⟩)
  · rw [if_neg hid] at hv hv'
    obtain ⟨old, hold, hrecorded⟩ := h.view id v v' hv hv'
    refine ⟨old, hold, fun d hd hrooted => ?_⟩
    exact DependencyIndex.mem_entries_insertAll.2 (.inl (hrecorded d hd hrooted))

mutual

/-- Related expansions are numbered alike. -/
theorem Alike.plant : {r r' : Rendered} → Rendered.Alike Q r r' → {linked linked' : Linked} →
    Alike Q linked linked' → (parent : ViewId) →
      Alike Q (linked.plant parent r) (linked'.plant parent r')
  | .mk view dependencies children, .mk view' dependencies' children', .mk hview hchildren,
      linked, linked', h, parent => by
    -- Both views get the next number.
    have hid : (linked'.insertUnder parent view' dependencies').2 =
        (linked.insertUnder parent view dependencies).2 := h.links.size.symm
    rw [Linked.plant, Linked.plant]
    simp only
    rw [hid]
    exact Alike.plantAll hchildren (h.insertUnder parent hview) _

theorem Alike.plantAll : {rs rs' : List Rendered} → List.Forall₂ (Rendered.Alike Q) rs rs' →
    {linked linked' : Linked} → Alike Q linked linked' → (parent : ViewId) →
      Alike Q (linked.plantAll parent rs) (linked'.plantAll parent rs')
  | [], _, .nil, _, _, h, _ => h
  | _ :: _, _, .cons hfirst hrest, _, _, h, parent =>
    Alike.plantAll hrest (Alike.plant hfirst h parent) parent

end

mutual

theorem index_subset_plant : (linked : Linked) → (parent : ViewId) → (r : Rendered) →
    linked.index.entries ⊆ (linked.plant parent r).index.entries
  | linked, parent, .mk view dependencies children => by
    intro entry hentry
    rw [plant]
    refine index_subset_plantAll _ _ children ?_
    exact DependencyIndex.mem_entries_insertAll.2 (.inl hentry)

theorem index_subset_plantAll : (linked : Linked) → (parent : ViewId) → (rs : List Rendered) →
    linked.index.entries ⊆ (linked.plantAll parent rs).index.entries
  | _, _, [] => List.Subset.refl _
  | linked, parent, first :: rest =>
    List.Subset.trans (index_subset_plant linked parent first) (index_subset_plantAll _ parent rest)

end

mutual

/-- All dependencies of an expansion that lead into the state are in the index. -/
theorem mem_index_plant : (linked : Linked) → (parent : ViewId) → (r : Rendered) →
    (d : Dependency) → d ∈ r.records → d.path.firstKey?.isSome →
      ∃ id, ⟨id, d⟩ ∈ (linked.plant parent r).index.entries
  | linked, parent, .mk view dependencies children, d, hd, hrooted => by
    rw [Rendered.records] at hd
    rw [plant]
    rcases List.mem_append.1 hd with hd | hd
    · -- The view gets the next number, and nothing is taken out of the index after that.
      refine ⟨linked.arena.size, index_subset_plantAll _ _ children ?_⟩
      exact DependencyIndex.mem_entries_insertAll.2 (.inr ⟨rfl, hd, hrooted⟩)
    · exact mem_index_plantAll _ _ children d hd hrooted

theorem mem_index_plantAll : (linked : Linked) → (parent : ViewId) → (rs : List Rendered) →
    (d : Dependency) → d ∈ Rendered.recordsOfAll rs → d.path.firstKey?.isSome →
      ∃ id, ⟨id, d⟩ ∈ (linked.plantAll parent rs).index.entries
  | linked, parent, [], d, hd, _ => absurd hd List.not_mem_nil
  | linked, parent, first :: rest, d, hd, hrooted => by
    rw [Rendered.recordsOfAll] at hd
    rw [plantAll]
    rcases List.mem_append.1 hd with hd | hd
    · obtain ⟨id, hid⟩ := mem_index_plant linked parent first d hd hrooted
      exact ⟨id, index_subset_plantAll _ _ rest hid⟩
    · exact mem_index_plantAll _ _ rest d hd hrooted

end

/-- The views of an expansion, numbered and linked. -/
def ofRendered (r : Rendered) : Linked :=
  (Linked.ofRoot r.view r.dependencies).plantAll Arena.root r.children

theorem Alike.ofRendered {r r' : Rendered} (h : Rendered.Alike Q r r') :
    Alike Q (Linked.ofRendered r) (Linked.ofRendered r') := by
  cases h with
  | mk hview hchildren => exact Alike.plantAll hchildren (Alike.ofRoot hview) Arena.root

theorem mem_index_ofRendered {r : Rendered} {d : Dependency} (hd : d ∈ r.records)
    (hrooted : d.path.firstKey?.isSome) :
    ∃ id, ⟨id, d⟩ ∈ (ofRendered r).index.entries := by
  obtain ⟨view, dependencies, children⟩ := r
  rw [Rendered.records] at hd
  rcases List.mem_append.1 hd with hd | hd
  · refine ⟨Arena.root, index_subset_plantAll _ _ children ?_⟩
    exact DependencyIndex.mem_entries_insertAll.2 (.inr ⟨rfl, hd, hrooted⟩)
  · exact mem_index_plantAll _ _ children d hd hrooted

end Linked

/-! ### Documents -/

namespace Comparison

variable {before after : Store} {ctx : Context} {P : String → Prop} {e : Comparison}

/-- The expansion of a document over two states. -/
theorem Setting.document_alike (h : Setting before after ctx P e) (document : Document)
    (leaves : LeafRules)
    (hiterates : ∀ node ∈ document.root.children, node.Iterates P ctx.limits.layout) :
    (course before after).Leads (fun expansion => expansion.root.records)
      (fun expansion expansion' => expansion.screen = expansion'.screen ∧
        Rendered.Alike (Views before after e) expansion.root expansion'.root)
      (document.expand leaves (ctx.withScope .empty))
      (document.expand leaves (ctx.withScope .empty)) := by
  have twins := Scope.Twins.empty before after
  have hscreen : (course before after).Relates Eq ((ctx.withScope .empty).screen document.root)
      ((ctx.withScope .empty).screen document.root) := Basic.screen document.root
  have hnodes : (course before after).Leads (List.flatMap Rendered.records)
      (List.Forall₂ (Rendered.Alike (Views before after e)))
      (Expanding.traverse (Node.expand leaves ctx.limits.layout (ctx.withScope .empty) [] .item)
        document.root.children)
      (Expanding.traverse (Node.expand leaves ctx.limits.layout (ctx.withScope .empty) [] .item)
        document.root.children) := by
    refine Leads.traverse (List.forall₂_same.2 fun node hnode => ?_)
    exact (h.expand_alike leaves _).1 _ _ [] [] .item node twins (hiterates node hnode)
  refine Leads.bind (Leads.ofNoting hscreen hscreen rfl rfl) ?_ ?_
  · rintro ⟨screen, dependencies⟩ ⟨screen', dependencies'⟩ ⟨hsame, -⟩
    obtain rfl : screen = screen' := hsame
    refine hnodes.bind (fun children children' hchildren => ?_) ?_
    · exact Leads.done ⟨rfl, .mk (Setting.views_of_held_eq_nil rfl rfl _ _ _) hchildren⟩
    · intro children outcome paths hruns
      obtain ⟨rfl, -⟩ := Expanding.runs_done.1 hruns
      simp only
      rw [Rendered.records, Rendered.recordsOfAll_eq]
      exact List.subset_append_right _ _
  · rintro ⟨screen, dependencies⟩ outcome paths hruns
    obtain ⟨children, _, _, _, -, hdone, rfl, -⟩ := Expanding.runs_bind.1 hruns
    obtain ⟨rfl, -⟩ := Expanding.runs_done.1 hdone
    simp only
    exact List.subset_append_left _ _

end Comparison

namespace Rulebook

/-- The context in which a document is expanded, with its dependencies tracked. -/
def context (rulebook : Rulebook) (document : Document) : Context :=
  Context.ofDocument document rulebook.limits true rulebook.actions

/-- The tree of an expansion over a state, and the dependencies of its views. -/
def treeOver (rulebook : Rulebook) (document : Document) (state : Store)
    (expansion : Diagnosed Expansion) : ViewTree × DependencyIndex :=
  let (actions, failures) := rulebook.actions.readyAll document.actions rulebook.limits.actions
  let failed := failures.map fun (id, error) => Problem.action id error
  let (tree, index) := treeOf expansion.result actions (failed ++ expansion.diagnostics)
  ({ tree with state }, index)

variable {rulebook : Rulebook} {document : Document} {state : Store}

/-- A tree is made of the expansion of the document. -/
theorem build_eq (track : Bool) :
    rulebook.build document state track =
      (Reading.value state.get? (document.expand rulebook.leaves
        (Context.ofDocument document rulebook.limits track rulebook.actions)) :
        Except Problem (Diagnosed Expansion)).map (rulebook.treeOver document state) := by
  have hreading : (rulebook.reading document track).value state.get? = _ :=
    Reading.value_bind state.get? _ _
  rw [build, hreading]
  simp only
  cases Reading.value state.get? (document.expand rulebook.leaves
    (Context.ofDocument document rulebook.limits track rulebook.actions)) <;> rfl

theorem paths_reading :
    (rulebook.reading document true).paths state.get? =
      Reading.paths state.get? (document.expand rulebook.leaves (rulebook.context document)) := by
  refine (Reading.paths_bind state.get? _ _).trans ?_
  refine (congrArg (_ ++ ·) ?_).trans (List.append_nil _)
  split <;> rfl

/-- A tree is a numbered expansion. -/
theorem build_eq_ok_iff {tree : ViewTree} {index : DependencyIndex} :
    rulebook.build document state true = .ok (tree, index) ↔
      ∃ expansion,
        (document.expand rulebook.leaves (rulebook.context document)).Runs state.get? expansion
          ((rulebook.reading document true).paths state.get?) ∧
          rulebook.treeOver document state expansion = (tree, index) := by
  have hbuild : rulebook.build document state true =
      (Reading.value state.get? (document.expand rulebook.leaves (rulebook.context document)) :
        Except Problem (Diagnosed Expansion)).map (rulebook.treeOver document state) :=
    build_eq true
  rw [hbuild, paths_reading]
  constructor
  · intro h
    obtain ⟨expansion, hvalue, htree⟩ := exists_of_map_eq_ok h
    exact ⟨expansion, ⟨hvalue, rfl⟩, htree⟩
  · rintro ⟨expansion, ⟨hvalue, -⟩, htree⟩
    rw [hvalue]
    exact congrArg Except.ok htree

/-- The state of a tree is the one that it was made over. -/
theorem state_of_build {track : Bool} {tree : ViewTree} {index : DependencyIndex}
    (h : rulebook.build document state track = .ok (tree, index)) : tree.state = state := by
  rw [build_eq] at h
  obtain ⟨expansion, -, htree⟩ := exists_of_map_eq_ok h
  exact (congrArg (fun made => made.1.state) htree).symm

/-- Whether a dependency that leads nowhere in both states is steady. -/
theorem course_steady_of_not_rooted {before after : Store} {d : Dependency}
    (h : ¬ d.path.firstKey?.isSome) : (Comparison.course before after).steady d := by
  intro _
  rw [Store.arraySize?, Store.arraySize?, Store.get?_eq_none_of_not_rooted _ h,
    Store.get?_eq_none_of_not_rooted _ h]

variable {before after : Store} {P : String → Prop} {e : Comparison}

/-- The trees of a document over two states in which the arrays that shape it have the same lengths.
The first one records all paths of the state that it asks for. -/
theorem build_alike (h : Comparison.Setting before after (rulebook.context document) P e)
    (hiterates : ∀ node ∈ document.root.children, node.Iterates P rulebook.limits.layout)
    {tree : ViewTree} {index : DependencyIndex}
    (hbuild : rulebook.build document before true = .ok (tree, index))
    (hshape : ∀ entry ∈ index.entries, (Comparison.course before after).steady entry.dependency) :
    (∀ path ∈ (rulebook.reading document true).paths before.get?, path.firstKey?.isSome →
        ∃ entry ∈ index.entries, entry.dependency.path = path) ∧
      ∃ tree' index', rulebook.build document after true = .ok (tree', index') ∧
        tree'.screen = tree.screen ∧ tree'.actions = tree.actions ∧
        tree'.diagnostics = tree.diagnostics ∧
        Linked.Alike (Comparison.Views before after e)
          ⟨tree.arena, index⟩ ⟨tree'.arena, index'⟩ := by
  obtain ⟨expansion, hruns, htree⟩ := build_eq_ok_iff.1 hbuild
  obtain rfl : (rulebook.treeOver document before expansion).1 = tree := congrArg Prod.fst htree
  obtain rfl : (rulebook.treeOver document before expansion).2 = index := congrArg Prod.snd htree
  -- What is not in the index leads nowhere in both states.
  have hsteady : ∀ d ∈ expansion.result.root.records,
      (Comparison.course before after).steady d := by
    intro d hd
    by_cases hrooted : d.path.firstKey?.isSome
    · obtain ⟨id, hid⟩ := Linked.mem_index_ofRendered hd hrooted
      exact hshape ⟨id, d⟩ hid
    · exact course_steady_of_not_rooted hrooted
  obtain ⟨hnotes, expansion', paths', hruns', hscreen, halike⟩ :=
    h.document_alike document rulebook.leaves hiterates _ _ hruns hsteady
  refine ⟨?_, ?_⟩
  · intro path hpath hrooted
    obtain ⟨kind, hkind⟩ := hnotes path hpath
    obtain ⟨id, hid⟩ := Linked.mem_index_ofRendered hkind hrooted
    exact ⟨_, hid, rfl⟩
  · refine ⟨_, _, build_eq_ok_iff.2 ⟨⟨expansion', expansion.diagnostics⟩, ?_, rfl⟩, hscreen.symm,
      rfl, rfl, .ofRendered halike⟩
    exact ⟨hruns'.1, paths_reading.symm⟩

/-- A run is compared with itself. All paths of the state that it asks for are recorded. -/
theorem build_alike_self (hbefore : e.before = state.get?) (hafter : e.after = state.get?)
    (hbasic : ∀ scope scope', Scope.Twins state state scope scope' →
      e.Basic ((rulebook.context document).withScope scope) scope')
    {tree : ViewTree} {index : DependencyIndex}
    (hbuild : rulebook.build document state true = .ok (tree, index)) :
    (∀ path ∈ (rulebook.reading document true).paths state.get?, path.firstKey?.isSome →
        ∃ entry ∈ index.entries, entry.dependency.path = path) ∧
      Linked.Alike (Comparison.Views state state e) ⟨tree.arena, index⟩ ⟨tree.arena, index⟩ := by
  have hsetting : Comparison.Setting state state (rulebook.context document) (fun _ => True) e :=
    ⟨rfl, fun _ _ => .inr rfl, hbefore, hafter, hbasic⟩
  obtain ⟨hasked, tree', index', hagain, -, -, -, halike⟩ := build_alike hsetting
    (fun node _ => node.iterates_of_forall (fun _ => trivial) _) hbuild fun _ _ _ => rfl
  rw [hbuild, Except.ok.injEq, Prod.mk.injEq] at hagain
  obtain ⟨rfl, rfl⟩ := hagain
  exact ⟨hasked, halike⟩

end Rulebook

end ScreenDoc
