import ScreenDoc.Proofs.Expansion.Faithful
import ScreenDoc.Proofs.View.Growth

/-!
# The tree under the root of an expansion

The tree of a document is an arena that has grown view by view, so what holds of all such arenas
holds of it. Besides, no view is left out of it.

## Main results

- `Linked.exists_editAll_ofRendered` — an expansion is planted by calls that add views
- `Arena.tree_under_root` — the part of an arena under the root is a tree, and all of it for a
  document
-/

namespace ScreenDoc

namespace Linked

mutual

theorem exists_editAll_plant : (linked : Linked) → (parent : ViewId) → (r : Rendered) →
    ∃ edits, (linked.plant parent r).arena = linked.arena.editAll edits
  | linked, parent, .mk view dependencies children => by
    obtain ⟨edits, hedits⟩ := exists_editAll_plantAll
      (linked.insertUnder parent view dependencies).1 linked.arena.size children
    exact ⟨.insertUnder parent view :: edits, hedits⟩

theorem exists_editAll_plantAll : (linked : Linked) → (parent : ViewId) → (rs : List Rendered) →
    ∃ edits, (linked.plantAll parent rs).arena = linked.arena.editAll edits
  | _, _, [] => ⟨[], rfl⟩
  | linked, parent, first :: rest => by
    obtain ⟨edits, hedits⟩ := exists_editAll_plant linked parent first
    obtain ⟨others, hothers⟩ := exists_editAll_plantAll (linked.plant parent first) parent rest
    refine ⟨edits ++ others, ?_⟩
    rw [plantAll, hothers, hedits, Arena.editAll, Arena.editAll, Arena.editAll, List.foldl_append]

end

/-- An expansion is planted by calls that add views to its root. -/
theorem exists_editAll_ofRendered (r : Rendered) :
    ∃ edits, (ofRendered r).arena = (Arena.ofRoot r.view).editAll edits :=
  exists_editAll_plantAll (.ofRoot r.view r.dependencies) Arena.root r.children

end Linked

/-- The arena of a tree is planted from one expansion. -/
theorem Rulebook.exists_ofRendered_of_build {rulebook : Rulebook} {document : Document}
    {state : Store} {track : Bool} {tree : ViewTree} {index : DependencyIndex}
    (h : rulebook.build document state track = .ok (tree, index)) :
    ∃ r, tree.arena = (Linked.ofRendered r).arena := by
  rw [build_eq] at h
  obtain ⟨expansion, -, htree⟩ := exists_of_map_eq_ok h
  exact ⟨expansion.result.root, (congrArg (fun made => made.1.arena) htree).symm⟩

/-- Whatever views are added to an arena and linked, in whatever order, the part under the root is a
tree. The tree of a document is such an arena; it has all of its views under the root, and the
ancestors of each of them end there. -/
theorem Arena.tree_under_root :
    (∀ (view : View) (edits : List Arena.Edit),
      ((Arena.ofRoot view).editAll edits).IsTree ((Arena.ofRoot view).linksOf edits)) ∧
    ∀ (rulebook : Rulebook) (document : Document) (state : Store) (track : Bool) (tree : ViewTree)
      (index : DependencyIndex), rulebook.build document state track = .ok (tree, index) →
      (∃ view edits, tree.arena = (Arena.ofRoot view).editAll edits) ∧
      (∀ id, id ∈ tree.walk ↔ tree.arena.contains id = true) ∧
      ∀ id, tree.arena.contains id = true →
        tree.arena.Climbs id (tree.arena.ancestors id) ∧
          (id :: tree.arena.ancestors id).getLast? = some Arena.root := by
  have hlinked : ∀ view edits, ((Arena.ofRoot view).editAll edits).IsLinkedBy
      ([] ++ (Arena.ofRoot view).linksOf edits) := fun view edits =>
    Arena.isLinkedBy_editAll (.ofRoot view) edits
  refine ⟨fun view edits => (hlinked view edits).isTree, ?_⟩
  intro rulebook document state track tree index hbuild
  obtain ⟨r, hplanted⟩ := Rulebook.exists_ofRendered_of_build hbuild
  obtain ⟨edits, hgrown⟩ := Linked.exists_editAll_ofRendered r
  have hedits : tree.arena = (Arena.ofRoot r.view).editAll edits := hplanted.trans hgrown
  have hwalk : tree.walk = List.range tree.arena.size :=
    Arena.walk_eq_range (hplanted ▸ Linked.entries_ofRendered r)
  have hmem : ∀ id, id ∈ tree.walk ↔ tree.arena.contains id = true := by
    intro id
    rw [hwalk, List.mem_range, Arena.contains, decide_eq_true_eq]
  refine ⟨⟨r.view, edits, hedits⟩, hmem, fun id hid => ?_⟩
  have hlinks : tree.arena.IsLinkedBy ([] ++ (Arena.ofRoot r.view).linksOf edits) :=
    hedits ▸ hlinked r.view edits
  exact hlinks.ancestors (of_decide_eq_true hid) ((hlinks.isTree.mem_walk id).1 ((hmem id).2 hid))

/-- A photo of the gallery is below an iteration, a section and a section layout. -/
theorem Arena.tree_under_root_gallery :
    let state := Store.ofValues [("photos", .array [.string "a", .string "b"])]
    ∃ tree index, Rulebook.standard.build .gallery state true = .ok (tree, index) ∧
      6 ∈ tree.walk ∧ tree.arena.Climbs 6 [4, 2, 1, 0] := by
  intro state
  have hshown : (Rulebook.standard.build .gallery state true).toOption.map (fun built =>
      (built.1.arena.contains 6, built.1.arena.ancestors 6)) = some (true, [4, 2, 1, 0]) := by
    decide +kernel
  cases hbuild : Rulebook.standard.build .gallery state true with
  | error error =>
    rw [hbuild] at hshown
    cases hshown
  | ok built =>
    obtain ⟨tree, index⟩ := built
    rw [hbuild] at hshown
    obtain ⟨hcontains, hancestors⟩ := Prod.mk.inj (Option.some.inj hshown)
    obtain ⟨-, hmem, hclimbs⟩ := tree_under_root.2 _ _ _ _ tree index hbuild
    exact ⟨tree, index, rfl, (hmem 6).2 hcontains, hancestors ▸ (hclimbs 6 hcontains).1⟩

end ScreenDoc
