import ScreenDoc.Proofs.Expansion.Levels

/-!
# Trees and the reference expansion

The tree of a document holds the views of the reference expansion, numbered in the order of the
walk. There is a tree if and only if the layout is not nested deeper than the limit.

## Main definitions

- `Document.gallery` — a document with all kinds of nodes

## Main results

- `Rulebook.build_eq_ok_outline` — a tree is the reference expansion
- `Rulebook.build_eq_error_iff` — only nesting makes the expansion fail
-/

namespace ScreenDoc

namespace Rulebook

variable {rulebook : Rulebook} {document : Document} {state : Store} {track : Bool}

/-- Whether the views of a document are nested no deeper than the limit. -/
def Fits (rulebook : Rulebook) (document : Document) (state : Store) : Prop :=
  ∀ node ∈ document.root.children, node.nesting state.get? .empty ≤ rulebook.limits.layout

theorem not_fits_iff :
    ¬ rulebook.Fits document state ↔
      ∃ node ∈ document.root.children,
        rulebook.limits.layout < node.nesting state.get? .empty := by
  simp only [Fits, not_forall, Nat.not_le, exists_prop]

theorem failsUnless_expand (hleaves : rulebook.leaves.NeverFails) (track : Bool) :
    Expanding.FailsUnless state.get? (.depthExceeded rulebook.limits.layout)
      (rulebook.Fits document state)
      (fun expansion => expansion.root.outline = rulebook.outline document state track)
      (document.expand rulebook.leaves
        (Context.ofDocument document rulebook.limits track rulebook.actions)) := by
  have hnodes := (Expanding.FailsUnless.expand hleaves state.get? rulebook.limits.layout).1
  have hchildren := Expanding.FailsUnless.nodes hnodes
    (Context.ofDocument document rulebook.limits track rulebook.actions) .item
    document.root.children
  rw [Document.expand]
  refine .ofNoting_bind fun dependencies => hchildren.bind_pure fun children hchildren => ?_
  rw [Rendered.outline, Rendered.outlines_eq_map, hchildren, outline, Node.outlines_eq_map,
    Context.style_screen]

theorem build_eq_ok_of_fits (hleaves : rulebook.leaves.NeverFails)
    (hfits : rulebook.Fits document state) (track : Bool) :
    ∃ tree index, rulebook.build document state track = .ok (tree, index) ∧
      tree.arena.entries.toList =
        (rulebook.outline document state track).entries none Arena.root := by
  obtain ⟨expansion, hvalue, houtline⟩ := (failsUnless_expand hleaves track).succeeds hfits
  have hbuild : rulebook.build document state track =
      .ok (rulebook.treeOver document state expansion) := by
    rw [build_eq, hvalue]
    rfl
  have hentries : (rulebook.treeOver document state expansion).1.arena.entries.toList =
      expansion.result.root.outline.entries none Arena.root :=
    Linked.entries_ofRendered expansion.result.root
  exact ⟨_, _, hbuild, houtline ▸ hentries⟩

theorem build_eq_error_of_not_fits (hleaves : rulebook.leaves.NeverFails)
    (hfits : ¬ rulebook.Fits document state) (track : Bool) :
    rulebook.build document state track = .error (.depthExceeded rulebook.limits.layout) := by
  rw [build_eq, (failsUnless_expand hleaves track).fails hfits]
  rfl

/-- A tree is the reference expansion. Its views have the numbers of the walk, and no view is left
out. In the template for an item, the variables of the iteration stand for the item and for its
position, and all other names for what they stand for around the iteration. -/
theorem build_eq_ok_outline (hleaves : rulebook.leaves = .builtin) {tree : ViewTree}
    {index : DependencyIndex} (h : rulebook.build document state track = .ok (tree, index)) :
    tree.walk = List.range tree.size ∧
      tree.arena.entries.toList =
        (rulebook.outline document state track).entries none Arena.root ∧
      ∀ (scope : Scope) (settings : ForEachSettings) (source : Option Path) (item : Value)
          (i : Nat) (name : String),
        (scope.atItem settings source (item, i)).innermost? name =
          if settings.indexVariable = name then some ⟨Value.ofNat i, none⟩
          else if settings.itemVariable = name then
            some ⟨item, source.map fun array => array.index i⟩
          else scope.innermost? name := by
  have hnever : rulebook.leaves.NeverFails := hleaves ▸ LeafRules.neverFails_builtin
  have hentries : tree.arena.entries.toList =
      (rulebook.outline document state track).entries none Arena.root := by
    by_cases hfits : rulebook.Fits document state
    · obtain ⟨tree', index', hbuild, hentries⟩ := build_eq_ok_of_fits hnever hfits track
      rw [h, Except.ok.injEq, Prod.mk.injEq] at hbuild
      rw [hbuild.1]
      exact hentries
    · -- A document that does not fit has no tree.
      rw [build_eq_error_of_not_fits hnever hfits track] at h
      cases h
  exact ⟨Arena.walk_eq_range hentries, hentries, Scope.innermost?_atItem⟩

end Rulebook

/-- A document with all kinds of nodes. -/
def Document.gallery : Document :=
  let text (s : String) : Node := .component { Leaf.ofType "text" with text := some s }
  let iteration (items : String) : ForEachSettings :=
    ⟨none, items, "item", "index", .vertical, none, none, none⟩
  { id := "gallery"
    version := none
    state := []
    styles := []
    dataSources := []
    actions := []
    root := ⟨none, none, none, none, none, ⟨none, none⟩,
      [.sectionLayout none none [.mk none .unset (some (text "Photos")) (some (text "End")) false
        [.forEach (iteration "photos") (text "$\x7bitem\x7d") none]],
      .container ⟨.vertical, none, none, none, none, none, none⟩
        [.forEach (iteration "missing") (text "$\x7bitem\x7d") (some (text "Nothing here")),
          .forEach (iteration "name") (text "$\x7bitem\x7d") none,
          .spacer ⟨none, none, none⟩]]⟩ }

namespace Rulebook

/-- Two photos become two views between the header and the footer of their section, and each of them
shows its own text. The empty view takes the place of an iteration over nothing, and a value that is
no array gives an empty container. -/
theorem build_eq_ok_outline_gallery :
    let state := Store.ofValues [("name", .string "Ada"),
      ("photos", .array [.string "a", .string "b"])]
    ∃ tree index, standard.build .gallery state true = .ok (tree, index) ∧
      tree.walk = List.range 12 ∧
      tree.walk.map tree.arena.parent? = [none, some 0, some 1, some 2, some 2, some 4, some 4,
        some 2, some 0, some 8, some 8, some 8] ∧
      (tree.walk.filterMap tree.arena.get?).flatMap (fun view => view.kind.bounds.map Bound.text) =
        ["Photos", "a", "b", "End", "Nothing here"] ∧
      tree.arena.entries.toList =
        (standard.outline .gallery state true).entries none Arena.root := by
  intro state
  have hshown : (standard.build .gallery state true).toOption.map (fun built =>
      (built.1.size, built.1.walk.map built.1.arena.parent?,
        (built.1.walk.filterMap built.1.arena.get?).flatMap fun view =>
          view.kind.bounds.map Bound.text)) =
        some (12, [none, some 0, some 1, some 2, some 2, some 4, some 4, some 2, some 0, some 8,
          some 8, some 8], ["Photos", "a", "b", "End", "Nothing here"]) := by
    decide +kernel
  cases hbuild : standard.build .gallery state true with
  | error error =>
    rw [hbuild] at hshown
    cases hshown
  | ok built =>
    obtain ⟨tree, index⟩ := built
    rw [hbuild] at hshown
    obtain ⟨hwalk, hentries, -⟩ := build_eq_ok_outline rfl hbuild
    obtain ⟨hsize, hshown⟩ := Prod.mk.inj (Option.some.inj hshown)
    obtain ⟨hparents, htexts⟩ := Prod.mk.inj hshown
    exact ⟨tree, index, rfl, hsize ▸ hwalk, hparents, htexts, hentries⟩

variable {rulebook : Rulebook} {document : Document} {state : Store} {track : Bool}

/-- Nothing but nesting makes the expansion fail, and it does so exactly when the views below the
root are nested deeper than the limit. -/
theorem build_eq_error_iff (hleaves : rulebook.leaves = .builtin) {error : Problem} :
    rulebook.build document state track = .error error ↔
      error = .depthExceeded rulebook.limits.layout ∧
        ∃ node ∈ document.root.children,
          rulebook.limits.layout < node.nesting state.get? .empty := by
  have hnever : rulebook.leaves.NeverFails := hleaves ▸ LeafRules.neverFails_builtin
  rw [← not_fits_iff]
  constructor
  · intro h
    by_cases hfits : rulebook.Fits document state
    · obtain ⟨tree, index, hbuild, -⟩ := build_eq_ok_of_fits hnever hfits track
      rw [hbuild] at h
      cases h
    · rw [build_eq_error_of_not_fits hnever hfits track] at h
      exact ⟨(Except.error.inj h).symm, hfits⟩
  · rintro ⟨rfl, hfits⟩
    exact build_eq_error_of_not_fits hnever hfits track

/-- The photos are on the fourth level: a section layout, a section and an iteration are above
them. -/
theorem build_eq_error_iff_gallery :
    let state := Store.ofValues [("photos", .array [.string "a", .string "b"])]
    let limited (layout : Nat) : Rulebook := ⟨.builtin, .builtin, ⟨layout, 16, 16⟩, false⟩
    (limited 3).build .gallery state false = .error (.depthExceeded 3) ∧
      ∀ error, (limited 4).build .gallery state false ≠ .error error := by
  intro state limited
  have hnesting : Document.gallery.root.children.map (Node.nesting state.get? .empty) = [4, 3] := by
    decide +kernel
  refine ⟨(build_eq_error_iff rfl).2 ⟨rfl, ?_⟩, fun error h => ?_⟩
  · have hmem : 4 ∈ Document.gallery.root.children.map (Node.nesting state.get? .empty) := by
      rw [hnesting]
      exact List.mem_cons_self
    obtain ⟨node, hnode, hfour⟩ := List.mem_map.1 hmem
    refine ⟨node, hnode, ?_⟩
    rw [hfour]
    exact Nat.lt_succ_self 3
  · obtain ⟨-, node, hnode, hdeeper⟩ := (build_eq_error_iff rfl).1 h
    have hmem := List.mem_map_of_mem (f := Node.nesting state.get? .empty) hnode
    rw [hnesting] at hmem
    have hle : ∀ n ∈ [4, 3], n ≤ 4 := by decide
    exact absurd (hle _ hmem) (Nat.not_le_of_lt hdeeper)

end Rulebook

end ScreenDoc
