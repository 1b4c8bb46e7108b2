import ScreenDoc.Proofs.View.Held
import ScreenDoc.Proofs.View.Links

/-!
# What a tree shows

A tree is drawn view by view in the order of the walk. Of a view this needs its kind and style, its
author identifier, its slot, the place of its parent and what its values show. Where the values come
from is not seen.

## Main definitions

- `View.Drawn`, `View.drawn` — what is seen of a view
- `View.drawnOver` — what is seen of a view once it has been brought up to date with a state
- `ViewTree.picture` — what is seen of a tree
- `View.SameFaces` — two views differ in what their values show alone
- `View.Same` — two views differ in nothing
- `ViewTree.Matches` — two trees have the same links and related views

## Main results

- `ViewTree.Matches.picture_eq` — trees with the same links and the same views look the same
- `ViewTree.picture_refreshAll` — how a tree looks of which some views are brought up to date
-/

namespace ScreenDoc

/-! ### Views -/

/-- What is seen of a view. -/
structure View.Drawn where
  id : Option String
  slot : Slot
  /-- The kind with its style, without values. -/
  kind : ViewKind
  properties : List (String × Value)
  /-- What the values show, each also as a text. -/
  values : List (Value × String)

namespace Bound

/-- What is seen of a value. -/
def drawn (bound : Bound) : Value × String :=
  (bound.current, bound.text)

/-- What is seen of a value once it has been brought up to date with a state. -/
def drawnOver (store : Store) (bound : Bound) : Value × String :=
  (bound.shownOver store, (bound.shownOver store).text)

theorem drawn_refresh (store : Store) (bound : Bound) :
    (bound.refresh store).1.drawn = bound.drawnOver store := by
  rw [drawn, text_eq_text_current, current_refresh, drawnOver]

end Bound

namespace View

/-- What is seen of a view. -/
def drawn (view : View) : Drawn :=
  ⟨view.id, view.slot, view.kind.frame, view.kind.properties, view.kind.held.map Bound.drawn⟩

/-- What is seen of a view once it has been brought up to date with a state. -/
def drawnOver (store : Store) (view : View) : Drawn :=
  ⟨view.id, view.slot, view.kind.frame, view.kind.properties,
    view.kind.bounds.map (Bound.drawnOver store) ++ view.kind.overlooked.map Bound.drawn⟩

/-- A view brought up to date with a state. -/
def refreshed (store : Store) (view : View) : View :=
  { view with kind := (view.kind.refresh store).1 }

theorem drawn_refreshed (store : Store) (view : View) :
    (view.refreshed store).drawn = view.drawnOver store := by
  rw [drawn, refreshed, drawnOver, ViewKind.frame_refresh, ViewKind.properties_refresh,
    ViewKind.held, ViewKind.bounds_refresh, ViewKind.overlooked_refresh, List.map_append,
    List.map_map]
  congr 2
  exact List.map_congr_left fun bound _ => bound.drawn_refresh store

/-- Whether two views differ in what their values show alone. -/
structure SameFaces (view view' : View) : Prop where
  id : view.id = view'.id
  slot : view.slot = view'.slot
  frame : view.kind.frame = view'.kind.frame
  properties : view.kind.properties = view'.kind.properties
  bounds : view.kind.bounds.map Bound.face = view'.kind.bounds.map Bound.face
  overlooked : view.kind.overlooked.map Bound.face = view'.kind.overlooked.map Bound.face

namespace SameFaces

theorem refl (view : View) : view.SameFaces view :=
  ⟨rfl, rfl, rfl, rfl, rfl, rfl⟩

theorem symm {a b : View} (h : a.SameFaces b) : b.SameFaces a :=
  ⟨h.id.symm, h.slot.symm, h.frame.symm, h.properties.symm, h.bounds.symm, h.overlooked.symm⟩

theorem trans {a b c : View} (hab : a.SameFaces b) (hbc : b.SameFaces c) : a.SameFaces c :=
  ⟨hab.id.trans hbc.id, hab.slot.trans hbc.slot, hab.frame.trans hbc.frame,
    hab.properties.trans hbc.properties, hab.bounds.trans hbc.bounds,
    hab.overlooked.trans hbc.overlooked⟩

/-- A refreshed view takes its values from where it took them before. -/
theorem refreshed (store : Store) (view : View) : view.SameFaces (view.refreshed store) where
  id := rfl
  slot := rfl
  frame := (view.kind.frame_refresh store).symm
  properties := (view.kind.properties_refresh store).symm
  bounds := by
    rw [View.refreshed, ViewKind.bounds_refresh, List.map_map]
    exact List.map_congr_left fun bound _ => (bound.face_refresh store).symm
  overlooked := by rw [View.refreshed, ViewKind.overlooked_refresh]

theorem held {a b : View} (h : a.SameFaces b) :
    a.kind.held.map Bound.face = b.kind.held.map Bound.face := by
  rw [ViewKind.held, ViewKind.held, List.map_append, List.map_append, h.bounds, h.overlooked]

/-- Each value of the one view has one from the same place in the other. -/
theorem exists_of_mem_held {a b : View} (h : a.SameFaces b) {bound : Bound}
    (hbound : bound ∈ a.kind.held) : ∃ other ∈ b.kind.held, other.face = bound.face := by
  have hmem : bound.face ∈ b.kind.held.map Bound.face := by
    rw [← h.held]
    exact List.mem_map_of_mem hbound
  exact List.mem_map.1 hmem

end SameFaces

/-- Whether two views take their values from the same places and show the same. -/
structure Same (view view' : View) : Prop where
  faces : view.SameFaces view'
  bounds : view.kind.bounds.map Bound.current = view'.kind.bounds.map Bound.current
  overlooked : view.kind.overlooked.map Bound.current = view'.kind.overlooked.map Bound.current

namespace Same

theorem refl (view : View) : view.Same view :=
  ⟨.refl view, rfl, rfl⟩

theorem symm {a b : View} (h : a.Same b) : b.Same a :=
  ⟨h.faces.symm, h.bounds.symm, h.overlooked.symm⟩

theorem trans {a b c : View} (hab : a.Same b) (hbc : b.Same c) : a.Same c :=
  ⟨hab.faces.trans hbc.faces, hab.bounds.trans hbc.bounds, hab.overlooked.trans hbc.overlooked⟩

theorem drawn_eq {view view' : View} (h : view.Same view') : view.drawn = view'.drawn := by
  have hvalues : ∀ bounds bounds' : List Bound,
      bounds.map Bound.current = bounds'.map Bound.current →
        bounds.map Bound.drawn = bounds'.map Bound.drawn := by
    intro bounds bounds' hcurrent
    have hdrawn : Bound.drawn = (fun value : Value => (value, value.text)) ∘ Bound.current := by
      funext bound
      rw [Bound.drawn, bound.text_eq_text_current]
      rfl
    rw [hdrawn, ← List.map_map, ← List.map_map, hcurrent]
  rw [View.drawn, View.drawn, h.faces.id, h.faces.slot, h.faces.frame, h.faces.properties,
    ViewKind.held, ViewKind.held, List.map_append, List.map_append, hvalues _ _ h.bounds,
    hvalues _ _ h.overlooked]

end Same

end View

/-! ### Trees -/

namespace ViewTree

/-- What is seen of a tree: its views in the order of the walk, each with the position of its parent
in this order. -/
def pictureBy (draw : ViewId → View → View.Drawn) (tree : ViewTree) :
    List (Option Nat × Option View.Drawn) :=
  tree.walk.map fun id =>
    ((tree.arena.parent? id).map tree.walk.idxOf, (tree.arena.get? id).map (draw id))

/-- What is seen of a tree. -/
def picture (tree : ViewTree) : List (Option Nat × Option View.Drawn) :=
  tree.pictureBy fun _ => View.drawn

/-- Whether two trees have the same links, and views of the same numbers are related. -/
structure Matches (R : View → View → Prop) (tree tree' : ViewTree) : Prop where
  links : tree.arena.SameLinks tree'.arena
  view : ∀ id : ViewId, Option.Rel R (tree.arena.get? id) (tree'.arena.get? id)

theorem pictureBy_congr {draw draw' : ViewId → View → View.Drawn} {tree tree' : ViewTree}
    (hlinks : tree.arena.SameLinks tree'.arena)
    (hviews : ∀ id : ViewId, (tree.arena.get? id).map (draw id) =
      (tree'.arena.get? id).map (draw' id)) :
    tree.pictureBy draw = tree'.pictureBy draw' := by
  have hwalk : tree.walk = tree'.walk := hlinks.walk Arena.root
  rw [pictureBy, pictureBy, hwalk]
  refine List.map_congr_left fun id _ => ?_
  rw [hlinks.parent?, hviews]

namespace Matches

variable {R : View → View → Prop} {tree tree' : ViewTree}

theorem ofSame (hR : ∀ view, R view view) (h : tree.arena = tree'.arena) :
    tree.Matches R tree' := by
  refine ⟨h ▸ .refl _, fun id => ?_⟩
  rw [h]
  cases tree'.arena.get? id with
  | none => exact .none
  | some view => exact .some (hR view)

theorem trans {a b c : ViewTree} (hR : ∀ {x y z : View}, R x y → R y z → R x z)
    (hab : a.Matches R b) (hbc : b.Matches R c) : a.Matches R c := by
  refine ⟨hab.links.trans hbc.links, fun id => ?_⟩
  have hview := hab.view id
  have hview' := hbc.view id
  generalize a.arena.get? id = x at hview ⊢
  generalize b.arena.get? id = y at hview hview'
  generalize c.arena.get? id = z at hview' ⊢
  cases hview with
  | none =>
    cases hview'
    exact .none
  | some hxy =>
    cases hview' with
    | some hyz => exact .some (hR hxy hyz)

theorem exists_view_left (h : tree.Matches R tree') {id : ViewId} {view' : View}
    (hview : tree'.arena.get? id = some view') :
    ∃ view, tree.arena.get? id = some view ∧ R view view' := by
  have hrel := h.view id
  rw [hview] at hrel
  generalize tree.arena.get? id = found at hrel ⊢
  cases hrel with
  | some hR => exact ⟨_, rfl, hR⟩

end Matches

/-- Trees with the same links and the same views look the same. -/
theorem Matches.picture_eq {tree tree' : ViewTree} (h : tree.Matches View.Same tree') :
    tree.picture = tree'.picture := by
  refine pictureBy_congr h.links fun id => ?_
  have hview := h.view id
  generalize tree.arena.get? id = x at hview ⊢
  generalize tree'.arena.get? id = y at hview ⊢
  cases hview with
  | none => rfl
  | some hsame => exact congrArg some hsame.drawn_eq

/-! ### Refreshes -/

/-- A refresh of several views brings these up to date and leaves the others as they are. -/
theorem get?_refreshAll (tree : ViewTree) {ids : List ViewId} (hids : ids.Nodup) (id : ViewId) :
    (tree.refreshAll ids).1.arena.get? id = (tree.arena.get? id).map fun view =>
      if id ∈ ids then view.refreshed tree.state else view := by
  rw [Arena.get?, Arena.get?, tree.getElem?_refreshAll hids, Option.map_map, Option.map_map]
  congr 1
  funext entry
  by_cases hid : id ∈ ids
  · simp only [Function.comp_apply, if_pos hid]
    rfl
  · simp only [Function.comp_apply, if_neg hid]

/-- A refresh of several views leaves the links as they are. -/
theorem sameLinks_refreshAll (tree : ViewTree) {ids : List ViewId} (hids : ids.Nodup) :
    tree.arena.SameLinks (tree.refreshAll ids).1.arena := by
  have hentries := tree.getElem?_refreshAll hids
  refine ⟨?_, fun n => ?_⟩
  · -- The entries are the same in number, since each one stays an entry.
    have hbound : ∀ n : Nat, (tree.refreshAll ids).1.arena.size ≤ n ↔ tree.arena.size ≤ n := by
      intro n
      rw [Arena.size, Arena.size, ← Array.getElem?_eq_none_iff, ← Array.getElem?_eq_none_iff,
        hentries n, Option.map_eq_none_iff]
    exact Nat.le_antisymm ((hbound _).1 (Nat.le_refl _)) ((hbound _).2 (Nat.le_refl _))
  · rw [hentries n, Option.map_map]
    congr 1
    funext entry
    by_cases hn : n ∈ ids
    · simp only [Function.comp_apply, if_pos hn]
      rfl
    · simp only [Function.comp_apply, if_neg hn]

/-- A refresh leaves in place where values come from. -/
theorem matches_refreshAll (tree : ViewTree) {ids : List ViewId} (hids : ids.Nodup) :
    tree.Matches View.SameFaces (tree.refreshAll ids).1 := by
  refine ⟨tree.sameLinks_refreshAll hids, fun id => ?_⟩
  rw [tree.get?_refreshAll hids]
  cases tree.arena.get? id with
  | none => exact .none
  | some view =>
    refine .some ?_
    show view.SameFaces (if id ∈ ids then view.refreshed tree.state else view)
    by_cases hid : id ∈ ids
    · rw [if_pos hid]
      exact .refreshed tree.state view
    · rw [if_neg hid]
      exact .refl view

/-- A tree of which some views are brought up to date looks as before but for these. -/
theorem picture_refreshAll (tree : ViewTree) {ids : List ViewId} (hids : ids.Nodup) :
    (tree.refreshAll ids).1.picture = tree.pictureBy fun id view =>
      if id ∈ ids then view.drawnOver tree.state else view.drawn := by
  refine pictureBy_congr (tree.sameLinks_refreshAll hids).symm fun id => ?_
  rw [tree.get?_refreshAll hids, Option.map_map]
  congr 1
  funext view
  by_cases hid : id ∈ ids
  · rw [Function.comp_apply, if_pos hid, if_pos hid, View.drawn_refreshed]
  · rw [Function.comp_apply, if_neg hid, if_neg hid]

end ViewTree

end ScreenDoc
