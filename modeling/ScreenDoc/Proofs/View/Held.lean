import Mathlib.Data.List.Forall2
import ScreenDoc.Proofs.Store.Mirror
import ScreenDoc.View.Tree

/-!
# The values that a view holds

A view is taken apart into its bound values and all the rest. A refresh only touches values, and of
them only what they show now.

## Main definitions

- `ViewKind.overlooked` — the values of a view that a refresh does not reach
- `ViewKind.held` — all bound values of a view
- `ViewKind.frame` — a view without its bound values
- `Bound.evaluation` — the evaluation by which a refresh finds the present value
- `Bound.face` — where a value comes from

## Main results

- `ViewKind.bounds_refresh`, `ViewKind.overlooked_refresh`, `ViewKind.frame_refresh` — what a
  refresh does to the values of a view, and that it does nothing else
- `Bound.face_refresh`, `Bound.current_refresh` — a refreshed value comes from where it came from
  and shows what its evaluation gives
- `Arena.getElem?_refresh`, `ViewTree.getElem?_refreshAll` — a refresh changes only the views that
  it is for

## Design notes

The address of the image of a button is a bound value like any other, but it is not among those that
`ViewKind.bounds` lists. So it keeps what it showed when the tree was made: these are the overlooked
values.
-/

namespace ScreenDoc

/-! ### Bound values -/

namespace Bound

/-- The evaluation behind a value over the present values of its iteration variables. -/
def evaluation (store : Store) (bound : Bound) : Reading Bound :=
  (bound.rescoped store).reading

/-- What a value would show over the given state. -/
def shownOver (store : Store) (bound : Bound) : Value :=
  ((bound.evaluation store).value store.get?).current

/-- A value without what it shows: only where it comes from. -/
def face : Bound → Bound
  | .literal _ => .literal .null
  | .binding path _ => .binding path .null
  | .template source _ scope => .template source "" scope.still

theorem face_literal (v w : Value) : (literal v).face = (literal w).face := rfl

theorem face_binding (path : String) (v w : Value) :
    (binding path v).face = (binding path w).face := rfl

theorem path?_literal (v w : Value) : (literal v).path? = (literal w).path? := rfl

theorem path?_binding (path : String) (v w : Value) :
    (binding path v).path? = (binding path w).path? := rfl

theorem path?_template (source v w : String) (scope scope' : Scope) :
    (template source v scope).path? = (template source w scope').path? := rfl

/-- Values with the same face are fixed, or follow the same place, or follow the same template in
scopes that are alike in the present state. -/
theorem face_eq_cases {a b : Bound} (h : a.face = b.face) :
    (∃ v w, a = .literal v ∧ b = .literal w) ∨
      (∃ path v w, a = .binding path v ∧ b = .binding path w) ∨
      ∃ source v w scope scope', a = .template source v scope ∧ b = .template source w scope' ∧
        ∀ store, scope.refreshed store = scope'.refreshed store := by
  cases a with
  | literal v =>
    cases b with
    | literal w => exact .inl ⟨v, w, rfl, rfl⟩
    | _ => cases h
  | binding path v =>
    cases b with
    | binding other w =>
      rw [face, face, binding.injEq] at h
      exact .inr (.inl ⟨path, v, w, rfl, by rw [h.1]⟩)
    | _ => cases h
  | template source v scope =>
    cases b with
    | template other w scope' =>
      rw [face, face, template.injEq] at h
      obtain ⟨rfl, -, hstill⟩ := h
      refine .inr (.inr ⟨source, v, w, scope, scope', rfl, rfl, fun store => ?_⟩)
      rw [← Scope.refreshed_still, hstill, Scope.refreshed_still]
    | _ => cases h

theorem path?_eq_of_face_eq {a b : Bound} (h : a.face = b.face) : a.path? = b.path? := by
  obtain ⟨v, w, rfl, rfl⟩ | ⟨path, v, w, rfl, rfl⟩ | ⟨source, v, w, scope, scope', rfl, rfl, -⟩ :=
    face_eq_cases h
  all_goals rfl

/-- Where a value comes from decides which paths its evaluation asks for. -/
theorem paths_evaluation_eq_of_face_eq {a b : Bound} (h : a.face = b.face) (store : Store)
    (answers : Path → Option Value) :
    (a.evaluation store).paths answers = (b.evaluation store).paths answers := by
  obtain ⟨v, w, rfl, rfl⟩ | ⟨path, v, w, rfl, rfl⟩ | ⟨source, v, w, scope, scope', rfl, rfl, hs⟩ :=
    face_eq_cases h
  · rfl
  · rfl
  · simp only [evaluation, rescoped, reading, hs store]

/-- A refreshed value comes from where it came from. -/
theorem face_refresh (store : Store) (bound : Bound) :
    (bound.refresh store).1.face = bound.face := by
  cases bound with
  | literal value => rfl
  | binding path shown =>
    simp only [refresh, rescoped, reading, Reading.value_bind, Reading.value, withCurrent, face]
  | template source shown scope =>
    simp only [refresh, rescoped, reading, Reading.value_bind, Reading.value, withCurrent, face]

/-- A refreshed value shows what its evaluation gives. -/
theorem current_refresh (store : Store) (bound : Bound) :
    (bound.refresh store).1.current = bound.shownOver store := by
  cases bound with
  | literal value => rfl
  | binding path shown =>
    simp only [refresh, shownOver, evaluation, rescoped, reading, Reading.value_bind, Reading.value,
      withCurrent, current]
  | template source shown scope =>
    simp only [refresh, shownOver, evaluation, rescoped, reading, Reading.value_bind, Reading.value,
      withCurrent, current]

theorem text_eq_text_current (bound : Bound) : bound.text = bound.current.text := by
  cases bound <;> rfl

end Bound

/-! ### Views -/

/-- An image source without its bound value. -/
def ImageOrigin.frame : ImageOrigin → ImageOrigin
  | .url _ => .url (.literal .null)
  | source => source

namespace ViewKind

/-- The values of a view that a refresh does not reach: the address of the image of a button. -/
def overlooked : ViewKind → List Bound
  | .button view => view.image.toList.flatMap ImageOrigin.bounds
  | _ => []

/-- All bound values of a view. -/
def held (kind : ViewKind) : List Bound :=
  kind.bounds ++ kind.overlooked

/-- The properties of a view that the host of the library draws. -/
def properties : ViewKind → List (String × Value)
  | .custom view => view.properties
  | _ => []

/-- A view without its bound values and without the properties that the host draws. -/
def frame : ViewKind → ViewKind
  | .text view => .text { view with content := .literal .null }
  | .button view => .button { view with
      label := .literal .null
      isSelected := view.isSelected.map fun _ => .literal .null
      image := view.image.map ImageOrigin.frame }
  | .image view => .image { view with source := view.source.frame }
  | .toggle view => .toggle { view with
      isOn := .literal .null
      label := view.label.map fun _ => .literal .null }
  | .slider view => .slider { view with value := .literal .null }
  | .textField view => .textField { view with text := .literal .null }
  | .custom view => .custom { view with properties := [] }
  | kind => kind

theorem bounds_refresh (store : Store) (kind : ViewKind) :
    (kind.refresh store).1.bounds = kind.bounds.map fun bound => (bound.refresh store).1 := by
  cases kind with
  | button view => cases h : view.isSelected <;> simp [refresh, bounds, Bound.refresh?, h]
  | toggle view => cases h : view.label <;> simp [refresh, bounds, Bound.refresh?, h]
  | image view =>
    cases h : view.source <;> simp [refresh, bounds, ImageOrigin.refresh, ImageOrigin.bounds, h]
  | _ => rfl

theorem overlooked_refresh (store : Store) (kind : ViewKind) :
    (kind.refresh store).1.overlooked = kind.overlooked := by
  cases kind <;> rfl

theorem properties_refresh (store : Store) (kind : ViewKind) :
    (kind.refresh store).1.properties = kind.properties := by
  cases kind <;> rfl

theorem frame_refresh (store : Store) (kind : ViewKind) :
    (kind.refresh store).1.frame = kind.frame := by
  cases kind with
  | button view => cases h : view.isSelected <;> simp [refresh, frame, Bound.refresh?, h]
  | toggle view => cases h : view.label <;> simp [refresh, frame, Bound.refresh?, h]
  | image view =>
    cases h : view.source <;> simp [refresh, frame, ImageOrigin.refresh, ImageOrigin.frame, h]
  | _ => rfl

end ViewKind

/-! ### Trees -/

/-- A view with its links, brought up to date. -/
def Arena.Entry.refreshed (store : Store) (entry : Arena.Entry) : Arena.Entry :=
  { entry with view := { entry.view with kind := (entry.view.kind.refresh store).1 } }

namespace Arena

/-- A refresh changes only the view that it is for. -/
theorem getElem?_refresh (arena : Arena) (store : Store) (id n : ViewId) :
    (arena.refresh store id).1.entries[n]? =
      arena.entries[n]?.map fun entry => if n = id then entry.refreshed store else entry := by
  cases hget : arena.entries[id]? with
  | none =>
    have hview : arena.get? id = none := by rw [get?, hget, Option.map_none]
    simp only [refresh, hview]
    by_cases hn : n = id
    · rw [hn, hget, Option.map_none]
    · simp only [if_neg hn, Option.map_id']
  | some entry =>
    have hview : arena.get? id = some entry.view := by rw [get?, hget, Option.map_some]
    simp only [refresh, hview, Array.getElem?_modify]
    by_cases hn : n = id
    · rw [hn, hget, if_pos rfl, Option.map_some, Option.map_some, if_pos rfl]
      rfl
    · rw [if_neg (Ne.symm hn)]
      simp only [if_neg hn, Option.map_id']

end Arena

namespace ViewTree

theorem state_refreshAll (tree : ViewTree) (ids : List ViewId) :
    (tree.refreshAll ids).1.state = tree.state := by
  induction ids generalizing tree with
  | nil => rfl
  | cons id rest ih => exact ih (tree.refresh id).1

/-- A refresh of several views changes no other one. -/
theorem getElem?_refreshAll (tree : ViewTree) {ids : List ViewId} (hids : ids.Nodup) (n : ViewId) :
    (tree.refreshAll ids).1.arena.entries[n]? =
      tree.arena.entries[n]?.map fun entry =>
        if n ∈ ids then entry.refreshed tree.state else entry := by
  induction ids generalizing tree with
  | nil => simp only [refreshAll, List.not_mem_nil, if_false, Option.map_id']
  | cons id rest ih =>
    obtain ⟨hid, hrest⟩ := List.nodup_cons.1 hids
    have hstep : (tree.refreshAll (id :: rest)).1 = ((tree.refresh id).1.refreshAll rest).1 := rfl
    have hstate : (tree.refresh id).1.state = tree.state := rfl
    have harena : (tree.refresh id).1.arena = (tree.arena.refresh tree.state id).1 := rfl
    rw [hstep, ih _ hrest, hstate, harena, Arena.getElem?_refresh, Option.map_map]
    congr 1
    funext entry
    simp only [Function.comp_apply, List.mem_cons]
    by_cases hn : n = id
    · -- The view was brought up to date first, and not again after that.
      have hnot : n ∉ rest := fun hmem => hid (hn ▸ hmem)
      rw [if_neg hnot, if_pos hn, if_pos (Or.inl hn)]
    · rw [if_neg hn]
      simp only [hn, false_or]

end ViewTree

end ScreenDoc
