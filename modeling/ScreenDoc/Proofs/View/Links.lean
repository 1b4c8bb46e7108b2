import ScreenDoc.View.Arena

/-!
# Links between views

Two arenas with the same links have the same order of views, and stay so when views are added at the
same places.

## Main definitions

- `Arena.SameLinks` — two arenas of the same size with the same links

## Main results

- `Arena.SameLinks.insertUnder` — a view can be added at the same place of both
- `Arena.SameLinks.walk` — the views are walked in the same order
-/

namespace ScreenDoc

namespace Arena

theorem get?_insert (arena : Arena) (view : View) (n : ViewId) :
    (arena.insert view).1.get? n = if n = arena.size then some view else arena.get? n := by
  rw [get?, insert, get?, Array.getElem?_push]
  by_cases hn : n = arena.size
  · rw [if_pos hn, if_pos (show n = arena.entries.size from hn)]
    rfl
  · rw [if_neg hn, if_neg (show ¬ n = arena.entries.size from hn)]

theorem get?_attach (arena : Arena) (parent child n : ViewId) :
    (arena.attach parent child).1.get? n = arena.get? n := by
  rw [attach]
  split
  · simp only [get?, Array.getElem?_modify]
    by_cases hchild : child = n
    · subst hchild
      by_cases hparent : parent = child
      · subst hparent
        simp [Option.map_map, Function.comp_def]
      · simp [hparent, Option.map_map, Function.comp_def]
    · by_cases hparent : parent = n
      · subst hparent
        simp [hchild, Option.map_map, Function.comp_def]
      · simp [hchild, hparent]
  · rfl

theorem get?_insertUnder (arena : Arena) (parent : ViewId) (view : View) (n : ViewId) :
    (arena.insertUnder parent view).1.get? n =
      if n = arena.size then some view else arena.get? n := by
  rw [insertUnder]
  rw [get?_attach, get?_insert]

/-- The links of a view. -/
def Entry.links (entry : Entry) : Option ViewId × List ViewId :=
  (entry.parent, entry.children)

/-- Whether two arenas have the same number of views with the same links. -/
structure SameLinks (arena arena' : Arena) : Prop where
  size : arena.size = arena'.size
  links : ∀ n : ViewId, arena.entries[n]?.map Entry.links = arena'.entries[n]?.map Entry.links

namespace SameLinks

variable {arena arena' : Arena}

theorem parent? (h : SameLinks arena arena') (n : ViewId) : arena.parent? n = arena'.parent? n := by
  have hlinks : ∀ arena : Arena,
      arena.parent? n = (arena.entries[n]?.map Entry.links).bind Prod.fst := by
    intro arena
    rw [Arena.parent?, Option.bind_map]
    rfl
  rw [hlinks, hlinks, h.links]

theorem children (h : SameLinks arena arena') (n : ViewId) :
    arena.children n = arena'.children n := by
  have hlinks : ∀ arena : Arena,
      arena.children n = ((arena.entries[n]?.map Entry.links).map Prod.snd).getD [] := by
    intro arena
    rw [Arena.children]
    cases arena.entries[n]? <;> rfl
  rw [hlinks, hlinks, h.links]

theorem canAttach (h : SameLinks arena arena') (parent child : ViewId) :
    arena.canAttach parent child = arena'.canAttach parent child := by
  simp only [Arena.canAttach, Arena.contains, h.size, h.parent?]

theorem insert (h : SameLinks arena arena') (view view' : View) :
    SameLinks (arena.insert view).1 (arena'.insert view').1 := by
  refine ⟨?_, fun n => ?_⟩
  · simp only [Arena.insert, Arena.size, Array.size_push]
    exact congrArg (· + 1) h.size
  · have hsize : arena.entries.size = arena'.entries.size := h.size
    simp only [Arena.insert, Array.getElem?_push, hsize]
    split
    · rfl
    · exact h.links n

theorem attach (h : SameLinks arena arena') (parent child : ViewId) :
    SameLinks (arena.attach parent child).1 (arena'.attach parent child).1 := by
  rw [Arena.attach, Arena.attach, h.canAttach]
  split
  · refine ⟨?_, fun n => ?_⟩
    · simp only [Arena.size, Array.size_modify]
      exact h.size
    · have hlinks := h.links n
      simp only [Array.getElem?_modify]
      generalize arena.entries[n]? = entry at hlinks ⊢
      generalize arena'.entries[n]? = entry' at hlinks ⊢
      cases entry with
      | none =>
        cases entry' with
        | none => rfl
        | some entry' => cases hlinks
      | some entry =>
        cases entry' with
        | none => cases hlinks
        | some entry' =>
          obtain ⟨view, p, cs⟩ := entry
          obtain ⟨view', p', cs'⟩ := entry'
          simp only [Option.map_some, Entry.links, Option.some.injEq, Prod.mk.injEq] at hlinks
          obtain ⟨rfl, rfl⟩ := hlinks
          by_cases hchild : child = n
          · by_cases hparent : parent = n <;> simp [hchild, hparent, Entry.links]
          · by_cases hparent : parent = n <;> simp [hchild, hparent, Entry.links]
  · exact h

theorem insertUnder (h : SameLinks arena arena') (parent : ViewId) (view view' : View) :
    SameLinks (arena.insertUnder parent view).1 (arena'.insertUnder parent view').1 := by
  have hattach := (h.insert view view').attach parent arena.size
  rw [Arena.insertUnder, Arena.insertUnder]
  simp only
  rw [show (arena'.insert view').2 = arena.size from h.size.symm]
  exact hattach

theorem ofRoot (view view' : View) : SameLinks (Arena.ofRoot view) (Arena.ofRoot view') := by
  refine ⟨rfl, fun n => ?_⟩
  cases n <;> rfl

theorem refl (arena : Arena) : SameLinks arena arena :=
  ⟨rfl, fun _ => rfl⟩

theorem symm (h : SameLinks arena arena') : SameLinks arena' arena :=
  ⟨h.size.symm, fun n => (h.links n).symm⟩

theorem trans {arena'' : Arena} (h : SameLinks arena arena') (h' : SameLinks arena' arena'') :
    SameLinks arena arena'' :=
  ⟨h.size.trans h'.size, fun n => (h.links n).trans (h'.links n)⟩

theorem get?_eq_none_iff (h : SameLinks arena arena') {id : ViewId} :
    arena.get? id = none ↔ arena'.get? id = none := by
  have hlinks := h.links id
  rw [get?, get?, Option.map_eq_none_iff, Option.map_eq_none_iff]
  rw [← Option.map_eq_none_iff (f := Entry.links), hlinks, Option.map_eq_none_iff]

theorem exists_get? (h : SameLinks arena arena') {id : ViewId} {view : View}
    (hview : arena.get? id = some view) : ∃ view', arena'.get? id = some view' := by
  rw [← Option.isSome_iff_exists, ← Option.ne_none_iff_isSome, ne_eq, ← h.get?_eq_none_iff, hview]
  exact Option.some_ne_none view

/-- The links decide the order of the views. -/
theorem walk (h : SameLinks arena arena') (id : ViewId) : arena.walk id = arena'.walk id := by
  have hwithin : ∀ depth id, arena.walkWithin depth id = arena'.walkWithin depth id := by
    intro depth
    induction depth with
    | zero => exact fun _ => rfl
    | succ depth ih =>
      intro id
      rw [walkWithin, walkWithin, contains, contains, h.size, h.children, funext ih]
  rw [Arena.walk, Arena.walk, h.size, hwithin]

end SameLinks

end Arena

end ScreenDoc
