import ScreenDoc.Proofs.Expansion.Planted

/-!
# Outlines

A tree of views without numbers. The numbers that views get when they are planted follow from the
outline alone: each view comes before those below it, and what is below one view comes before the
next view at its side.

## Main definitions

- `Outline` — a view with the views below it
- `Outline.entries` — the views in order, with their links
- `Rendered.outline` — the outline of an expanded part of the layout

## Main results

- `Linked.entries_ofRendered` — planted views are the entries of their outline
- `Arena.walk_eq_range` — an arena that holds an outline is walked in the order of the numbers
-/

namespace ScreenDoc

/-- A view with the views below it. -/
inductive Outline where
  | mk (view : View) (parts : List Outline)

namespace Outline

mutual

/-- The number of views. -/
def size : Outline → Nat
  | .mk _ parts => sizeOfAll parts + 1

/-- The number of views in several outlines. -/
def sizeOfAll : List Outline → Nat
  | [] => 0
  | first :: rest => first.size + sizeOfAll rest

end

/-- The numbers of views side by side, given that of the first one. The next view comes after all
that is below the one before it. -/
def numbers : ViewId → List Outline → List ViewId
  | _, [] => []
  | start, first :: rest => start :: numbers (start + first.size) rest

mutual

/-- The views in order, each before those below it, with their links, given the parent and the
number of the first one. -/
def entries (parent : Option ViewId) : ViewId → Outline → List Arena.Entry
  | start, .mk view parts =>
    ⟨view, parent, numbers (start + 1) parts⟩ :: entriesOfAll (some start) (start + 1) parts

/-- The views of outlines side by side, in order. -/
def entriesOfAll (parent : Option ViewId) : ViewId → List Outline → List Arena.Entry
  | _, [] => []
  | start, first :: rest =>
    entries parent start first ++ entriesOfAll parent (start + first.size) rest

end

mutual

theorem length_entries (parent : Option ViewId) :
    (start : ViewId) → (outline : Outline) → (outline.entries parent start).length = outline.size
  | start, .mk view parts => by
    have hparts := length_entriesOfAll (some start) (start + 1) parts
    rw [entries, size, List.length_cons, hparts]

theorem length_entriesOfAll (parent : Option ViewId) :
    (start : ViewId) → (outlines : List Outline) →
      (entriesOfAll parent start outlines).length = sizeOfAll outlines
  | _, [] => rfl
  | start, first :: rest => by
    have hfirst := length_entries parent start first
    have hrest := length_entriesOfAll parent (start + first.size) rest
    rw [entriesOfAll, sizeOfAll, List.length_append, hfirst, hrest]

end

end Outline

mutual

/-- An expanded part of the layout without its dependencies. -/
def Rendered.outline : Rendered → Outline
  | .mk view _ children => .mk view (Rendered.outlines children)

/-- Expanded parts of the layout without their dependencies. -/
def Rendered.outlines : List Rendered → List Outline
  | [] => []
  | first :: rest => first.outline :: Rendered.outlines rest

end

theorem Rendered.outlines_eq_map (rs : List Rendered) :
    Rendered.outlines rs = rs.map Rendered.outline := by
  induction rs with
  | nil => rfl
  | cons first rest ih => rw [outlines, ih, List.map_cons]

/-! ### Planting -/

/-- A view with more children, after those that it has. -/
def Arena.Entry.adopt (ids : List ViewId) (entry : Arena.Entry) : Arena.Entry :=
  { entry with children := entry.children ++ ids }

theorem Arena.Entry.adopt_comp_adopt (ids others : List ViewId) :
    adopt others ∘ adopt ids = adopt (ids ++ others) := by
  funext entry
  simp only [Function.comp_apply, adopt, List.append_assoc]

theorem Arena.Entry.adopt_nil : adopt [] = id := by
  funext entry
  simp only [adopt, List.append_nil, id]

section Modify

variable {α : Type}

theorem modify_append_of_lt {l : List α} (l' : List α) {i : Nat} (f : α → α) (hi : i < l.length) :
    (l ++ l').modify i f = l.modify i f ++ l' := by
  refine List.ext_getElem? fun n => ?_
  rw [List.getElem?_modify, List.getElem?_append, List.getElem?_append, List.length_modify,
    List.getElem?_modify]
  by_cases hn : n < l.length
  · rw [if_pos hn, if_pos hn]
  · have hne : i ≠ n := by omega
    rw [if_neg hn, if_neg hn]
    simp only [hne, if_false, id_map']

theorem modify_append_singleton {l : List α} (a : α) {i : Nat} (f : α → α) (hi : i = l.length) :
    (l ++ [a]).modify i f = l ++ [f a] := by
  subst hi
  induction l with
  | nil => rfl
  | cons b rest ih =>
    rw [List.cons_append, List.length_cons, List.modify_succ_cons, ih, List.cons_append]

end Modify

namespace Arena

/-- A view that was just added can be linked to each view that was there before. -/
theorem canAttach_insert {arena : Arena} {parent : ViewId} (hparent : parent < arena.size)
    (view : View) : (arena.insert view).1.canAttach parent arena.size = true := by
  have hsize : (arena.insert view).1.size = arena.size + 1 := Array.size_push _
  have hparent? : (arena.insert view).1.parent? arena.size = none := by
    rw [parent?, insert, size, Array.getElem?_push_size]
    rfl
  have hroot : arena.size ≠ root := Nat.ne_of_gt (Nat.zero_lt_of_lt hparent)
  simp only [canAttach, contains, hsize, hparent?, Option.isNone_none, Bool.and_eq_true,
    decide_eq_true_eq]
  exact ⟨⟨⟨⟨Nat.ne_of_gt hparent, Nat.lt_succ_self _⟩, trivial⟩, hroot⟩, Nat.lt_succ_of_lt hparent⟩

/-- The views of an arena, of which one has got more children. -/
def adopted (arena : Arena) (parent : ViewId) (ids : List ViewId) : List Entry :=
  arena.entries.toList.modify parent (Entry.adopt ids)

theorem length_adopted (arena : Arena) (parent : ViewId) (ids : List ViewId) :
    (arena.adopted parent ids).length = arena.size := by
  rw [adopted, List.length_modify]
  rfl

/-- A view that is added below another one comes last, and becomes its last child. -/
theorem entries_insertUnder {arena : Arena} {parent : ViewId} (hparent : parent < arena.size)
    (view : View) :
    (arena.insertUnder parent view).1.entries.toList =
      arena.adopted parent [arena.size] ++ [⟨view, some parent, []⟩] := by
  have hlast := (arena.length_adopted parent [arena.size]).symm
  rw [insertUnder]
  simp only
  rw [show (arena.insert view).2 = arena.size from rfl, attach,
    if_pos (canAttach_insert hparent view)]
  simp only [Array.toList_modify, insert, Array.toList_push]
  rw [modify_append_of_lt _ _ hparent]
  exact modify_append_singleton _ _ hlast

section Grown

variable {arena grown : Arena} {parent : ViewId} {ids : List ViewId} {added : List Entry}

theorem size_of_grown (h : grown.entries.toList = arena.adopted parent ids ++ added) :
    grown.size = arena.size + added.length := by
  have hlength := congrArg List.length h
  rw [List.length_append, length_adopted] at hlength
  exact hlength

/-- A view that has got children may get more of them. -/
theorem adopted_of_grown (h : grown.entries.toList = arena.adopted parent ids ++ added)
    (hparent : parent < arena.size) (others : List ViewId) :
    grown.adopted parent others = arena.adopted parent (ids ++ others) ++ added := by
  have hheld : parent < (arena.adopted parent ids).length := by
    rw [length_adopted]
    exact hparent
  rw [adopted, h, modify_append_of_lt _ _ hheld, adopted, List.modify_modify_eq,
    Entry.adopt_comp_adopt]
  rfl

/-- A view that was just added may get children itself. -/
theorem adopted_last_of_grown {entry : Entry}
    (h : grown.entries.toList = arena.adopted parent ids ++ [entry]) (others : List ViewId) :
    grown.adopted arena.size others = arena.adopted parent ids ++ [entry.adopt others] := by
  rw [adopted, h]
  exact modify_append_singleton _ _ (arena.length_adopted parent ids).symm

end Grown

end Arena

namespace Linked

mutual

/-- What is planted below a view comes last, and its topmost view becomes the last child. -/
theorem entries_plant : (r : Rendered) → {linked : Linked} → {parent : ViewId} →
    parent < linked.arena.size →
      (linked.plant parent r).arena.entries.toList =
        linked.arena.adopted parent [linked.arena.size] ++
          r.outline.entries (some parent) linked.arena.size
  | .mk view dependencies children, linked, parent, hparent => by
    have hinsert : (linked.insertUnder parent view dependencies).1.arena.entries.toList = _ :=
      Arena.entries_insertUnder hparent view
    have hsize := Arena.size_of_grown hinsert
    have hid : linked.arena.size < (linked.insertUnder parent view dependencies).1.arena.size :=
      Nat.lt_of_lt_of_eq (Nat.lt_succ_self _) hsize.symm
    -- The children are planted below the view that was just added.
    have hchildren := entries_plantAll children hid
    rw [Arena.adopted_last_of_grown hinsert, hsize, List.append_assoc] at hchildren
    rw [plant, Rendered.outline, Outline.entries]
    exact hchildren

theorem entries_plantAll : (rs : List Rendered) → {linked : Linked} → {parent : ViewId} →
    parent < linked.arena.size →
      (linked.plantAll parent rs).arena.entries.toList =
        linked.arena.adopted parent
          (Outline.numbers linked.arena.size (Rendered.outlines rs)) ++
          Outline.entriesOfAll (some parent) linked.arena.size (Rendered.outlines rs)
  | [], linked, parent, _ => by
    rw [plantAll, Rendered.outlines, Outline.numbers, Outline.entriesOfAll, Arena.adopted,
      Arena.Entry.adopt_nil, List.modify_id, List.append_nil]
  | first :: rest, linked, parent, hparent => by
    have hfirst := entries_plant first hparent
    have hsize := Arena.size_of_grown hfirst
    rw [Outline.length_entries] at hsize
    have hheld : parent < (linked.plant parent first).arena.size := by
      rw [hsize]
      exact Nat.lt_add_right _ hparent
    have hrest := entries_plantAll rest hheld
    rw [Arena.adopted_of_grown hfirst hparent, hsize, List.append_assoc] at hrest
    rw [plantAll, Rendered.outlines, Outline.numbers, Outline.entriesOfAll]
    exact hrest

end

/-- Planted views are the entries of their outline. -/
theorem entries_ofRendered (r : Rendered) :
    (Linked.ofRendered r).arena.entries.toList = r.outline.entries none Arena.root := by
  obtain ⟨view, dependencies, children⟩ := r
  have hroot : Arena.root < (Linked.ofRoot view dependencies).arena.size := Nat.zero_lt_one
  have hchildren := entries_plantAll children hroot
  rw [Rendered.outline, Outline.entries]
  exact hchildren

end Linked

/-! ### Walking -/

namespace Arena

/-- Whether an arena has these entries side by side, the first one under this number. -/
def Holds (arena : Arena) (start : ViewId) (entries : List Entry) : Prop :=
  ∀ n entry, entries[n]? = some entry → arena.entries[start + n]? = some entry

variable {arena : Arena} {start : ViewId}

theorem Holds.left {entries others : List Entry} (h : arena.Holds start (entries ++ others)) :
    arena.Holds start entries := by
  intro n entry hn
  have hlt : n < entries.length := (List.getElem?_eq_some_iff.1 hn).1
  exact h n entry ((List.getElem?_append_left hlt).trans hn)

theorem Holds.right {entries others : List Entry} {next : ViewId}
    (h : arena.Holds start (entries ++ others)) (hnext : next = start + entries.length) :
    arena.Holds next others := by
  intro n entry hn
  have hentry : (entries ++ others)[entries.length + n]? = some entry := by
    rw [List.getElem?_append_right (Nat.le_add_right _ _), Nat.add_sub_cancel_left, hn]
  rw [hnext, Nat.add_assoc]
  exact h _ entry hentry

mutual

/-- The views of an outline are walked in the order of their numbers. -/
theorem walkWithin_of_holds : (outline : Outline) → {parent : Option ViewId} → {start : ViewId} →
    {depth : Nat} → arena.Holds start (outline.entries parent start) → outline.size ≤ depth →
      arena.walkWithin depth start = List.range' start outline.size
  | .mk view parts, parent, start, depth, h, hdepth => by
    rw [Outline.entries] at h
    rw [Outline.size] at hdepth
    obtain ⟨depth, rfl⟩ : ∃ less, depth = less + 1 := ⟨depth - 1, by omega⟩
    have hentry : arena.entries[start]? =
        some ⟨view, parent, Outline.numbers (start + 1) parts⟩ := h 0 _ rfl
    have hcontains : arena.contains start = true :=
      decide_eq_true (Array.getElem?_eq_some_iff.1 hentry).1
    have hchildren : arena.children start = Outline.numbers (start + 1) parts := by
      rw [children, hentry]
    have hentries : arena.Holds start ([⟨view, parent, Outline.numbers (start + 1) parts⟩] ++
        Outline.entriesOfAll (some start) (start + 1) parts) := h
    -- What is below the view lies right behind it, and one level of depth is used up.
    have hparts : arena.Holds (start + 1) (Outline.entriesOfAll (some start) (start + 1) parts) :=
      hentries.right rfl
    have hbelow := flatMap_walkWithin parts hparts (Nat.le_of_succ_le_succ hdepth)
    rw [walkWithin, if_pos hcontains, hchildren, hbelow, Outline.size, List.range'_succ]

theorem flatMap_walkWithin : (outlines : List Outline) → {parent : Option ViewId} →
    {start : ViewId} → {depth : Nat} →
      arena.Holds start (Outline.entriesOfAll parent start outlines) →
        Outline.sizeOfAll outlines ≤ depth →
          (Outline.numbers start outlines).flatMap (arena.walkWithin depth) =
            List.range' start (Outline.sizeOfAll outlines)
  | [], _, _, _, _, _ => rfl
  | first :: rest, parent, start, depth, h, hdepth => by
    rw [Outline.entriesOfAll] at h
    rw [Outline.sizeOfAll] at hdepth
    have hfirst := walkWithin_of_holds first h.left (Nat.le_of_add_right_le hdepth)
    have hrest := flatMap_walkWithin rest
      (h.right (congrArg (start + ·) (Outline.length_entries parent start first).symm))
      (Nat.le_trans (Nat.le_add_left _ _) hdepth)
    rw [Outline.numbers, List.flatMap_cons, hfirst, hrest, Outline.sizeOfAll, List.range'_append_1]

end

/-- An arena that holds an outline is walked in the order of the numbers, so no view is left out. -/
theorem walk_eq_range {outline : Outline} (h : arena.entries.toList = outline.entries none root) :
    arena.walk root = List.range arena.size := by
  have hsize : arena.size = outline.size := by
    rw [size, ← Array.length_toList, h, Outline.length_entries]
  have hholds : arena.Holds root (outline.entries none root) := by
    intro n entry hn
    rw [← h, Array.getElem?_toList] at hn
    rw [show root + n = n from Nat.zero_add n]
    exact hn
  rw [walk, walkWithin_of_holds outline hholds (Nat.le_of_eq hsize.symm), hsize,
    List.range_eq_range']
  rfl

end Arena

end ScreenDoc
