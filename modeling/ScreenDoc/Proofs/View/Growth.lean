import Mathlib.Data.List.Nodup
import Mathlib.Data.List.Perm.Subperm
import Mathlib.Logic.Relation
import ScreenDoc.Proofs.View.Outline

/-!
# Arenas that grow

Views are added to an arena and linked to each other, in any order. A view is linked once at most,
and no link leads up from the root. So the views from which the parents lead to the root form a
tree, also where other views have been linked in a circle.

## Main definitions

- `Arena.Edit`, `Arena.editAll` — calls that add and link views
- `Arena.linksOf` — the links that calls make, in order
- `Arena.IsLinkedBy` — the links of an arena are those of a list
- `Arena.LeadsTo`, `Arena.Climbs` — the way up from a view
- `Arena.Preorder` — the views below some views, each before its children
- `Arena.Visits` — the traversal with a stack
- `Arena.IsTree` — the part of an arena under the root is a tree

## Main results

- `Arena.isLinkedBy_editAll` — the links of an arena are those that its history made
- `Arena.preorder_walkWithin` — the walk lists the views below a view that leads to the root
- `Arena.Preorder.visits` — the traversal with a stack lists views in their pre-order
- `Arena.IsLinkedBy.isTree` — the part under the root is a tree

## Design notes

A view under the root is at a certain height, the number of its ancestors. It grows along the links,
and it is less than the number of views because no ancestor comes twice. That bounds the walk, which
the traversal with a stack is not: below views that are linked in a circle it would never end.
-/

namespace ScreenDoc

namespace Arena

/-! ### Histories -/

/-- A call that adds a view or links views. -/
inductive Edit where
  | insert (view : View)
  | attach (parent child : ViewId)
  | insertUnder (parent : ViewId) (view : View)

/-- The arena after a call. -/
def edit (arena : Arena) : Edit → Arena
  | .insert view => (arena.insert view).1
  | .attach parent child => (arena.attach parent child).1
  | .insertUnder parent view => (arena.insertUnder parent view).1

/-- The arena after some calls. -/
def editAll (arena : Arena) (edits : List Edit) : Arena :=
  edits.foldl edit arena

/-- The link that a call makes, from a parent to its child. -/
def Edit.link? (arena : Arena) : Edit → Option (ViewId × ViewId)
  | .insert _ => none
  | .attach parent child => if (arena.attach parent child).2 then some (parent, child) else none
  | .insertUnder parent _ => if arena.contains parent then some (parent, arena.size) else none

/-- The links that some calls make, in order. -/
def linksOf : Arena → List Edit → List (ViewId × ViewId)
  | _, [] => []
  | arena, first :: rest => (first.link? arena).toList ++ linksOf (arena.edit first) rest

/-- The children that some links give to a view, in order. -/
def childrenBy (links : List (ViewId × ViewId)) (parent : ViewId) : List ViewId :=
  (links.filter fun link => link.1 = parent).map Prod.snd

theorem childrenBy_append (links others : List (ViewId × ViewId)) (parent : ViewId) :
    childrenBy (links ++ others) parent = childrenBy links parent ++ childrenBy others parent := by
  rw [childrenBy, List.filter_append, List.map_append, ← childrenBy, ← childrenBy]

theorem mem_childrenBy {links : List (ViewId × ViewId)} {parent child : ViewId} :
    child ∈ childrenBy links parent ↔ (parent, child) ∈ links := by
  simp [childrenBy]

/-! ### What a call does to the links -/

variable {arena : Arena}

theorem size_insert (arena : Arena) (view : View) : (arena.insert view).1.size = arena.size + 1 :=
  Array.size_push _

theorem children_insert (arena : Arena) (view : View) (n : ViewId) :
    (arena.insert view).1.children n = arena.children n := by
  rw [children, children, insert, Array.getElem?_push]
  by_cases hn : n = arena.entries.size
  · rw [if_pos hn, hn, Array.getElem?_size]
  · rw [if_neg hn]

theorem parent?_insert (arena : Arena) (view : View) (n : ViewId) :
    (arena.insert view).1.parent? n = arena.parent? n := by
  rw [parent?, parent?, insert, Array.getElem?_push]
  by_cases hn : n = arena.entries.size
  · rw [if_pos hn, hn, Array.getElem?_size]
    rfl
  · rw [if_neg hn]

theorem canAttach_iff {parent child : ViewId} :
    arena.canAttach parent child = true ↔
      child ≠ parent ∧ child < arena.size ∧ arena.parent? child = none ∧ child ≠ root ∧
        parent < arena.size := by
  simp only [canAttach, contains, Bool.and_eq_true, decide_eq_true_eq, Option.isNone_iff_eq_none,
    and_assoc]

theorem attach_eq_self {parent child : ViewId} (h : arena.canAttach parent child = false) :
    arena.attach parent child = (arena, false) := by
  rw [attach, h]
  rfl

section Attached

variable {parent child : ViewId} (h : arena.canAttach parent child = true)
include h

theorem size_attach : (arena.attach parent child).1.size = arena.size := by
  rw [attach, if_pos h, size, Array.size_modify, Array.size_modify, size]

theorem children_attach (n : ViewId) :
    (arena.attach parent child).1.children n =
      arena.children n ++ if parent = n then [child] else [] := by
  obtain ⟨hne, -, -, -, hparent⟩ := canAttach_iff.1 h
  rw [attach, if_pos h, children, children]
  simp only [Array.getElem?_modify]
  by_cases hn : parent = n
  · subst hn
    have hheld : arena.entries[parent]? = some arena.entries[parent] :=
      Array.getElem?_eq_getElem hparent
    simp only [hne, if_false, if_true, hheld, Option.map_some]
  · by_cases hchild : child = n
    · simp only [hn, hchild, if_false, if_true, List.append_nil]
      cases arena.entries[n]? <;> rfl
    · simp only [hn, hchild, if_false, List.append_nil]

theorem parent?_attach (n : ViewId) :
    (arena.attach parent child).1.parent? n =
      if child = n then some parent else arena.parent? n := by
  obtain ⟨hne, hchild, -, -, -⟩ := canAttach_iff.1 h
  rw [attach, if_pos h, parent?, parent?]
  simp only [Array.getElem?_modify]
  by_cases hn : child = n
  · subst hn
    have hheld : arena.entries[child]? = some arena.entries[child] :=
      Array.getElem?_eq_getElem hchild
    simp only [Ne.symm hne, if_false, if_true, hheld, Option.map_some, Option.bind_some]
  · by_cases hparent : parent = n
    · simp only [hn, hparent, if_false, if_true]
      cases arena.entries[n]? <;> rfl
    · simp only [hn, hparent, if_false]

end Attached

/-- Whether the links of an arena are those of a list, in which no view is linked up twice and the
root never is. -/
structure IsLinkedBy (arena : Arena) (links : List (ViewId × ViewId)) : Prop where
  children : ∀ n, arena.children n = childrenBy links n
  parent? : ∀ {parent child}, arena.parent? child = some parent ↔ (parent, child) ∈ links
  nodup : (links.map Prod.snd).Nodup
  rootless : ∀ link ∈ links, link.2 ≠ root
  held : ∀ link ∈ links, link.1 < arena.size ∧ link.2 < arena.size
  nonempty : 0 < arena.size

namespace IsLinkedBy

variable {links : List (ViewId × ViewId)}

theorem ofRoot (view : View) : (Arena.ofRoot view).IsLinkedBy [] where
  children n := by cases n <;> rfl
  parent? {_ child} := by cases child <;> simp [Arena.parent?, Arena.ofRoot]
  nodup := List.nodup_nil
  rootless _ hlink := absurd hlink List.not_mem_nil
  held _ hlink := absurd hlink List.not_mem_nil
  nonempty := Nat.zero_lt_one

theorem insert (h : arena.IsLinkedBy links) (view : View) :
    (arena.insert view).1.IsLinkedBy links where
  children n := (children_insert arena view n).trans (h.children n)
  parent? := by
    intro parent child
    rw [parent?_insert]
    exact h.parent?
  nodup := h.nodup
  rootless := h.rootless
  held link hlink := by
    obtain ⟨hparent, hchild⟩ := h.held link hlink
    rw [size_insert]
    exact ⟨Nat.lt_succ_of_lt hparent, Nat.lt_succ_of_lt hchild⟩
  nonempty := by
    rw [size_insert]
    exact Nat.succ_pos _

/-- A view that has no parent gets one, as its last child. -/
theorem attach (h : arena.IsLinkedBy links) {parent child : ViewId}
    (hcan : arena.canAttach parent child = true) :
    (arena.attach parent child).1.IsLinkedBy (links ++ [(parent, child)]) := by
  obtain ⟨-, hchild, horphan, hroot, hparent⟩ := canAttach_iff.1 hcan
  -- The child is not linked yet.
  have hnew : child ∉ links.map Prod.snd := by
    intro hmem
    obtain ⟨⟨other, _⟩, hlink, rfl⟩ := List.mem_map.1 hmem
    rw [h.parent?.2 hlink] at horphan
    cases horphan
  refine ⟨?_, ?_, ?_, ?_, ?_, ?_⟩
  · intro n
    rw [children_attach hcan, h.children, childrenBy_append]
    congr 1
    by_cases hn : parent = n <;> simp [childrenBy, hn]
  · intro other n
    rw [parent?_attach hcan, List.mem_append, List.mem_singleton, Prod.mk.injEq]
    by_cases hn : child = n
    · subst hn
      have hnone : (other, child) ∉ links := fun hlink => hnew (List.mem_map_of_mem hlink)
      rw [if_pos rfl, Option.some.injEq, and_iff_left rfl, or_iff_right hnone, eq_comm]
    · rw [if_neg hn, h.parent?, or_iff_left fun heq => hn heq.2.symm]
  · rw [List.map_append, List.map_singleton]
    refine List.nodup_append.2 ⟨h.nodup, List.nodup_singleton _, ?_⟩
    intro a ha b hb heq
    rw [List.mem_singleton] at hb
    rw [heq, hb] at ha
    exact hnew ha
  · intro link hlink
    rcases List.mem_append.1 hlink with hlink | hlink
    · exact h.rootless link hlink
    · rw [List.mem_singleton.1 hlink]
      exact hroot
  · intro link hlink
    rw [size_attach hcan]
    rcases List.mem_append.1 hlink with hlink | hlink
    · exact h.held link hlink
    · rw [List.mem_singleton.1 hlink]
      exact ⟨hparent, hchild⟩
  · rw [size_attach hcan]
    exact h.nonempty

/-- A call adds its link at the end. -/
theorem edit (h : arena.IsLinkedBy links) (call : Edit) :
    (arena.edit call).IsLinkedBy (links ++ (call.link? arena).toList) := by
  cases call with
  | insert view =>
    rw [Edit.link?, Option.toList_none, List.append_nil]
    exact h.insert view
  | attach parent child =>
    rw [Edit.link?, Arena.edit]
    cases hcan : arena.canAttach parent child with
    | false =>
      rw [attach_eq_self hcan, if_neg Bool.false_ne_true, Option.toList_none, List.append_nil]
      exact h
    | true =>
      have hdone : (arena.attach parent child).2 = true := by rw [Arena.attach, if_pos hcan]
      rw [hdone, if_pos rfl, Option.toList_some]
      exact h.attach hcan
  | insertUnder parent view =>
    rw [Edit.link?, Arena.edit, Arena.insertUnder]
    by_cases hparent : parent < arena.size
    · rw [contains, if_pos (decide_eq_true hparent), Option.toList_some]
      exact (h.insert view).attach (canAttach_insert hparent view)
    · -- The view that is added last is no parent of itself.
      have hcan : (arena.insert view).1.canAttach parent arena.size = false := by
        rw [← Bool.not_eq_true, canAttach_iff, size_insert]
        rintro ⟨hne, -, -, -, hlt⟩
        exact hne (Nat.le_antisymm (Nat.le_of_not_lt hparent) (Nat.le_of_lt_succ hlt))
      have hsame : (arena.insert view).1.attach parent (arena.insert view).2 =
        ((arena.insert view).1, false) := attach_eq_self hcan
      rw [contains, decide_eq_false hparent, if_neg Bool.false_ne_true, Option.toList_none,
        List.append_nil]
      simp only [hsame]
      exact h.insert view

end IsLinkedBy

/-- The links of an arena are those that its history made. -/
theorem isLinkedBy_editAll {links : List (ViewId × ViewId)} (h : arena.IsLinkedBy links)
    (edits : List Edit) : (arena.editAll edits).IsLinkedBy (links ++ arena.linksOf edits) := by
  induction edits generalizing arena links with
  | nil =>
    rw [linksOf, List.append_nil]
    exact h
  | cons first rest ih =>
    rw [linksOf, ← List.append_assoc]
    exact ih (h.edit first)

/-! ### The way up -/

/-- Whether the parents of a view lead to another one. -/
def LeadsTo (arena : Arena) : ViewId → ViewId → Prop :=
  Relation.ReflTransGen fun child parent => arena.parent? child = some parent

/-- Whether the parents of a view end, and which they are, the nearest first. -/
inductive Climbs (arena : Arena) : ViewId → List ViewId → Prop where
  | top {id : ViewId} (h : arena.parent? id = none) : Climbs arena id []
  | up {id parent : ViewId} {above : List ViewId} (h : arena.parent? id = some parent)
      (habove : Climbs arena parent above) : Climbs arena id (parent :: above)

theorem LeadsTo.total {a b c : ViewId} (hb : arena.LeadsTo a b) (hc : arena.LeadsTo a c) :
    arena.LeadsTo b c ∨ arena.LeadsTo c b :=
  Relation.ReflTransGen.total_of_right_unique
    (fun _ _ _ h h' => Option.some.inj (h.symm.trans h')) hb hc

theorem leadsTo_iff {a b : ViewId} :
    arena.LeadsTo a b ↔ a = b ∨ ∃ child, arena.parent? child = some b ∧ arena.LeadsTo a child := by
  rw [LeadsTo, Relation.ReflTransGen.cases_tail_iff, eq_comm]
  exact or_congr_right (exists_congr fun _ => and_comm)

namespace Climbs

variable {id other : ViewId} {above above' : List ViewId}

theorem unique (h : arena.Climbs id above) (h' : arena.Climbs id above') : above = above' := by
  induction h generalizing above' with
  | top hnone =>
    cases h' with
    | top => rfl
    | up hsome => cases hnone.symm.trans hsome
  | up hsome _ ih =>
    cases h' with
    | top hnone => cases hnone.symm.trans hsome
    | up hsome' habove' =>
      obtain rfl := Option.some.inj (hsome.symm.trans hsome')
      rw [ih habove']

/-- Views on the way up have fewer ancestors. -/
theorem eq_or_length_lt (h : arena.Climbs id above) (hlead : arena.LeadsTo id other)
    (hother : arena.Climbs other above') : id = other ∨ above'.length < above.length := by
  induction hlead using Relation.ReflTransGen.head_induction_on generalizing above with
  | refl => exact .inl rfl
  | head hparent _ ih =>
    refine .inr ?_
    cases h with
    | top hnone => cases hnone.symm.trans hparent
    | up hparent' habove =>
      obtain rfl := Option.some.inj (hparent.symm.trans hparent')
      rw [List.length_cons, Nat.lt_succ_iff]
      rcases ih habove with rfl | hlt
      · rw [habove.unique hother]
      · exact Nat.le_of_lt hlt

theorem length_le (h : arena.Climbs id above) (hlead : arena.LeadsTo id other)
    (hother : arena.Climbs other above') : above'.length ≤ above.length := by
  rcases h.eq_or_length_lt hlead hother with rfl | hlt
  · rw [h.unique hother]
  · exact Nat.le_of_lt hlt

theorem exists_of_mem (h : arena.Climbs id above) (hmem : other ∈ above) :
    ∃ below, arena.Climbs other below ∧ below.length < above.length := by
  induction h with
  | top => cases hmem
  | @up id parent above hparent habove ih =>
    rcases List.mem_cons.1 hmem with rfl | hmem
    · exact ⟨above, habove, Nat.lt_succ_self _⟩
    · obtain ⟨below, hbelow, hlt⟩ := ih hmem
      exact ⟨below, hbelow, Nat.lt_succ_of_lt hlt⟩

/-- No view is above itself. -/
theorem nodup (h : arena.Climbs id above) : (id :: above).Nodup := by
  have hself : ∀ {id above}, arena.Climbs id above → id ∉ above := by
    intro id above h hmem
    obtain ⟨below, hbelow, hlt⟩ := h.exists_of_mem hmem
    exact Nat.lt_irrefl _ (h.unique hbelow ▸ hlt)
  refine List.nodup_cons.2 ⟨hself h, ?_⟩
  induction h with
  | top => exact List.nodup_nil
  | up _ habove ih => exact List.nodup_cons.2 ⟨hself habove, ih⟩

theorem ancestorsWithin_eq (h : arena.Climbs id above) {steps : Nat}
    (hsteps : above.length ≤ steps) : arena.ancestorsWithin steps id = above := by
  induction h generalizing steps with
  | top hnone =>
    cases steps with
    | zero => rfl
    | succ steps => rw [ancestorsWithin, hnone]
  | up hparent _ ih =>
    cases steps with
    | zero => cases hsteps
    | succ steps =>
      rw [ancestorsWithin, hparent]
      exact congrArg _ (ih (Nat.le_of_succ_le_succ hsteps))

end Climbs

section Linked

variable {links : List (ViewId × ViewId)} {id : ViewId} {above : List ViewId}

theorem IsLinkedBy.parent_root (h : arena.IsLinkedBy links) : arena.parent? root = none := by
  cases hparent : arena.parent? root with
  | none => rfl
  | some parent => exact absurd rfl (h.rootless _ (h.parent?.1 hparent))

theorem IsLinkedBy.mem_children_iff (h : arena.IsLinkedBy links) {parent child : ViewId} :
    child ∈ arena.children parent ↔ arena.parent? child = some parent := by
  rw [h.children, mem_childrenBy, h.parent?]

theorem IsLinkedBy.nodup_children (h : arena.IsLinkedBy links) (parent : ViewId) :
    (arena.children parent).Nodup := by
  rw [h.children]
  exact h.nodup.sublist (List.filter_sublist.map _)

/-- The way up from a view under the root ends there. -/
theorem IsLinkedBy.climbs (h : arena.IsLinkedBy links) (hlead : arena.LeadsTo id root) :
    ∃ above, arena.Climbs id above ∧ (id :: above).getLast? = some root := by
  induction hlead using Relation.ReflTransGen.head_induction_on with
  | refl => exact ⟨[], .top h.parent_root, rfl⟩
  | head hparent _ ih =>
    obtain ⟨above, habove, hlast⟩ := ih
    exact ⟨_, .up hparent habove, by rw [List.getLast?_cons_cons, hlast]⟩

/-- A view has fewer ancestors than there are views. -/
theorem Climbs.length_lt_size (hclimbs : arena.Climbs id above) (h : arena.IsLinkedBy links)
    (hid : id < arena.size) : above.length < arena.size := by
  have hheld : ∀ {id above}, arena.Climbs id above → ∀ n ∈ above, n < arena.size := by
    intro id above hclimbs
    induction hclimbs with
    | top => exact fun _ hmem => absurd hmem List.not_mem_nil
    | up hparent _ ih =>
      exact List.forall_mem_cons.2 ⟨(h.held _ (h.parent?.1 hparent)).1, ih⟩
  have hsub : id :: above ⊆ List.range arena.size := by
    intro n hn
    rcases List.mem_cons.1 hn with rfl | hn
    · exact List.mem_range.2 hid
    · exact List.mem_range.2 (hheld hclimbs n hn)
  have hlength := (hclimbs.nodup.subperm hsub).length_le
  rwa [List.length_range] at hlength

end Linked

/-! ### Pre-order -/

/-- Whether a list has some views side by side in order, each one directly before the views below
it. -/
inductive Preorder (arena : Arena) : List ViewId → List ViewId → Prop where
  | nil : Preorder arena [] []
  | cons {id : ViewId} {rest below others : List ViewId} (hid : arena.contains id = true)
      (hbelow : Preorder arena (arena.children id) below) (hothers : Preorder arena rest others) :
      Preorder arena (id :: rest) (id :: below ++ others)

/-- The state of the traversal with a stack. -/
structure Visit where
  /-- The views that are still to be visited, the next one first. -/
  stack : List ViewId
  listed : List ViewId

/-- One round of the traversal, if there is a view to visit: it is listed, and its children take its
place on the stack. What is no view is dropped. -/
def Visit.next? (arena : Arena) : Visit → Option Visit
  | ⟨[], _⟩ => none
  | ⟨id :: rest, listed⟩ =>
    if arena.contains id then some ⟨arena.children id ++ rest, listed ++ [id]⟩
    else some ⟨rest, listed⟩

/-- Whether the traversal gets from one state to another one. -/
def Visit.Passes (arena : Arena) : Visit → Visit → Prop :=
  Relation.ReflTransGen fun visit next => visit.next? arena = some next

/-- Whether the traversal from a view ends, and which views it lists. -/
def Visits (arena : Arena) (start : ViewId) (listed : List ViewId) : Prop :=
  Visit.Passes arena ⟨[start], []⟩ ⟨[], listed⟩

namespace Preorder

variable {ids ids' listed listed' : List ViewId}

theorem append (h : arena.Preorder ids listed) (h' : arena.Preorder ids' listed') :
    arena.Preorder (ids ++ ids') (listed ++ listed') := by
  induction h with
  | nil => exact h'
  | cons hid hbelow _ _ ih =>
    rw [List.cons_append, List.append_assoc]
    exact .cons hid hbelow ih

theorem flatMap {walk : ViewId → List ViewId} (h : ∀ id ∈ ids, arena.Preorder [id] (walk id)) :
    arena.Preorder ids (ids.flatMap walk) := by
  induction ids with
  | nil => exact .nil
  | cons id rest ih =>
    rw [List.flatMap_cons]
    exact (h id List.mem_cons_self).append (ih fun other hother => h other (.tail _ hother))

/-- The traversal takes the views below a view from the stack before it goes on with the others. -/
theorem passes (h : arena.Preorder ids listed) (rest done : List ViewId) :
    Visit.Passes arena ⟨ids ++ rest, done⟩ ⟨rest, done ++ listed⟩ := by
  induction h generalizing rest done with
  | nil =>
    rw [List.append_nil]
    exact .refl
  | @cons id siblings below others hid _ _ ihbelow ihothers =>
    have hnext : Visit.next? arena ⟨id :: (siblings ++ rest), done⟩ =
        some ⟨arena.children id ++ (siblings ++ rest), done ++ [id]⟩ := if_pos hid
    have hbelow := ihbelow (siblings ++ rest) (done ++ [id])
    have hothers := ihothers rest (done ++ [id] ++ below)
    have hall : done ++ [id] ++ below ++ others = done ++ (id :: below ++ others) := by
      simp only [List.append_assoc, List.cons_append, List.nil_append]
    rw [hall] at hothers
    exact .head hnext (hbelow.trans hothers)

theorem visits {id : ViewId} (h : arena.Preorder [id] listed) : arena.Visits id listed :=
  h.passes [] []

section Linked

variable {links : List (ViewId × ViewId)} (hlinks : arena.IsLinkedBy links)
include hlinks

/-- Below some views are those that lead up to one of them. -/
theorem mem_iff (h : arena.Preorder ids listed) {n : ViewId} :
    n ∈ listed ↔ ∃ id ∈ ids, arena.LeadsTo n id := by
  induction h with
  | nil => simp
  | @cons id rest below others _ _ _ ihbelow ihothers =>
    have hself : arena.LeadsTo n id ↔ n = id ∨ n ∈ below := by
      rw [leadsTo_iff, ihbelow]
      refine or_congr_right (exists_congr fun child => and_congr_left fun _ => ?_)
      exact hlinks.mem_children_iff.symm
    rw [List.exists_mem_cons_iff, hself, ← ihothers, List.mem_append, List.mem_cons]

/-- Views side by side have no view below them in common. -/
theorem nodup {above : List ViewId} (h : arena.Preorder ids listed) (hids : ids.Nodup)
    (hclimbs : ∀ id ∈ ids, arena.Climbs id above) : listed.Nodup := by
  induction h generalizing above with
  | nil => exact List.nodup_nil
  | @cons id rest below others _ hbelow hothers ihbelow ihothers =>
    obtain ⟨hnew, hrest⟩ := List.nodup_cons.1 hids
    have hid := hclimbs id List.mem_cons_self
    have hchild : ∀ child ∈ arena.children id, arena.Climbs child (id :: above) :=
      fun child hmem => .up (hlinks.mem_children_iff.1 hmem) hid
    -- No other view at the side leads up to this one, nor this one to it: both are equally high.
    have hother : ∀ other ∈ rest, ∀ n, arena.LeadsTo n id → ¬ arena.LeadsTo n other := by
      intro other hmem n hlead hlead'
      have hclimbs' := hclimbs other (List.mem_cons_of_mem _ hmem)
      have hsame : id = other := by
        rcases hlead.total hlead' with hlead | hlead
        · exact (hid.eq_or_length_lt hlead hclimbs').resolve_right (Nat.lt_irrefl _)
        · exact ((hclimbs'.eq_or_length_lt hlead hid).resolve_right (Nat.lt_irrefl _)).symm
      exact hnew (hsame ▸ hmem)
    have hup : ∀ n ∈ below, arena.LeadsTo n id ∧ n ≠ id := by
      intro n hn
      obtain ⟨child, hmem, hlead⟩ := (hbelow.mem_iff hlinks).1 hn
      refine ⟨hlead.tail (hlinks.mem_children_iff.1 hmem), ?_⟩
      rintro rfl
      exact Nat.not_succ_le_self _ (hid.length_le hlead (hchild child hmem))
    have houtside : ∀ n ∈ others, ¬ arena.LeadsTo n id := by
      intro n hn hlead
      obtain ⟨other, hmem, hlead'⟩ := (hothers.mem_iff hlinks).1 hn
      exact hother other hmem n hlead hlead'
    rw [List.cons_append, List.nodup_cons, List.mem_append, List.nodup_append]
    refine ⟨?_, ihbelow (hlinks.nodup_children id) hchild,
      ihothers hrest fun other hmem => hclimbs other (List.mem_cons_of_mem _ hmem), ?_⟩
    · rintro (hmem | hmem)
      · exact (hup id hmem).2 rfl
      · exact houtside id hmem .refl
    · rintro n hn _ hn' rfl
      exact houtside n hn' (hup n hn).1

end Linked

end Preorder

/-- The walk lists the views below a view in their pre-order, as deep as there are ancestors
missing. -/
theorem preorder_walkWithin {links : List (ViewId × ViewId)} (h : arena.IsLinkedBy links)
    {depth : Nat} {id : ViewId} {above : List ViewId} (hclimbs : arena.Climbs id above)
    (hid : id < arena.size) (hdepth : arena.size ≤ above.length + depth) :
    arena.Preorder [id] (arena.walkWithin depth id) := by
  induction depth generalizing id above with
  | zero => exact absurd (hclimbs.length_lt_size h hid) (Nat.not_lt_of_le hdepth)
  | succ depth ih =>
    have hcontains : arena.contains id = true := decide_eq_true hid
    have hbelow : arena.Preorder (arena.children id)
        ((arena.children id).flatMap (arena.walkWithin depth)) := by
      refine .flatMap fun child hmem => ?_
      have hparent := h.mem_children_iff.1 hmem
      refine ih (.up hparent hclimbs) (h.held _ (h.parent?.1 hparent)).2 ?_
      rw [List.length_cons, Nat.add_right_comm]
      exact hdepth
    have hwalk := Preorder.cons hcontains hbelow .nil
    rw [List.append_nil] at hwalk
    rw [walkWithin, if_pos hcontains]
    exact hwalk

/-! ### The tree under the root -/

/-- Whether the part of an arena under the root is a tree, given the links that have been made. -/
structure IsTree (arena : Arena) (links : List (ViewId × ViewId)) : Prop where
  /-- The root never has a parent. -/
  parent_root : arena.parent? root = none
  /-- No view is a child of two views. -/
  parent_unique : ∀ {parent other child}, child ∈ arena.children parent →
    child ∈ arena.children other → parent = other
  /-- A view is a child of its parent, once, and of no other view. -/
  count_children : ∀ parent child, (arena.children parent).count child =
    if arena.parent? child = some parent then 1 else 0
  /-- Children are in the order in which they were linked. -/
  children : ∀ parent, arena.children parent = childrenBy links parent
  /-- The traversal from the root ends, and lists the walk. -/
  visits : arena.Visits root (arena.walk root)
  /-- In the walk each view comes directly before the views below it. -/
  preorder : arena.Preorder [root] (arena.walk root)
  /-- No view comes twice in the walk. -/
  nodup : (arena.walk root).Nodup
  /-- The walk has the views from which the parents lead to the root. -/
  mem_walk : ∀ id, id ∈ arena.walk root ↔ arena.LeadsTo id root

theorem IsLinkedBy.isTree {links : List (ViewId × ViewId)} (h : arena.IsLinkedBy links) :
    arena.IsTree links := by
  have hroot : arena.Climbs root [] := .top h.parent_root
  have hpreorder : arena.Preorder [root] (arena.walk root) :=
    preorder_walkWithin h hroot h.nonempty (Nat.le_of_eq (Nat.zero_add _).symm)
  refine ⟨h.parent_root, ?_, ?_, h.children, hpreorder.visits, hpreorder, ?_, ?_⟩
  · intro parent other child hmem hmem'
    exact Option.some.inj ((h.mem_children_iff.1 hmem).symm.trans (h.mem_children_iff.1 hmem'))
  · intro parent child
    rw [List.Nodup.count (h.nodup_children parent)]
    simp only [h.mem_children_iff]
  · exact hpreorder.nodup h (List.nodup_singleton _) (List.forall_mem_singleton.2 hroot)
  · intro id
    rw [hpreorder.mem_iff h]
    simp

/-- Two views that are linked in a circle are not under the root. -/
example :
    let view : View := .plainContainer .plain
    let arena := (ofRoot view).editAll
      [.insert view, .insert view, .attach 1 2, .attach 2 1, .insertUnder 0 view]
    arena.children 1 = [2] ∧ arena.children 2 = [1] ∧ arena.walk root = [0, 3] := by
  decide +kernel

/-- The ancestors of a view under the root are listed up to the root. -/
theorem IsLinkedBy.ancestors {links : List (ViewId × ViewId)} (h : arena.IsLinkedBy links)
    {id : ViewId} (hid : id < arena.size) (hlead : arena.LeadsTo id root) :
    arena.Climbs id (arena.ancestors id) ∧ (id :: arena.ancestors id).getLast? = some root := by
  obtain ⟨above, hclimbs, hlast⟩ := h.climbs hlead
  have hlength := hclimbs.length_lt_size h hid
  rw [Arena.ancestors, hclimbs.ancestorsWithin_eq (Nat.le_of_lt hlength)]
  exact ⟨hclimbs, hlast⟩

end Arena

end ScreenDoc
