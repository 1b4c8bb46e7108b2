import ScreenDoc.Proofs.Expansion.Planted
import ScreenDoc.Proofs.View.Growth

/-!
# The records of planted views

The index of a planted expansion holds exactly what its views depend on: under the number of a view
are its own dependencies, those that lead into the state, each once and in order.

## Main definitions

- `Dependency.recorded` — what the index keeps of the dependencies of a view
- `Rendered.ledger` — the dependencies of all views, in the order of the numbers
- `Linked.Keeps` — linked views whose index keeps a ledger

## Main results

- `Linked.Keeps.plant` — what is planted comes at the end of the ledger
- `Linked.keeps_ofRendered` — a planted expansion keeps its ledger
-/

namespace ScreenDoc

/-! ### One view -/

/-- What the index keeps of the dependencies of a view: those that lead into the state, each once
and in the order in which they were noted. -/
def Dependency.recorded (dependencies : List Dependency) : List Dependency :=
  (dependencies.filter fun d => d.path.firstKey?.isSome).eraseDups

theorem Dependency.recorded_append_singleton (dependencies : List Dependency) (d : Dependency) :
    recorded (dependencies ++ [d]) =
      if d.path.firstKey?.isSome ∧ d ∉ recorded dependencies then recorded dependencies ++ [d]
      else recorded dependencies := by
  rw [recorded, recorded, List.filter_append, List.filter_singleton]
  cases d.path.firstKey?.isSome with
  | true =>
    simp only [true_and, List.mem_eraseDups, ite_not]
    exact EraseDups.eraseDups_append_singleton _ d
  | false =>
    simp only [Bool.false_eq_true, false_and, if_false]
    exact congrArg List.eraseDups (List.append_nil _)

namespace DependencyIndex

theorem dependenciesOf_insert (index : DependencyIndex) (view other : ViewId) (d : Dependency) :
    (index.insert view d).dependenciesOf other =
      if view = other ∧ d.path.firstKey?.isSome ∧ d ∉ index.dependenciesOf view then
        index.dependenciesOf other ++ [d]
      else index.dependenciesOf other := by
  unfold insert
  split
  · next hroot => simp [hroot]
  · next root hroot =>
    split
    · next hmem =>
      have hheld : d ∈ index.dependenciesOf view := List.contains_iff_mem.1 hmem
      simp [hheld]
    · next hmem =>
      have hnew : d ∉ index.dependenciesOf view := fun h => hmem (List.contains_iff_mem.2 h)
      rw [dependenciesOf, ViewGroups.group_put, ← dependenciesOf, ← dependenciesOf]
      by_cases hview : view = other
      · subst hview
        simp [hroot, hnew]
      · simp [hview]

/-- More dependencies of a view are recorded behind those that it has. -/
theorem dependenciesOf_insertAll {index : DependencyIndex} {view : ViewId}
    {earlier dependencies : List Dependency}
    (h : index.dependenciesOf view = Dependency.recorded earlier) (other : ViewId) :
    (index.insertAll view dependencies).dependenciesOf other =
      if view = other then Dependency.recorded (earlier ++ dependencies)
      else index.dependenciesOf other := by
  induction dependencies generalizing index earlier with
  | nil =>
    by_cases hview : view = other
    · rw [if_pos hview, ← hview, List.append_nil]
      exact h
    · rw [if_neg hview]
      rfl
  | cons d rest ih =>
    have hfirst : (index.insert view d).dependenciesOf view =
        Dependency.recorded (earlier ++ [d]) := by
      rw [dependenciesOf_insert, Dependency.recorded_append_singleton, h]
      simp only [true_and]
    rw [insertAll, List.foldl_cons, ← insertAll, ih hfirst, List.append_assoc]
    by_cases hview : view = other
    · rw [if_pos hview, if_pos hview]
      rfl
    · rw [if_neg hview, if_neg hview, dependenciesOf_insert, if_neg fun hboth => hview hboth.1]

end DependencyIndex

/-! ### All views -/

mutual

/-- The dependencies of the views of an expansion, each view before those below it. -/
def Rendered.ledger : Rendered → List (List Dependency)
  | .mk _ dependencies children => dependencies :: Rendered.ledgerOfAll children

/-- The dependencies of the views of expansions side by side, in order. -/
def Rendered.ledgerOfAll : List Rendered → List (List Dependency)
  | [] => []
  | first :: rest => Rendered.ledger first ++ Rendered.ledgerOfAll rest

end

/-- There is one more view, whether or not it could be linked. -/
theorem Arena.size_insertUnder (arena : Arena) (parent : ViewId) (view : View) :
    (arena.insertUnder parent view).1.size = arena.size + 1 := by
  rw [insertUnder]
  cases hattach : (arena.insert view).1.canAttach parent (arena.insert view).2 with
  | true => exact (size_attach hattach).trans (arena.size_insert view)
  | false =>
    simp only [attach_eq_self hattach]
    exact arena.size_insert view

namespace Linked

/-- Whether linked views have been made from a ledger: each view has the dependencies that stand in
the place of its number. -/
structure Keeps (linked : Linked) (ledger : List (List Dependency)) : Prop where
  size : linked.arena.size = ledger.length
  dependenciesOf : ∀ id : ViewId, linked.index.dependenciesOf id =
    Dependency.recorded (ledger[id]?.getD [])

variable {linked : Linked} {ledger : List (List Dependency)}

theorem keeps_ofRoot (view : View) (dependencies : List Dependency) :
    Keeps (Linked.ofRoot view dependencies) [dependencies] := by
  refine ⟨rfl, fun id => ?_⟩
  have hempty : DependencyIndex.empty.dependenciesOf Arena.root = Dependency.recorded [] := rfl
  rw [ofRoot, DependencyIndex.dependenciesOf_insertAll hempty]
  cases id with
  | zero => rfl
  | succ id => rfl

theorem Keeps.insertUnder (h : Keeps linked ledger) (parent : ViewId) (view : View)
    (dependencies : List Dependency) :
    Keeps (linked.insertUnder parent view dependencies).1 (ledger ++ [dependencies]) := by
  refine ⟨?_, fun id => ?_⟩
  · have hsize : (linked.insertUnder parent view dependencies).1.arena.size =
        linked.arena.size + 1 := linked.arena.size_insertUnder parent view
    rw [hsize, h.size, List.length_append, List.length_singleton]
  · have hindex : (linked.insertUnder parent view dependencies).1.index =
        linked.index.insertAll linked.arena.size dependencies := rfl
    have hnew : linked.index.dependenciesOf linked.arena.size = Dependency.recorded [] := by
      rw [h.dependenciesOf, h.size, List.getElem?_length]
      rfl
    rw [hindex, DependencyIndex.dependenciesOf_insertAll hnew, h.size]
    by_cases hid : ledger.length = id
    · rw [if_pos hid, ← hid, List.getElem?_concat_length]
      rfl
    · rw [if_neg hid, h.dependenciesOf]
      rcases Nat.lt_or_gt_of_ne hid with hlt | hlt
      · have hboth : ledger[id]? = none ∧ (ledger ++ [dependencies])[id]? = none := by
          simp; omega
        rw [hboth.1, hboth.2]
      · rw [List.getElem?_append_left hlt]

mutual

/-- What is planted comes at the end of the ledger. -/
theorem Keeps.plant : (r : Rendered) → {linked : Linked} → {ledger : List (List Dependency)} →
    Keeps linked ledger → (parent : ViewId) →
      Keeps (linked.plant parent r) (ledger ++ r.ledger)
  | .mk view dependencies children, linked, ledger, h, parent => by
    have hview := h.insertUnder parent view dependencies
    have hchildren := Keeps.plantAll children hview linked.arena.size
    rw [List.append_assoc] at hchildren
    rw [Rendered.ledger]
    exact hchildren

theorem Keeps.plantAll : (rs : List Rendered) → {linked : Linked} →
    {ledger : List (List Dependency)} → Keeps linked ledger → (parent : ViewId) →
      Keeps (linked.plantAll parent rs) (ledger ++ Rendered.ledgerOfAll rs)
  | [], linked, ledger, h, parent => by
    rw [Rendered.ledgerOfAll, List.append_nil]
    exact h
  | first :: rest, linked, ledger, h, parent => by
    have hrest := Keeps.plantAll rest (Keeps.plant first h parent) parent
    rw [Rendered.ledgerOfAll, ← List.append_assoc]
    exact hrest

end

/-- A planted expansion keeps its ledger. -/
theorem keeps_ofRendered (r : Rendered) : Keeps (ofRendered r) r.ledger := by
  obtain ⟨view, dependencies, children⟩ := r
  exact Keeps.plantAll children (keeps_ofRoot view dependencies) Arena.root

end Linked

end ScreenDoc
