import ScreenDoc.Store.Path

/-!
# Dependencies of views

Which views have to follow a write to the state.

## Main definitions

- `DependencyKind` — a view shows a value, or is shaped by an array
- `DependencyKind.isConcernedBy` — whether a write concerns a dependency
- `DependencyIndex` — the dependencies of all views, by the first keys of their paths and by view

## Main results

- `DependencyIndex.Agree.add`, `DependencyIndex.Agree.remove` — both groupings stay the same
-/

namespace ScreenDoc

/-- The number of a view in its tree. -/
abbrev ViewId := Nat

/-- How a view depends on a path. -/
inductive DependencyKind where
  /-- The view shows the value: a write at the path, above it or below it concerns it. -/
  | value
  /-- The view is shaped by the array at the path: only a write at the path or above it concerns
  it. -/
  | shape
deriving DecidableEq, Repr

/-- Whether a write concerns a dependency on a path. -/
def DependencyKind.isConcernedBy (kind : DependencyKind) (path written : Path) : Bool :=
  match kind with
  | .value => path.overlaps written
  | .shape => path.startsWith written

/-- A path that a view depends on, and how. -/
structure Dependency where
  path : Path
  kind : DependencyKind
deriving DecidableEq, Repr

/-- A dependency of a certain view. -/
structure ViewDependency where
  view : ViewId
  dependency : Dependency
deriving DecidableEq, Repr

/-- Whether a write concerns a dependency of a view. -/
def ViewDependency.isConcernedBy (entry : ViewDependency) (written : Path) : Bool :=
  entry.dependency.kind.isConcernedBy entry.dependency.path written

/-! ### The two groupings -/

/-- Dependencies grouped by the first keys of their paths, in ascending order of the keys. -/
abbrev RootGroups := List (String × List ViewDependency)

/-- The dependencies of the views, by their numbers. -/
abbrev ViewGroups := List (List Dependency)

namespace RootGroups

/-- The dependencies on paths that start with a key. -/
def group (byRoot : RootGroups) (root : String) : List ViewDependency :=
  (Fields.get? byRoot root).getD []

/-- Adds a dependency on a path that starts with a key. -/
def add (byRoot : RootGroups) (root : String) (entry : ViewDependency) : RootGroups :=
  Fields.insert byRoot root (byRoot.group root ++ [entry])

/-- Removes the dependencies of a view from the group that one of them is in. -/
def removeFrom (byRoot : RootGroups) (view : ViewId) (dependency : Dependency) : RootGroups :=
  match dependency.path.firstKey? with
  | none => byRoot
  | some root =>
    match Fields.get? byRoot root with
    | none => byRoot
    | some entries => Fields.insert byRoot root (entries.filter fun entry => entry.view ≠ view)

/-- Removes the dependencies of a view from the groups that they are in. -/
def removeEach (byRoot : RootGroups) (view : ViewId) (dependencies : List Dependency) :
    RootGroups :=
  dependencies.foldl (fun byRoot dependency => removeFrom byRoot view dependency) byRoot

/-- Removes the dependencies of a view, and the groups that become empty. -/
def remove (byRoot : RootGroups) (view : ViewId) (dependencies : List Dependency) : RootGroups :=
  (byRoot.removeEach view dependencies).filter fun group => !group.2.isEmpty

theorem group_add (byRoot : RootGroups) (root other : String) (entry : ViewDependency) :
    (byRoot.add root entry).group other =
      if root = other then byRoot.group other ++ [entry] else byRoot.group other := by
  rw [group, add, Fields.get?_insert]
  split
  · next h => rw [h]; rfl
  · rfl

theorem group_removeFrom (byRoot : RootGroups) (view : ViewId) (dependency : Dependency)
    (root : String) :
    (byRoot.removeFrom view dependency).group root =
      if dependency.path.firstKey? = some root then
        (byRoot.group root).filter fun entry => entry.view ≠ view
      else byRoot.group root := by
  rw [removeFrom]
  cases hkey : dependency.path.firstKey? with
  | none => rfl
  | some key =>
    simp only [Option.some.injEq]
    cases hget : Fields.get? byRoot key with
    | none =>
      by_cases hroot : key = root
      · rw [if_pos hroot, group, ← hroot, hget]
        rfl
      · rw [if_neg hroot]
    | some entries =>
      simp only [group, Fields.get?_insert]
      by_cases hroot : key = root
      · rw [if_pos hroot, if_pos hroot, ← hroot, hget]
        rfl
      · rw [if_neg hroot, if_neg hroot]

theorem sorted_removeFrom {byRoot : RootGroups} (h : Fields.Sorted byRoot) (view : ViewId)
    (dependency : Dependency) : Fields.Sorted (byRoot.removeFrom view dependency) := by
  rw [removeFrom]
  split
  · exact h
  · split
    · exact h
    · exact h.insert _ _

theorem sorted_removeEach {byRoot : RootGroups} (h : Fields.Sorted byRoot) (view : ViewId)
    (dependencies : List Dependency) : Fields.Sorted (byRoot.removeEach view dependencies) := by
  induction dependencies generalizing byRoot with
  | nil => exact h
  | cons first rest ih => exact ih (sorted_removeFrom h view first)

/-- A group loses the dependencies of a view if one of those that are removed is in this group. -/
theorem group_removeEach {view : ViewId} {root : String} {dependencies : List Dependency}
    {byRoot : RootGroups}
    (h : ∀ entry ∈ byRoot.group root, entry.view = view →
      ∃ d ∈ dependencies, d.path.firstKey? = some root) :
    (byRoot.removeEach view dependencies).group root =
      (byRoot.group root).filter fun entry => entry.view ≠ view := by
  induction dependencies generalizing byRoot with
  | nil =>
    refine (List.filter_eq_self.mpr fun entry hentry => ?_).symm
    have hview : entry.view ≠ view := fun hview => by
      obtain ⟨d, hd, -⟩ := h entry hentry hview
      exact absurd hd List.not_mem_nil
    exact decide_eq_true hview
  | cons first rest ih =>
    have hgroup := group_removeFrom byRoot view first root
    rw [removeEach, List.foldl_cons, ← removeEach, ih, hgroup]
    · by_cases hfirst : first.path.firstKey? = some root
      · rw [if_pos hfirst, List.filter_filter]
        simp only [Bool.and_self]
      · rw [if_neg hfirst]
    · intro entry hentry hview
      rw [hgroup] at hentry
      by_cases hfirst : first.path.firstKey? = some root
      · rw [if_pos hfirst, List.mem_filter] at hentry
        exact absurd hview (of_decide_eq_true hentry.2)
      · rw [if_neg hfirst] at hentry
        obtain ⟨d, hd, hroot⟩ := h entry hentry hview
        rcases List.mem_cons.mp hd with rfl | hd
        · exact absurd hroot hfirst
        · exact ⟨d, hd, hroot⟩

/-- Dropping the empty groups changes no group. -/
theorem group_filter_isEmpty {byRoot : RootGroups} (h : Fields.Sorted byRoot) (root : String) :
    group (byRoot.filter fun group => !group.2.isEmpty) root = byRoot.group root := by
  rw [group, h.get?_filter, group]
  cases Fields.get? byRoot root with
  | none => rfl
  | some entries => cases entries <;> rfl

end RootGroups

namespace ViewGroups

/-- The dependencies of a view. -/
def group (byView : ViewGroups) (view : ViewId) : List Dependency :=
  byView[view]?.getD []

/-- Sets the dependencies of a view. -/
def put (byView : ViewGroups) (view : ViewId) (dependencies : List Dependency) : ViewGroups :=
  (byView ++ List.replicate (view + 1 - byView.length) []).set view dependencies

theorem group_put (byView : ViewGroups) (view other : ViewId) (dependencies : List Dependency) :
    (byView.put view dependencies).group other =
      if view = other then dependencies else byView.group other := by
  rw [group, put, List.getElem?_set]
  by_cases hview : view = other
  · subst hview
    have hlt : view < (byView ++ List.replicate (view + 1 - byView.length) []).length := by
      rw [List.length_append, List.length_replicate, Nat.add_comm]
      exact Nat.le_add_of_sub_le (Nat.le_refl _)
    rw [if_pos rfl, if_pos rfl, if_pos hlt]
    rfl
  · rw [if_neg hview, if_neg hview, group, List.getElem?_append, List.getElem?_replicate]
    split
    · rfl
    · next hge =>
      rw [List.getElem?_eq_none (Nat.le_of_not_lt hge)]
      split <;> rfl

end ViewGroups

/-! ### The index -/

/-- Whether both groupings hold the same dependencies. -/
structure DependencyIndex.Agree (byRoot : RootGroups) (byView : ViewGroups) : Prop where
  sorted : Fields.Sorted byRoot
  rooted : ∀ view, ∀ d ∈ byView.group view, d.path.firstKey?.isSome
  mem_iff : ∀ root entry, entry ∈ byRoot.group root ↔
    entry.dependency.path.firstKey? = some root ∧ entry.dependency ∈ byView.group entry.view

/-- The dependencies of all views, each once. -/
structure DependencyIndex where
  /-- The dependencies by the first keys of their paths, where a write looks for them. -/
  byRoot : RootGroups
  /-- The dependencies by their views. -/
  byView : ViewGroups
  agree : DependencyIndex.Agree byRoot byView

namespace DependencyIndex

/-- All dependencies, view by view. -/
def entries (index : DependencyIndex) : List ViewDependency :=
  index.byView.zipIdx.flatMap fun group => group.1.map fun dependency => ⟨group.2, dependency⟩

theorem mem_entries {index : DependencyIndex} {entry : ViewDependency} :
    entry ∈ index.entries ↔ entry.dependency ∈ index.byView.group entry.view := by
  rw [entries, List.mem_flatMap]
  constructor
  · rintro ⟨⟨dependencies, view⟩, hgroup, hentry⟩
    obtain ⟨d, hd, rfl⟩ := List.mem_map.mp hentry
    rw [ViewGroups.group, List.mk_mem_zipIdx_iff_getElem?.mp hgroup]
    exact hd
  · intro hentry
    rw [ViewGroups.group] at hentry
    cases hget : index.byView[entry.view]? with
    | none =>
      rw [hget] at hentry
      exact absurd hentry List.not_mem_nil
    | some dependencies =>
      rw [hget] at hentry
      exact ⟨(dependencies, entry.view), List.mk_mem_zipIdx_iff_getElem?.mpr hget,
        List.mem_map.mpr ⟨entry.dependency, hentry, rfl⟩⟩

theorem agree_nil : Agree [] [] where
  sorted := List.Pairwise.nil
  rooted _ _ hd := absurd hd List.not_mem_nil
  mem_iff _ _ := ⟨fun h => absurd h List.not_mem_nil, fun h => absurd h.2 List.not_mem_nil⟩

/-- No dependencies. -/
def empty : DependencyIndex := ⟨[], [], agree_nil⟩

instance : Inhabited DependencyIndex := ⟨empty⟩

variable {byRoot : RootGroups} {byView : ViewGroups}

theorem Agree.add (h : Agree byRoot byView) {view : ViewId} {dependency : Dependency}
    {root : String} (hroot : dependency.path.firstKey? = some root) :
    Agree (byRoot.add root ⟨view, dependency⟩)
      (byView.put view (byView.group view ++ [dependency])) where
  sorted := h.sorted.insert _ _
  rooted other d hd := by
    rw [ViewGroups.group_put] at hd
    by_cases hview : view = other
    · rw [if_pos hview, List.mem_append, List.mem_singleton] at hd
      rcases hd with hd | rfl
      · exact h.rooted view d hd
      · rw [hroot]
        rfl
    · rw [if_neg hview] at hd
      exact h.rooted other d hd
  mem_iff key entry := by
    have hview : (if view = entry.view then byView.group view ++ [dependency]
        else byView.group entry.view) =
          byView.group entry.view ++ if view = entry.view then [dependency] else [] := by
      by_cases hview : view = entry.view
      · rw [if_pos hview, if_pos hview, hview]
      · rw [if_neg hview, if_neg hview, List.append_nil]
    have hgroup : (if root = key then byRoot.group key ++ [⟨view, dependency⟩]
        else byRoot.group key) =
          byRoot.group key ++ if root = key then [⟨view, dependency⟩] else [] := by
      by_cases hkey : root = key
      · rw [if_pos hkey, if_pos hkey]
      · rw [if_neg hkey, if_neg hkey, List.append_nil]
    rw [RootGroups.group_add, ViewGroups.group_put, hview, hgroup, List.mem_append, h.mem_iff,
      List.mem_append, and_or_left]
    refine or_congr_right ?_
    obtain ⟨other, d⟩ := entry
    simp only [List.mem_ite_nil_right, List.mem_singleton, ViewDependency.mk.injEq]
    constructor
    · rintro ⟨rfl, rfl, rfl⟩
      exact ⟨hroot, rfl, rfl⟩
    · rintro ⟨hkey, rfl, rfl⟩
      exact ⟨Option.some.inj (hroot.symm.trans hkey), rfl, rfl⟩

/-- Records that a view depends on a path. A dependency that is there already is not repeated, and a
path that does not start with a key leads nowhere. -/
def insert (index : DependencyIndex) (view : ViewId) (dependency : Dependency) :
    DependencyIndex :=
  match hroot : dependency.path.firstKey? with
  | none => index
  | some root =>
    if (index.byView.group view).contains dependency then index
    else ⟨index.byRoot.add root ⟨view, dependency⟩,
      index.byView.put view (index.byView.group view ++ [dependency]), index.agree.add hroot⟩

/-- Records several dependencies of a view. -/
def insertAll (index : DependencyIndex) (view : ViewId) (dependencies : List Dependency) :
    DependencyIndex :=
  dependencies.foldl (fun index dependency => index.insert view dependency) index

/-- The views with a dependency that a write concerns and that passes a test, each once, in the
order of recording. -/
def select (index : DependencyIndex) (written : Path) (keep : DependencyKind → Bool) :
    List ViewId :=
  match written.firstKey? with
  | none => []
  | some root =>
    (((index.byRoot.group root).filter fun entry =>
      keep entry.dependency.kind && entry.isConcernedBy written).map (·.view)).eraseDups

/-- The views that a write concerns. -/
def concerned (index : DependencyIndex) (written : Path) : List ViewId :=
  index.select written fun _ => true

/-- The views whose shape a write concerns. -/
def reshaped (index : DependencyIndex) (written : Path) : List ViewId :=
  index.select written fun kind => kind = .shape

/-- The dependencies of a view, in the order of recording. -/
def dependenciesOf (index : DependencyIndex) (view : ViewId) : List Dependency :=
  index.byView.group view

/-- Only the groups in which a view has dependencies are looked at when it is removed. -/
theorem Agree.group_remove (h : Agree byRoot byView) (view : ViewId) (root : String) :
    (byRoot.remove view (byView.group view)).group root =
      (byRoot.group root).filter fun entry => entry.view ≠ view := by
  rw [RootGroups.remove, RootGroups.group_filter_isEmpty
    (RootGroups.sorted_removeEach h.sorted view _)]
  refine RootGroups.group_removeEach fun entry hentry hview => ?_
  obtain ⟨hroot, hd⟩ := (h.mem_iff root entry).mp hentry
  exact ⟨entry.dependency, hview ▸ hd, hroot⟩

theorem Agree.remove (h : Agree byRoot byView) (view : ViewId) :
    Agree (byRoot.remove view (byView.group view)) (byView.put view []) where
  sorted := List.Pairwise.filter _ (RootGroups.sorted_removeEach h.sorted view _)
  rooted other d hd := by
    rw [ViewGroups.group_put] at hd
    by_cases hview : view = other
    · rw [if_pos hview] at hd
      exact absurd hd List.not_mem_nil
    · rw [if_neg hview] at hd
      exact h.rooted other d hd
  mem_iff root entry := by
    rw [h.group_remove, List.mem_filter, h.mem_iff, ViewGroups.group_put, decide_eq_true_eq]
    by_cases hview : view = entry.view
    · rw [if_pos hview]
      exact ⟨fun hentry => absurd hview.symm hentry.2,
        fun hentry => absurd hentry.2 List.not_mem_nil⟩
    · rw [if_neg hview]
      exact ⟨fun hentry => hentry.1, fun hentry => ⟨hentry, fun heq => hview heq.symm⟩⟩

/-- Forgets all dependencies of a view. -/
def forget (index : DependencyIndex) (view : ViewId) : DependencyIndex :=
  ⟨index.byRoot.remove view (index.byView.group view), index.byView.put view [],
    index.agree.remove view⟩

/-- The number of dependencies. -/
def length (index : DependencyIndex) : Nat :=
  index.byRoot.foldr (fun group total => group.2.length + total) 0

/-- Whether there are no dependencies. -/
def isEmpty (index : DependencyIndex) : Bool :=
  index.byRoot.isEmpty

end DependencyIndex

end ScreenDoc
