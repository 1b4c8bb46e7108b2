import Mathlib.Data.List.Induction
import ScreenDoc.Proofs.History
import ScreenDoc.View.Dependency

/-!
# What an index answers

An index groups its dependencies twice: by the first keys of their paths, where a write looks for
them, and by their views, where they are found when a view is removed. Both groupings are those of
one list, the distinct records that were not undone, in the order in which they were made. So all
answers can be read off the history of the calls.

## Main definitions

- `DependencyIndex.Call`, `DependencyIndex.perform` — the calls on an index
- `DependencyIndex.live` — the records of a history that no later call undoes
- `DependencyIndex.Holds` — an index whose groupings are those of a list

## Main results

- `DependencyIndex.mem_entries_insertAll`, `DependencyIndex.mem_concerned` — an index as a set
- `DependencyIndex.Holds.insert`, `DependencyIndex.Holds.forget` — one call on an index
- `DependencyIndex.holds_after` — an index holds the distinct live records of its history
- `DependencyIndex.answers_after` — all answers of an index, from its history
-/

namespace ScreenDoc

/-! ### An index as a set -/

theorem Path.isEmpty_eq_false_of_firstKey? {path : Path} {name : String}
    (h : path.firstKey? = some name) : path.isEmpty = false := by
  obtain ⟨_ | ⟨segment, steps⟩⟩ := path
  · cases h
  · rfl

/-- Only a write to a path with the same first key can concern a dependency. -/
theorem DependencyKind.firstKey?_eq_of_isConcernedBy {kind : DependencyKind} {path written : Path}
    (h : kind.isConcernedBy path written) (hpath : path.firstKey?.isSome)
    (hwritten : written.isEmpty = false) : path.firstKey? = written.firstKey? := by
  have hfirst : path.startsWith written ∨ written.startsWith path := by
    cases kind with
    | value => exact Bool.or_eq_true_iff.1 h
    | shape => exact .inl h
  obtain ⟨_ | ⟨segment, steps⟩⟩ := path
  · cases hpath
  obtain ⟨_ | ⟨first, rest⟩⟩ := written
  · cases hwritten
  have heq : segment = first := by
    rcases hfirst with h | h
    · exact ((List.cons_prefix_cons.1 (List.isPrefixOf_iff_prefix.1 h)).1).symm
    · exact (List.cons_prefix_cons.1 (List.isPrefixOf_iff_prefix.1 h)).1
  subst heq
  cases segment <;> rfl

namespace DependencyIndex

theorem mem_entries_insert {index : DependencyIndex} {view : ViewId} {dependency : Dependency}
    {entry : ViewDependency} :
    entry ∈ (index.insert view dependency).entries ↔
      entry ∈ index.entries ∨
        (entry = ⟨view, dependency⟩ ∧ dependency.path.firstKey?.isSome) := by
  unfold insert
  split
  · next hroot => simp [hroot]
  · next root hroot =>
    have hrooted : dependency.path.firstKey?.isSome := by
      rw [hroot]
      rfl
    split
    · next hmem =>
      rw [List.contains_iff_mem] at hmem
      constructor
      · exact Or.inl
      · rintro (hentry | ⟨rfl, -⟩)
        · exact hentry
        · exact mem_entries.2 hmem
    · obtain ⟨other, d⟩ := entry
      rw [mem_entries, mem_entries, ViewGroups.group_put, ViewDependency.mk.injEq]
      by_cases hview : view = other
      · subst hview
        simp [hrooted]
      · simp [hview, Ne.symm hview]

theorem mem_entries_insertAll {index : DependencyIndex} {view : ViewId}
    {dependencies : List Dependency} {entry : ViewDependency} :
    entry ∈ (index.insertAll view dependencies).entries ↔
      entry ∈ index.entries ∨
        (entry.view = view ∧ entry.dependency ∈ dependencies ∧
          entry.dependency.path.firstKey?.isSome) := by
  unfold insertAll
  induction dependencies generalizing index with
  | nil => simp
  | cons first rest ih =>
    obtain ⟨id, dependency⟩ := entry
    rw [List.foldl_cons, ih, mem_entries_insert, ViewDependency.mk.injEq]
    constructor
    · rintro ((hold | ⟨⟨rfl, rfl⟩, hrooted⟩) | ⟨hview, hmem, hrooted⟩)
      · exact .inl hold
      · exact .inr ⟨rfl, List.mem_cons_self, hrooted⟩
      · exact .inr ⟨hview, List.mem_cons_of_mem _ hmem, hrooted⟩
    · rintro (hold | ⟨hview, hmem, hrooted⟩)
      · exact .inl (.inl hold)
      · rcases List.mem_cons.1 hmem with heq | hmem
        · exact .inl (.inr ⟨⟨hview, heq⟩, heq ▸ hrooted⟩)
        · exact .inr ⟨hview, hmem, hrooted⟩

theorem mem_select {index : DependencyIndex} {written : Path} {keep : DependencyKind → Bool}
    {id : ViewId} :
    id ∈ index.select written keep ↔
      written.firstKey?.isSome ∧
        ∃ dependency, ⟨id, dependency⟩ ∈ index.entries ∧ keep dependency.kind ∧
          dependency.kind.isConcernedBy dependency.path written := by
  rw [select]
  cases hwritten : written.firstKey? with
  | none => simp
  | some root =>
    simp only [List.mem_eraseDups, List.mem_map, List.mem_filter, Bool.and_eq_true,
      Option.isSome_some, true_and]
    constructor
    · rintro ⟨⟨view, dependency⟩, ⟨hmem, hconcerned⟩, rfl⟩
      exact ⟨dependency, mem_entries.2 ((index.agree.mem_iff _ _).1 hmem).2, hconcerned⟩
    · rintro ⟨dependency, hmem, hkeep, hconcerned⟩
      have hd := mem_entries.1 hmem
      have hroot := DependencyKind.firstKey?_eq_of_isConcernedBy hconcerned
        (index.agree.rooted _ _ hd) (Path.isEmpty_eq_false_of_firstKey? hwritten)
      exact ⟨⟨id, dependency⟩, ⟨(index.agree.mem_iff _ _).2 ⟨hroot.trans hwritten, hd⟩,
        hkeep, hconcerned⟩, rfl⟩

theorem mem_concerned {index : DependencyIndex} {written : Path} {id : ViewId} :
    id ∈ index.concerned written ↔
      written.firstKey?.isSome ∧
        ∃ dependency, ⟨id, dependency⟩ ∈ index.entries ∧
          dependency.kind.isConcernedBy dependency.path written := by
  rw [concerned, mem_select]
  simp only [true_and]

theorem nodup_concerned (index : DependencyIndex) (written : Path) :
    (index.concerned written).Nodup := by
  rw [concerned, select]
  split
  · exact List.nodup_nil
  · exact EraseDups.nodup _

/-! ### The list behind the groupings -/

/-- An index whose groupings are those of a list of dependencies, without empty groups. -/
structure Holds (index : DependencyIndex) (kept : List ViewDependency) : Prop where
  group : ∀ root, index.byRoot.group root =
    kept.filter fun entry => entry.dependency.path.firstKey? = some root
  dependenciesOf : ∀ view, index.dependenciesOf view =
    (kept.filter fun entry => entry.view = view).map (·.dependency)
  nonempty : ∀ group ∈ index.byRoot, group.2 ≠ []

namespace Holds

variable {index : DependencyIndex} {kept : List ViewDependency}

theorem mem_dependenciesOf (h : Holds index kept) {view : ViewId} {dependency : Dependency} :
    dependency ∈ index.dependenciesOf view ↔ ⟨view, dependency⟩ ∈ kept := by
  rw [h.dependenciesOf, List.mem_map]
  constructor
  · rintro ⟨entry, hentry, rfl⟩
    obtain ⟨hmem, hview⟩ := List.mem_filter.mp hentry
    rw [← of_decide_eq_true hview]
    exact hmem
  · intro hmem
    exact ⟨_, List.mem_filter.mpr ⟨hmem, decide_eq_true rfl⟩, rfl⟩

theorem rooted (h : Holds index kept) {entry : ViewDependency} (hentry : entry ∈ kept) :
    entry.dependency.path.firstKey?.isSome :=
  index.agree.rooted entry.view _ (h.mem_dependenciesOf.mpr hentry)

theorem empty : Holds empty [] where
  group _ := rfl
  dependenciesOf _ := rfl
  nonempty _ hgroup := absurd hgroup List.not_mem_nil

/-- A record is added at the end, unless it is there. -/
theorem insert (h : Holds index kept) (view : ViewId) {dependency : Dependency}
    (hrooted : dependency.path.firstKey?.isSome) :
    Holds (index.insert view dependency)
      (if ⟨view, dependency⟩ ∈ kept then kept else kept ++ [⟨view, dependency⟩]) := by
  unfold DependencyIndex.insert
  split
  · next hnone =>
    rw [hnone] at hrooted
    cases hrooted
  · next root hroot =>
    split
    · next hmem =>
      rw [if_pos (h.mem_dependenciesOf.mp (List.contains_iff_mem.mp hmem))]
      exact h
    · next hmem =>
      rw [if_neg fun hkept => hmem (List.contains_iff_mem.mpr (h.mem_dependenciesOf.mpr hkept))]
      constructor
      · intro key
        rw [RootGroups.group_add, h.group, List.filter_append, List.filter_singleton, hroot]
        by_cases hkey : root = key
        · simp [hkey]
        · simp [hkey]
      · intro other
        have hother := h.dependenciesOf other
        rw [DependencyIndex.dependenciesOf] at hother ⊢
        rw [ViewGroups.group_put, List.filter_append, List.map_append, ← hother]
        by_cases hview : view = other
        · subst hview
          simp
        · simp [hview]
      · intro group hgroup
        rcases Fields.mem_insert hgroup with rfl | hold
        · simp
        · exact h.nonempty group hold

/-- Removing a view removes its records. -/
theorem forget (h : Holds index kept) (view : ViewId) :
    Holds (index.forget view) (kept.filter fun entry => entry.view ≠ view) where
  group root := by
    rw [DependencyIndex.forget, index.agree.group_remove, h.group, List.filter_filter,
      List.filter_filter]
    exact List.filter_congr fun entry _ => Bool.and_comm _ _
  dependenciesOf other := by
    have hother := h.dependenciesOf other
    rw [DependencyIndex.dependenciesOf] at hother ⊢
    rw [DependencyIndex.forget, ViewGroups.group_put, hother, List.filter_filter]
    by_cases hview : view = other
    · subst hview
      simp
    · rw [if_neg hview]
      congr 1
      refine List.filter_congr fun entry _ => ?_
      by_cases hentry : entry.view = other
      · simp [hentry, Ne.symm hview]
      · simp [hentry]
  nonempty group hgroup := by
    have hkept := (List.mem_filter.mp hgroup).2
    simpa using hkept

/-! ### Answers -/

/-- A write looks only into the group of its first key, where all that it can concern is. -/
theorem select_eq (h : Holds index kept) {written : Path} (hne : written.isEmpty = false)
    (keep : DependencyKind → Bool) :
    index.select written keep = ((kept.filter fun entry =>
      keep entry.dependency.kind && entry.isConcernedBy written).map (·.view)).eraseDups := by
  have hsame : ∀ entry ∈ kept, entry.isConcernedBy written →
      entry.dependency.path.firstKey? = written.firstKey? := fun entry hentry hconcerned =>
    DependencyKind.firstKey?_eq_of_isConcernedBy hconcerned (h.rooted hentry) hne
  rw [select]
  cases hwritten : written.firstKey? with
  | none =>
    have hnothing : (kept.filter fun entry =>
        keep entry.dependency.kind && entry.isConcernedBy written) = [] := by
      refine List.filter_eq_nil_iff.mpr fun entry hentry hconcerned => ?_
      have hroot := hsame entry hentry (Bool.and_eq_true_iff.mp hconcerned).2
      have hrooted := h.rooted hentry
      rw [hroot, hwritten] at hrooted
      cases hrooted
    rw [hnothing]
    rfl
  | some root =>
    have hgroup : ((index.byRoot.group root).filter fun entry =>
        keep entry.dependency.kind && entry.isConcernedBy written) =
          kept.filter fun entry => keep entry.dependency.kind && entry.isConcernedBy written := by
      rw [h.group, List.filter_filter]
      refine List.filter_congr fun entry hentry => ?_
      cases hconcerned : entry.isConcernedBy written with
      | false => simp
      | true => simp [hsame entry hentry hconcerned, hwritten]
    simp only [hgroup]

/-- The groups together are a rearrangement of the list. -/
theorem perm_flatMap (h : Holds index kept) (hnodup : kept.Nodup) :
    (index.byRoot.flatMap (·.2)).Perm kept := by
  have hgroup : ∀ group ∈ index.byRoot, group.2 =
      kept.filter fun entry => entry.dependency.path.firstKey? = some group.1 := by
    intro group hmem
    rw [← h.group, RootGroups.group, Fields.Sorted.get?_of_mem index.agree.sorted hmem]
    rfl
  refine (List.perm_ext_iff_of_nodup ?_ hnodup).mpr fun entry => ?_
  · refine List.nodup_flatMap.mpr ⟨fun group hmem => ?_, ?_⟩
    · rw [hgroup group hmem]
      exact hnodup.filter _
    · refine List.Pairwise.imp_of_mem ?_ index.agree.sorted
      intro a b ha hb hlt entry hentry hentry'
      simp only at hentry hentry'
      rw [hgroup a ha, List.mem_filter, decide_eq_true_eq] at hentry
      rw [hgroup b hb, List.mem_filter, decide_eq_true_eq] at hentry'
      have heq : a.1 = b.1 := Option.some.inj (hentry.2.symm.trans hentry'.2)
      exact String.lt_irrefl _ (heq ▸ hlt)
  · rw [List.mem_flatMap]
    constructor
    · rintro ⟨group, hmem, hentry⟩
      rw [hgroup group hmem] at hentry
      exact (List.mem_filter.mp hentry).1
    · intro hentry
      obtain ⟨root, hroot⟩ := Option.isSome_iff_exists.mp (h.rooted hentry)
      have hin : entry ∈ index.byRoot.group root := by
        rw [h.group]
        exact List.mem_filter.mpr ⟨hentry, decide_eq_true hroot⟩
      rw [RootGroups.group] at hin
      cases hget : Fields.get? index.byRoot root with
      | none =>
        rw [hget] at hin
        exact absurd hin List.not_mem_nil
      | some entries =>
        rw [hget] at hin
        exact ⟨(root, entries), Fields.mem_of_get? hget, hin⟩

theorem length_eq (h : Holds index kept) (hnodup : kept.Nodup) : index.length = kept.length := by
  have hflat : index.length = (index.byRoot.flatMap fun group => group.2).length := by
    rw [length]
    induction index.byRoot with
    | nil => rfl
    | cons group rest ih => rw [List.foldr_cons, List.flatMap_cons, List.length_append, ih]
  rw [hflat]
  exact (h.perm_flatMap hnodup).length_eq

theorem isEmpty_iff (h : Holds index kept) : index.isEmpty = true ↔ index.length = 0 := by
  rw [isEmpty, length]
  cases hroots : index.byRoot with
  | nil => simp
  | cons group rest =>
    have hne := h.nonempty group (hroots ▸ List.mem_cons_self)
    have hpos := List.length_pos_iff.mpr hne
    rw [List.isEmpty_cons, List.foldr_cons]
    constructor
    · intro hfalse
      cases hfalse
    · intro hsum
      omega

end Holds

/-! ### Histories -/

/-- One call on an index. -/
inductive Call where
  | record (view : ViewId) (dependency : Dependency)
  | forget (view : ViewId)
  | clear

/-- The index after a call. -/
def perform (index : DependencyIndex) : Call → DependencyIndex
  | .record view dependency => index.insert view dependency
  | .forget view => index.forget view
  | .clear => empty

/-- The index after some calls on a new one. -/
def after (calls : List Call) : DependencyIndex :=
  calls.foldl perform empty

/-- The record that a call makes. -/
def Call.record? : Call → Option ViewDependency
  | .record view dependency => some ⟨view, dependency⟩
  | .forget _ => none
  | .clear => none

/-- Whether a call undoes a record. -/
def Call.undoes (entry : ViewDependency) : Call → Bool
  | .record _ _ => false
  | .forget view => view = entry.view
  | .clear => true

/-- The records of a history that no later call undoes, in order. -/
def live (calls : List Call) : List ViewDependency :=
  survivors Call.record? Call.undoes calls

/-- An index holds the distinct live records of its history. -/
theorem holds_after {calls : List Call}
    (hrooted : ∀ view dependency, Call.record view dependency ∈ calls →
      dependency.path.firstKey?.isSome) :
    Holds (after calls) (live calls).eraseDups := by
  induction calls using List.reverseRecOn with
  | nil => exact .empty
  | append_singleton calls call ih =>
    have ih := ih fun view dependency hmem => hrooted view dependency (List.mem_append_left _ hmem)
    rw [after, List.foldl_append, ← after, List.foldl_cons, List.foldl_nil, live,
      survivors_append_singleton, ← live]
    cases call with
    | record view dependency =>
      have hall : ((live calls).filter fun entry =>
          !(Call.record view dependency).undoes entry) = live calls :=
        List.filter_eq_self.mpr fun entry _ => rfl
      have hinsert := ih.insert view (hrooted view dependency (by simp))
      simp only [List.mem_eraseDups] at hinsert
      rw [hall, Call.record?, Option.toList_some, EraseDups.eraseDups_append_singleton]
      exact hinsert
    | forget view =>
      have hothers : ((live calls).filter fun entry => !(Call.forget view).undoes entry) =
          (live calls).filter fun entry => entry.view ≠ view :=
        List.filter_congr fun entry _ => by simp [Call.undoes, eq_comm]
      have hforget := ih.forget view
      rw [EraseDups.filter_eraseDups] at hforget
      rw [hothers, Call.record?, Option.toList_none, List.append_nil]
      exact hforget
    | clear =>
      have hnone : ((live calls).filter fun entry => !Call.clear.undoes entry) = [] :=
        List.filter_eq_nil_iff.mpr fun entry _ hentry => Bool.false_ne_true hentry
      rw [hnone]
      exact .empty

/-- What an index answers after some calls on a new one: a write to a path concerns the views with a
live record that it concerns, in the order of the first such record; a view depends on its distinct
live records, in the order of recording; and the distinct live records are counted. -/
theorem answers_after {calls : List Call}
    (hrooted : ∀ view dependency, Call.record view dependency ∈ calls →
      dependency.path.firstKey?.isSome) :
    (∀ written : Path, written.isEmpty = false →
      (after calls).concerned written =
        (((live calls).filter fun entry => entry.isConcernedBy written).map (·.view)).eraseDups ∧
      (after calls).reshaped written =
        (((live calls).filter fun entry => entry.dependency.kind = .shape ∧
          entry.isConcernedBy written).map (·.view)).eraseDups) ∧
    (∀ view, (after calls).dependenciesOf view =
      (((live calls).filter fun entry => entry.view = view).map (·.dependency)).eraseDups) ∧
    (after calls).length = (live calls).eraseDups.length ∧
    ((after calls).isEmpty = true ↔ (after calls).length = 0) := by
  have hholds := holds_after hrooted
  refine ⟨fun written hne => ⟨?_, ?_⟩, fun view => ?_, hholds.length_eq (EraseDups.nodup _),
    hholds.isEmpty_iff⟩
  · rw [concerned, hholds.select_eq hne, EraseDups.filter_eraseDups,
      EraseDups.eraseDups_map_eraseDups]
    simp only [Bool.true_and]
  · rw [reshaped, hholds.select_eq hne, EraseDups.filter_eraseDups,
      EraseDups.eraseDups_map_eraseDups]
    congr 2
    refine List.filter_congr fun entry _ => ?_
    simp
  · let ofView : List ViewDependency := (live calls).filter fun entry => entry.view = view
    -- Distinct records of one view have distinct dependencies.
    have hnodup : (ofView.eraseDups.map (·.dependency)).Nodup := by
      refine List.Nodup.map_on (fun a ha b hb heq => ?_) (EraseDups.nodup ofView)
      have hviews : a.view = view ∧ b.view = view :=
        ⟨of_decide_eq_true (List.mem_filter.mp (List.mem_eraseDups.mp ha)).2,
          of_decide_eq_true (List.mem_filter.mp (List.mem_eraseDups.mp hb)).2⟩
      obtain ⟨aview, adependency⟩ := a
      obtain ⟨bview, bdependency⟩ := b
      rw [ViewDependency.mk.injEq]
      exact ⟨hviews.1.trans hviews.2.symm, heq⟩
    rw [hholds.dependenciesOf, EraseDups.filter_eraseDups, ← EraseDups.eraseDups_map_eraseDups,
      EraseDups.eraseDups_eq_self hnodup]

/-- A history in which a view is recorded anew after it was removed, and one dependency twice. -/
def renewal : List Call :=
  [.record 1 ⟨.ofKey "flag", .value⟩, .record 2 ⟨.ofKey "rows", .shape⟩, .forget 1,
    .record 3 ⟨(Path.ofKey "rows").index 0, .value⟩,
    .record 1 ⟨(Path.ofKey "rows").key "first", .value⟩, .record 2 ⟨.ofKey "rows", .shape⟩]

theorem answers_after_renewal :
    (∀ view dependency, Call.record view dependency ∈ renewal →
      dependency.path.firstKey?.isSome) ∧
    (after renewal).concerned (.ofKey "rows") = [2, 3, 1] ∧
    (after renewal).reshaped (.ofKey "rows") = [2] ∧
    (after renewal).concerned (.ofKey "flag") = [] ∧
    (after renewal).dependenciesOf 2 = [⟨.ofKey "rows", .shape⟩] ∧
    (after renewal).length = 3 := by
  have hrooted : ∀ view dependency, Call.record view dependency ∈ renewal →
      dependency.path.firstKey?.isSome := by
    intro view dependency hmem
    simp only [renewal, List.mem_cons, Call.record.injEq, List.not_mem_nil, or_false, reduceCtorEq,
      false_or] at hmem
    rcases hmem with ⟨-, rfl⟩ | ⟨-, rfl⟩ | ⟨-, rfl⟩ | ⟨-, rfl⟩ | ⟨-, rfl⟩ <;> rfl
  obtain ⟨hwrites, hviews, hlength, -⟩ := answers_after hrooted
  refine ⟨hrooted, ?_, ?_, ?_, ?_, ?_⟩
  · rw [(hwrites (.ofKey "rows") rfl).1]
    decide +kernel
  · rw [(hwrites (.ofKey "rows") rfl).2]
    decide +kernel
  · rw [(hwrites (.ofKey "flag") rfl).1]
    decide +kernel
  · rw [hviews]
    decide +kernel
  · rw [hlength]
    decide +kernel

end DependencyIndex

end ScreenDoc
