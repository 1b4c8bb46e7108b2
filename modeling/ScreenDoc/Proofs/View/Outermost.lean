import ScreenDoc.Proofs.Expansion.Rooted
import ScreenDoc.Proofs.View.Index

/-!
# The outermost concerned views

After a write it is enough to expand the outermost views that it concerns: each further one lies
below exactly one of them, and none of them can be left out.

## Main definitions

- `Arena.IsBelow` — a view lies somewhere below another one
- `Arena.IsCover` — some views with those below them contain all of some others
- `Arena.AreOutermost` — some views are the outermost ones of others

## Main results

- `Arena.Climbs.mem_iff` — the ancestors of a view are those that it lies below
- `Arena.Climbs.exists_topmost` — where the way up from a view meets some views for the last time
- `Arena.areOutermost_of_climbs` — the outermost concerned views, where all ways up end
- `Rulebook.outermost_of_build` — the outermost concerned views of a document
-/

namespace ScreenDoc

namespace Arena

/-- Whether a view lies below another one, so that its parents lead there in one step or more. -/
def IsBelow (arena : Arena) : ViewId → ViewId → Prop :=
  Relation.TransGen fun child parent => arena.parent? child = some parent

/-- Whether some views with those below them contain all of some others. -/
def IsCover (arena : Arena) (cover views : List ViewId) : Prop :=
  ∀ id ∈ views, id ∈ cover ∨ ∃ above ∈ cover, arena.IsBelow id above

/-- Whether some views are the outermost ones of others. -/
structure AreOutermost (arena : Arena) (views outermost : List ViewId) : Prop where
  /-- They are among the others, in the same order. -/
  sublist : outermost.Sublist views
  nodup : outermost.Nodup
  apart : ∀ id ∈ outermost, ∀ above ∈ outermost, ¬arena.IsBelow id above
  covered : ∀ id ∈ views,
    id ∈ outermost ∨ ∃! above, above ∈ outermost ∧ arena.IsBelow id above
  /-- No other cover does without one of them. -/
  least : ∀ cover ⊆ views, arena.IsCover cover views → outermost ⊆ cover

variable {arena : Arena} {id other : ViewId} {above views : List ViewId}

/-! ### The way up -/

theorem leadsTo_iff_isBelow : arena.LeadsTo id other ↔ other = id ∨ arena.IsBelow id other :=
  Relation.reflTransGen_iff_eq_or_transGen

theorem isBelow_iff :
    arena.IsBelow id other ↔ ∃ parent, arena.parent? id = some parent ∧ arena.LeadsTo parent other :=
  Relation.TransGen.head'_iff

/-- The ancestors of a view are those that it lies below. -/
theorem Climbs.mem_iff (h : arena.Climbs id above) : other ∈ above ↔ arena.IsBelow id other := by
  induction h with
  | top hnone =>
    rw [isBelow_iff, hnone]
    constructor
    · intro hmem
      exact absurd hmem List.not_mem_nil
    · rintro ⟨parent, hparent, -⟩
      cases hparent
  | up hparent _ ih =>
    rw [List.mem_cons, ih, ← leadsTo_iff_isBelow, isBelow_iff, hparent]
    constructor
    · intro hlead
      exact ⟨_, rfl, hlead⟩
    · rintro ⟨parent, heq, hlead⟩
      rwa [Option.some.inj heq]

/-- If the way up from a view meets one of some views, there or further up, then it meets one of
them for the last time. -/
theorem Climbs.exists_topmost (h : arena.Climbs id above)
    (hmeets : ∃ met ∈ views, arena.LeadsTo id met) :
    ∃ top ∈ views, arena.LeadsTo id top ∧ ∀ further ∈ views, ¬arena.IsBelow top further := by
  induction h with
  | @top id hnone =>
    have hend : ∀ further, ¬arena.IsBelow id further := by
      intro further hbelow
      obtain ⟨parent, hparent, -⟩ := isBelow_iff.mp hbelow
      cases hnone.symm.trans hparent
    obtain ⟨met, hmet, hlead⟩ := hmeets
    have hsame : met = id := (leadsTo_iff_isBelow.mp hlead).resolve_right (hend met)
    exact ⟨met, hmet, hlead, fun further _ => hsame ▸ hend further⟩
  | @up id parent above hparent _ ih =>
    by_cases hfurther : ∃ met ∈ views, arena.LeadsTo parent met
    · obtain ⟨top, htop, hlead, hlast⟩ := ih hfurther
      exact ⟨top, htop, .head hparent hlead, hlast⟩
    · -- Nothing is met from the parent on, so it is the view itself that is met.
      have hend : ∀ further ∈ views, ¬arena.IsBelow id further := by
        intro further hmem hbelow
        obtain ⟨_, hparent', hlead⟩ := isBelow_iff.mp hbelow
        obtain rfl := Option.some.inj (hparent.symm.trans hparent')
        exact hfurther ⟨further, hmem, hlead⟩
      obtain ⟨met, hmet, hlead⟩ := hmeets
      have hsame : met = id := (leadsTo_iff_isBelow.mp hlead).resolve_right (hend met hmet)
      exact ⟨met, hmet, hlead, hsame ▸ hend⟩

/-! ### The outermost views -/

section Climbing

variable (hclimbs : ∀ id, arena.Climbs id (arena.ancestors id))
include hclimbs

theorem mem_outermost_iff {index : DependencyIndex} {written : Path} :
    id ∈ arena.outermost index written ↔
      id ∈ index.concerned written ∧
        ∀ above ∈ index.concerned written, ¬arena.IsBelow id above := by
  rw [outermost, List.mem_filter, Bool.not_eq_true', List.any_eq_false]
  refine and_congr_right fun _ => forall_congr' fun above => ?_
  rw [List.contains_iff_mem, (hclimbs id).mem_iff]
  exact ⟨fun h hmem hbelow => h hbelow hmem, fun h hbelow hmem => h hmem hbelow⟩

/-- Where all ways up end, the concerned views without those below another one are the outermost
ones. -/
theorem areOutermost_of_climbs (index : DependencyIndex) (written : Path) :
    arena.AreOutermost (index.concerned written) (arena.outermost index written) where
  sublist := List.filter_sublist
  nodup := (index.nodup_concerned written).filter _
  apart id hid above habove :=
    ((mem_outermost_iff hclimbs).mp hid).2 above ((mem_outermost_iff hclimbs).mp habove).1
  covered id hid := by
    obtain ⟨top, htop, hlead, hlast⟩ := (hclimbs id).exists_topmost ⟨id, hid, .refl⟩
    have houter : top ∈ arena.outermost index written :=
      (mem_outermost_iff hclimbs).mpr ⟨htop, hlast⟩
    rcases leadsTo_iff_isBelow.mp hlead with rfl | hbelow
    · exact .inl houter
    · refine .inr ⟨top, ⟨houter, hbelow⟩, ?_⟩
      -- Two views on one way up would lie one below the other.
      rintro other ⟨hother, hbelow'⟩
      have hapart := ((mem_outermost_iff hclimbs).mp hother).2 top htop
      rcases LeadsTo.total hbelow.to_reflTransGen hbelow'.to_reflTransGen with hup | hup
      · exact (leadsTo_iff_isBelow.mp hup).resolve_right
          (hlast other ((mem_outermost_iff hclimbs).mp hother).1)
      · exact ((leadsTo_iff_isBelow.mp hup).resolve_right hapart).symm
  least cover hcover hcovers id hid := by
    obtain ⟨hconcerned, hlast⟩ := (mem_outermost_iff hclimbs).mp hid
    rcases hcovers id hconcerned with hmem | ⟨above, habove, hbelow⟩
    · exact hmem
    · exact absurd hbelow (hlast above (hcover habove))

end Climbing

end Arena

namespace Rulebook

variable {rulebook : Rulebook} {document : Document} {state : Store} {track : Bool}
  {tree : ViewTree} {index : DependencyIndex}

/-- In the tree of a document all ways up end. What is no view of the tree has no parent there. -/
theorem climbs_of_build (h : rulebook.build document state track = .ok (tree, index))
    (id : ViewId) : tree.arena.Climbs id (tree.arena.ancestors id) := by
  obtain ⟨r, hplanted⟩ := exists_ofRendered_of_build h
  obtain ⟨edits, hgrown⟩ := Linked.exists_editAll_ofRendered r
  have hlinks := Arena.isLinkedBy_editAll (.ofRoot r.view) edits
  rw [← hgrown, ← hplanted] at hlinks
  by_cases hid : id < tree.arena.size
  · have hwalk : tree.walk = List.range tree.arena.size :=
      Arena.walk_eq_range (hplanted ▸ Linked.entries_ofRendered r)
    have hmem : id ∈ tree.walk := by rwa [hwalk, List.mem_range]
    exact (hlinks.ancestors hid ((hlinks.isTree.mem_walk id).1 hmem)).1
  · have hnone : tree.arena.parent? id = none := by
      rw [Arena.parent?, Array.getElem?_eq_none (Nat.le_of_not_lt hid), Option.bind_none]
    have htop : tree.arena.Climbs id [] := .top hnone
    rwa [Arena.ancestors, htop.ancestorsWithin_eq (Nat.zero_le _)]

/-- In the tree of a document, whatever views depend on whatever paths, the views that are expanded
after a write are the outermost ones of those that it concerns. -/
theorem outermost_of_build (h : rulebook.build document state track = .ok (tree, index))
    (dependencies : DependencyIndex) (written : Path) :
    tree.arena.AreOutermost (dependencies.concerned written)
      (tree.arena.outermost dependencies written) :=
  Arena.areOutermost_of_climbs (climbs_of_build h) dependencies written

/-- A write to the photos of the gallery concerns the iteration and what it shows, which lies below
the iteration. -/
theorem outermost_of_build_gallery :
    let state := Store.ofValues [("photos", .array [.string "a", .string "b"])]
    ∃ tree index, standard.build .gallery state true = .ok (tree, index) ∧
      index.concerned (.ofKey "photos") = [4, 5, 6] ∧
      tree.arena.outermost index (.ofKey "photos") = [4] ∧
      tree.arena.IsBelow 5 4 ∧ tree.arena.IsBelow 6 4 := by
  intro state
  have hshown : (standard.build .gallery state true).toOption.map (fun built =>
      (built.2.concerned (.ofKey "photos"), built.1.arena.outermost built.2 (.ofKey "photos"))) =
        some ([4, 5, 6], [4]) := by
    decide +kernel
  cases hbuild : standard.build .gallery state true with
  | error error =>
    rw [hbuild] at hshown
    cases hshown
  | ok built =>
    obtain ⟨tree, index⟩ := built
    rw [hbuild] at hshown
    obtain ⟨hconcerned, houter⟩ := Prod.mk.inj (Option.some.inj hshown)
    have hcovered := (outermost_of_build hbuild index (.ofKey "photos")).covered
    rw [hconcerned, houter] at hcovered
    have hbelow : ∀ id ∈ [5, 6], tree.arena.IsBelow id 4 := by
      intro id hid
      rcases hcovered id (List.mem_cons_of_mem _ hid) with hmem | ⟨above, ⟨habove, hbelow⟩, -⟩
      · rw [List.mem_singleton.mp hmem] at hid
        exact absurd hid (by decide)
      · rwa [List.mem_singleton.mp habove] at hbelow
    exact ⟨tree, index, rfl, hconcerned, houter, hbelow 5 (by decide), hbelow 6 (by decide)⟩

end Rulebook

end ScreenDoc
