import ScreenDoc.Proofs.Expansion.Planted

/-!
# Recorded dependencies

The expansion of a document records every path that it asks for. So the recorded paths decide the
whole result: two states that agree on them give the same tree and the same dependencies.

## Main definitions

- `Document.ofTexts`, `Document.ternary` — documents that show some texts

## Main results

- `Rulebook.build_eq_of_recorded` — states that agree on the recorded paths give the same result
-/

namespace ScreenDoc

namespace Rulebook

variable {rulebook : Rulebook} {document : Document} {before after : Store} {tree : ViewTree}
  {index : DependencyIndex}

/-- States that agree on all recorded paths give the same tree and the same dependencies. -/
theorem build_eq_of_recorded (h : rulebook.build document before true = .ok (tree, index))
    (hagree : ∀ entry ∈ index.entries,
      before.get? entry.dependency.path = after.get? entry.dependency.path) :
    rulebook.build document after true = .ok ({ tree with state := after }, index) := by
  obtain ⟨hrecorded, -⟩ := build_alike_self (e := Comparison.course before before) rfl rfl
    (fun _ _ twins => Comparison.course_basic twins rfl) h
  have hasked : ∀ path ∈ (rulebook.reading document true).paths before.get?,
      before.get? path = after.get? path := by
    intro path hpath
    by_cases hrooted : path.firstKey?.isSome
    · obtain ⟨entry, hentry, rfl⟩ := hrecorded path hpath hrooted
      exact hagree entry hentry
    · -- Such a path is not recorded, but leads nowhere in both states.
      rw [Store.get?_eq_none_of_not_rooted _ hrooted, Store.get?_eq_none_of_not_rooted _ hrooted]
  have hvalue := Reading.value_eq_of_agree (rulebook.reading document true) hasked
  rw [build] at h ⊢
  rw [← hvalue]
  cases hreading : (rulebook.reading document true).value before.get? with
  | error error =>
    rw [hreading] at h
    cases h
  | ok built =>
    rw [hreading] at h
    cases h
    rfl

end Rulebook

/-- A document that shows some texts below each other. -/
def Document.ofTexts (texts : List String) (state : List (String × Value)) : Document where
  id := "texts"
  version := none
  state := state
  styles := []
  dataSources := []
  actions := []
  root := ⟨none, none, none, none, none, ⟨none, none⟩,
    texts.map fun text => .component { Leaf.ofType "text" with text := some text }⟩

/-- A document that shows one of two values, by a condition. -/
def Document.ternary : Document :=
  .ofTexts ["$\x7bflag ? a : b\x7d"]
    [("a", .string "x"), ("b", .string "y"), ("flag", .bool true)]

namespace Rulebook

/-- The recorded paths of a ternary are those of its condition and of the branch that it takes. A
state that differs at the other branch gives the same tree. -/
theorem build_eq_of_recorded_ternary :
    let before := Store.ofValues [("a", .string "x"), ("flag", .bool true)]
    let after := Store.ofValues [("a", .string "x"), ("b", .string "y"), ("flag", .bool true)]
    ∃ tree index, standard.build .ternary before true = .ok (tree, index) ∧
      index.entries.map (fun entry => entry.dependency.path) = [.ofKey "flag", .ofKey "a"] ∧
      standard.build .ternary after true = .ok ({ tree with state := after }, index) := by
  intro before after
  have hpaths : (standard.build .ternary before true).toOption.map (fun built =>
      built.2.entries.map fun entry => entry.dependency.path) =
        some [.ofKey "flag", .ofKey "a"] := by
    decide +kernel
  cases hbuild : standard.build .ternary before true with
  | error error =>
    rw [hbuild] at hpaths
    cases hpaths
  | ok built =>
    obtain ⟨tree, index⟩ := built
    rw [hbuild] at hpaths
    have hentries : index.entries.map (fun entry => entry.dependency.path) =
        [.ofKey "flag", .ofKey "a"] := Option.some.inj hpaths
    refine ⟨tree, index, rfl, hentries, build_eq_of_recorded hbuild ?_⟩
    intro entry hentry
    have hmem : entry.dependency.path ∈ [Path.ofKey "flag", Path.ofKey "a"] := by
      rw [← hentries]
      exact List.mem_map_of_mem hentry
    rcases List.mem_cons.1 hmem with hpath | hmem
    · rw [hpath]
      rfl
    · rw [List.mem_singleton.1 hmem]
      rfl

end Rulebook

end ScreenDoc
