import ScreenDoc.Proofs.Expansion.Anchor
import ScreenDoc.Proofs.Expansion.Recorded
import ScreenDoc.Proofs.Session.Run

/-!
# Coverage of what values read

A session records the dependencies of its views when it makes them, and never in between. A value
that is brought up to date may come to read another path than before: a ternary takes its other
branch, or a computed index moves to another item. The place that a binding follows stays the same
and is always recorded, but if nothing lies there any more, the text of the place is evaluated and
reads further paths. What the values read is covered only as long as nothing of this has happened,
or the path was recorded for the view anyway.

## Main definitions

- `Session.Covers` — every path that a value reads is recorded for its view
- `Bound.Drifts` — a value has come to read a path since its view was made

## Main results

- `Session.Reaches.anchored` — what is recorded for the values of a view, anywhere in a run
- `Session.Reaches.covers_iff` — when the paths that values read are covered, anywhere in a run
- `Session.not_covers_after_toggle` — a run that loses the coverage
-/

namespace ScreenDoc

namespace Bound

/-- Whether a path that a value reads now may not have been recorded when its view was made: the
value did not read it then, or the value follows a place where nothing lies now, and the path is
another one. The text of a place with an index of more than 64 bits is never read as a path. -/
def Drifts (built state : Store) (bound : Bound) (path : Path) : Prop :=
  path ∉ bound.asks built ∨
    ∃ place : Path, place.Written ∧ bound.path? = some place.text ∧
      (place.isBounded → state.get? place = none ∧ path ≠ place)

/-- A template drifts if it reads what it did not read before. -/
theorem Drifts.not_mem_asks {built state : Store} {bound : Bound} {path : Path}
    (h : bound.Drifts built state path) (htemplate : bound.isTemplate = true) :
    path ∉ bound.asks built := by
  rcases h with hnew | ⟨place, -, hname, -⟩
  · exact hnew
  · cases bound with
    | template => cases hname
    | _ => cases htemplate

/-- What an anchored value reads is covered, if it drifts to nothing else. -/
theorem IsAnchored.covered {built state : Store} {covered : Path → Prop} {bound : Bound}
    (h : bound.IsAnchored built covered) {path : Path} (hpath : path ∈ bound.asks state)
    (hdrifts : bound.Drifts built state path → covered path) : covered path := by
  rcases h with ⟨place, hwritten, hname, hplace⟩ | hasks
  · by_cases hother : path = place
    · exact hother ▸ hplace
    · refine hdrifts (.inr ⟨place, hwritten, hname, fun hbounded => ⟨?_, hother⟩⟩)
      have hagain : Path.ofText? place.text = some place :=
        (Path.ofText?_text hwritten).trans (if_pos hbounded)
      -- A value at the place is all that is read.
      by_contra hvalue
      rw [(asks_of_path? hname hagain state).2 (Option.isSome_iff_ne_none.2 hvalue)] at hpath
      exact hother (List.mem_singleton.1 hpath)
  · by_cases hold : path ∈ bound.asks built
    · exact hasks path hold
    · exact hdrifts (.inl hold)

/-- The place of an anchored binding is covered. -/
theorem IsAnchored.covered_place {built : Store} {covered : Path → Prop} {bound : Bound}
    (h : bound.IsAnchored built covered) {name : String} (hname : bound.path? = some name)
    {place : Path} (hplace : Path.ofText? name = some place) : covered place := by
  rcases h with ⟨other, hwritten, hother, hcovered⟩ | hasks
  · obtain rfl : other.text = name := Option.some.inj (hother.symm.trans hname)
    obtain rfl := hwritten.eq_of_ofText? hplace
    exact hcovered
  · exact hasks place (asks_of_path? hname hplace built).1

theorem IsAnchored.of_face_eq {built : Store} {covered : Path → Prop} {a b : Bound}
    (h : a.IsAnchored built covered) (hface : a.face = b.face) : b.IsAnchored built covered := by
  rw [IsAnchored, ← path?_eq_of_face_eq hface, ← asks_eq_of_face_eq hface]
  exact h

end Bound

namespace Session

/-- Whether every path that a value of a view reads over the present state is recorded for the
view. -/
def Covers (session : Session) : Prop :=
  ∀ id view, session.tree.arena.get? id = some view → ∀ bound ∈ view.kind.held,
    ∀ path ∈ bound.asks session.state, ⟨id, ⟨path, .value⟩⟩ ∈ session.index.entries

/-- At every point of a run, what is recorded for the values of a view is what was recorded when the
view was made. -/
theorem Reaches.anchored {rulebook : Rulebook} {document : Document} {built : Store}
    {session : Session} (h : Reaches rulebook document built session) {id : ViewId} {view : View}
    (hview : session.tree.arena.get? id = some view) {bound : Bound}
    (hbound : bound ∈ view.kind.held) :
    bound.IsAnchored built fun path => ⟨id, ⟨path, .value⟩⟩ ∈ session.index.entries := by
  obtain ⟨-, -, tree, hbuild, hfaces⟩ := h.made
  obtain ⟨made, hmade, hsame⟩ := hfaces.exists_view_left hview
  obtain ⟨first, hfirst, hface⟩ := hsame.symm.exists_of_mem_held hbound
  exact (Rulebook.anchored_of_build hbuild hmade hfirst).of_face_eq hface

/-- At every point of a run, the dependencies are those of the time when the views were made, and
the place that a binding follows is among them. So the paths that values read are covered exactly if
those are recorded anyway that a template has come to read since then, or that the text of a place
reads where nothing lies. -/
theorem Reaches.covers_iff {rulebook : Rulebook} {document : Document} {built : Store}
    {session : Session} (h : Reaches rulebook document built session) :
    (∃ tree, rulebook.build document built true = .ok (tree, session.index)) ∧
      (∀ id view, session.tree.arena.get? id = some view → ∀ bound ∈ view.kind.held,
        ∀ name place, bound.path? = some name → Path.ofText? name = some place →
          ⟨id, ⟨place, .value⟩⟩ ∈ session.index.entries) ∧
      (session.Covers ↔
        ∀ id view, session.tree.arena.get? id = some view → ∀ bound ∈ view.kind.held,
          ∀ path ∈ bound.asks session.state, bound.Drifts built session.state path →
            ⟨id, ⟨path, .value⟩⟩ ∈ session.index.entries) := by
  obtain ⟨-, -, tree, hbuild, -⟩ := h.made
  refine ⟨⟨tree, hbuild⟩, ?_, ?_, ?_⟩
  · intro id view hview bound hbound name place hname hplace
    exact (h.anchored hview hbound).covered_place hname hplace
  · intro hcovers id view hview bound hbound path hpath _
    exact hcovers id view hview bound hbound path hpath
  · intro hdrifts id view hview bound hbound path hpath
    exact (h.anchored hview hbound).covered hpath (hdrifts id view hview bound hbound path hpath)

/-- When the session starts, all that is read is covered. -/
theorem Reaches.covers_iff_start :
    ∃ session, Reaches .standard .ternary (.ofValues Document.ternary.state) session ∧
      session.Covers := by
  have hfacts : (Session.start .ternary .standard).toOption.any
      (fun session => session.tree.isTemplated) = true := by
    decide +kernel
  obtain ⟨session, hstart, htemplated⟩ := exists_of_any_toOption hfacts
  have hreaches := Reaches.start hstart
  refine ⟨session, hreaches, hreaches.covers_iff.2.2.2 ?_⟩
  intro id view hview bound hbound path hpath hdrifts
  obtain ⟨-, hoverlooked, htemplates⟩ :=
    ViewKind.isTemplated_iff.1 (ViewTree.isTemplated_get? htemplated hview)
  rw [ViewKind.held, hoverlooked, List.append_nil] at hbound
  rw [state_of_start hstart] at hpath
  exact absurd hpath (hdrifts.not_mem_asks (htemplates bound hbound))

/-- Once the condition has been turned in place, the ternary reads a path that is not recorded for
its view. -/
theorem not_covers_after_toggle :
    ¬ ∀ (document : Document) (built : Store) (session : Session),
      Reaches .standard document built session → session.Covers := by
  intro hcovers
  have hfacts : (Session.start .ternary .standard).toOption.any (fun session =>
      let outcome := session.call (.toggle "flag")
      !outcome.hasRenewed &&
        (outcome.session.tree.arena.get? 1).any (fun view =>
          view.kind.held.any fun bound =>
            (bound.asks outcome.session.state).contains (.ofKey "b")) &&
        !outcome.session.index.entries.contains ⟨1, ⟨.ofKey "b", .value⟩⟩) = true := by
    decide +kernel
  obtain ⟨session, hstart, hfacts⟩ := exists_of_any_toOption hfacts
  simp only [Bool.and_eq_true, Bool.not_eq_true'] at hfacts
  obtain ⟨⟨hkept, hview⟩, hmissing⟩ := hfacts
  have hall := hcovers _ _ _ ((Reaches.start hstart).kept (.toggle "flag") hkept)
  obtain ⟨view, hview, hheld⟩ := (Option.any_eq_true _ _).1 hview
  obtain ⟨bound, hbound, hpath⟩ := List.any_eq_true.1 hheld
  have hrecorded := hall 1 view hview bound hbound _ (List.contains_iff_mem.1 hpath)
  rw [List.contains_iff_mem.2 hrecorded] at hmissing
  cases hmissing

end Session

end ScreenDoc
