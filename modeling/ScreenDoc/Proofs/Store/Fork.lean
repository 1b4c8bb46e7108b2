import ScreenDoc.Store.Path

/-!
# Where two paths part

Two paths either overlap, so that one of them equals or extends the other, or they part: after some
shared steps they take different ones.

## Main definitions

- `Fork` — the shared steps of two paths, the first steps that differ, and what follows them
- `Path.fork?` — where two paths part, if they do

## Main results

- `Path.fork?_eq_some_iff` — a fork splits both paths, at different steps
- `Path.overlaps_eq_false_iff` — paths that do not overlap part somewhere
-/

namespace ScreenDoc

/-- Whether a step is the key of a field. -/
def Segment.isKey : Segment → Bool
  | .key _ => true
  | .index _ => false

/-- Where two paths part. -/
structure Fork where
  /-- The steps that both paths take. -/
  shared : List Segment
  /-- The first step of the one path that the other one does not take. -/
  here : Segment
  /-- What follows it. -/
  hereAfter : List Segment
  /-- The step that the other path takes instead. -/
  there : Segment
  /-- What follows that one. -/
  thereAfter : List Segment
deriving DecidableEq, Repr

namespace Fork

/-- Whether the paths part at a key and an index, so that no value has room for both of them. -/
def isMixed (fork : Fork) : Bool :=
  fork.here.isKey ≠ fork.there.isKey

/-- Where the steps of two paths part. -/
def ofSegments? : List Segment → List Segment → Option Fork
  | a :: as, b :: bs =>
    if a = b then (ofSegments? as bs).map fun fork => { fork with shared := a :: fork.shared }
    else some ⟨[], a, as, b, bs⟩
  | _, _ => none

theorem ofSegments?_eq_some_iff {as bs : List Segment} {fork : Fork} :
    ofSegments? as bs = some fork ↔
      as = fork.shared ++ fork.here :: fork.hereAfter ∧
        bs = fork.shared ++ fork.there :: fork.thereAfter ∧ fork.here ≠ fork.there := by
  induction as generalizing bs fork with
  | nil => simp [ofSegments?]
  | cons a as ih =>
    cases bs with
    | nil => simp [ofSegments?]
    | cons b bs =>
      obtain ⟨shared, here, hereAfter, there, thereAfter⟩ := fork
      rw [ofSegments?]
      by_cases hab : a = b
      · subst hab
        rw [if_pos rfl, Option.map_eq_some_iff]
        constructor
        · rintro ⟨fork, hfork, heq⟩
          obtain ⟨has, hbs, hne⟩ := ih.1 hfork
          simp only [Fork.mk.injEq] at heq
          obtain ⟨rfl, rfl, rfl, rfl, rfl⟩ := heq
          exact ⟨congrArg (a :: ·) has, congrArg (a :: ·) hbs, hne⟩
        · rintro ⟨has, hbs, hne⟩
          cases shared with
          | nil =>
            -- Both paths would take the same step where they are said to part.
            simp only [List.nil_append, List.cons.injEq] at has hbs
            exact absurd (has.1.symm.trans hbs.1) hne
          | cons s shared =>
            simp only [List.cons_append, List.cons.injEq] at has hbs
            obtain ⟨rfl, has⟩ := has
            exact ⟨⟨shared, here, hereAfter, there, thereAfter⟩, ih.2 ⟨has, hbs.2, hne⟩, rfl⟩
      · rw [if_neg hab, Option.some.injEq]
        constructor
        · intro heq
          simp only [Fork.mk.injEq] at heq
          obtain ⟨rfl, rfl, rfl, rfl, rfl⟩ := heq
          exact ⟨rfl, rfl, hab⟩
        · rintro ⟨has, hbs, -⟩
          cases shared with
          | nil =>
            simp only [List.nil_append, List.cons.injEq] at has hbs
            obtain ⟨rfl, rfl⟩ := has
            obtain ⟨rfl, rfl⟩ := hbs
            rfl
          | cons s shared =>
            simp only [List.cons_append, List.cons.injEq] at has hbs
            exact absurd (has.1.trans hbs.1.symm) hab

/-- Lists of steps of which none is a beginning of the other one part somewhere. -/
theorem exists_ofSegments? {as bs : List Segment} (hab : ¬ as <+: bs) (hba : ¬ bs <+: as) :
    ∃ fork, ofSegments? as bs = some fork := by
  induction as generalizing bs with
  | nil => exact absurd List.nil_prefix hab
  | cons a as ih =>
    cases bs with
    | nil => exact absurd List.nil_prefix hba
    | cons b bs =>
      rw [ofSegments?]
      by_cases h : a = b
      · subst h
        rw [List.cons_prefix_cons] at hab hba
        obtain ⟨fork, hfork⟩ := ih (fun h => hab ⟨rfl, h⟩) (fun h => hba ⟨rfl, h⟩)
        exact ⟨{ fork with shared := a :: fork.shared }, by rw [if_pos rfl, hfork]; rfl⟩
      · exact ⟨⟨[], a, as, b, bs⟩, by rw [if_neg h]⟩

end Fork

namespace Path

/-- Where two paths part, if they do. -/
def fork? (path other : Path) : Option Fork :=
  Fork.ofSegments? path.segments other.segments

/-- A fork splits both paths, at different steps. -/
theorem fork?_eq_some_iff {path other : Path} {fork : Fork} :
    path.fork? other = some fork ↔
      path.segments = fork.shared ++ fork.here :: fork.hereAfter ∧
        other.segments = fork.shared ++ fork.there :: fork.thereAfter ∧
          fork.here ≠ fork.there :=
  Fork.ofSegments?_eq_some_iff

theorem startsWith_iff {path start : Path} :
    path.startsWith start = true ↔ start.segments <+: path.segments :=
  List.isPrefixOf_iff_prefix

theorem startsWith_eq_false_iff {path start : Path} :
    path.startsWith start = false ↔ ¬ start.segments <+: path.segments := by
  rw [← startsWith_iff, Bool.not_eq_true]

theorem overlaps_eq_false_iff {path other : Path} :
    path.overlaps other = false ↔
      ¬ other.segments <+: path.segments ∧ ¬ path.segments <+: other.segments := by
  rw [overlaps, Bool.or_eq_false_iff, startsWith_eq_false_iff, startsWith_eq_false_iff]

/-- Paths that do not overlap part somewhere. -/
theorem exists_fork? {path other : Path} (h : path.overlaps other = false) :
    ∃ fork, path.fork? other = some fork := by
  rw [overlaps_eq_false_iff] at h
  exact Fork.exists_ofSegments? h.2 h.1

end Path

end ScreenDoc
