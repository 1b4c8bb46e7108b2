import ScreenDoc.Proofs.Expansion.Planted
import ScreenDoc.Proofs.View.Picture
import ScreenDoc.Session.Basic

/-!
# Runs of a session

A session is written to again and again. A write is refused, or it changes the state, and then the
views are made anew, or those that depend on the path are brought up to date, or the tree stays as
it was because the document cannot be expanded any more.

## Main definitions

- `Session.Call`, `Session.call` — a write to a session, and what it does
- `Session.Effect` — the four ways in which a write can end
- `Session.Reaches` — the sessions that writes lead to, and the state over which the views were made

## Main results

- `Session.effect` — a write ends in one of the four ways
- `Session.Reaches.made` — between two expansions, a tree keeps its links, the dependencies of its
  views and the places where its values come from
-/

namespace ScreenDoc

/-! ### Writes -/

namespace Session

/-- A write to a session. -/
inductive Call where
  | set (text : String) (value : Value)
  | toggle (text : String)

/-- The text of the path that is written. -/
def Call.text : Call → String
  | .set text _ => text
  | .toggle text => text

/-- What a write does. -/
def call (session : Session) : Call → Outcome
  | .set text value => session.set text value
  | .toggle text => session.toggle text

/-- The value that a write puts at a path. -/
def Call.valueOver (store : Store) (path : Path) : Call → Value
  | .set _ value => value
  | .toggle _ => .bool !(((store.get? path).bind Value.bool?).getD false)

/-- A toggle is a write of the value that it computes from the state. -/
theorem call_eq (session : Session) (call : Call) :
    session.call call =
      match Path.parse call.text with
      | .error error => ⟨.error (.state error), session, []⟩
      | .ok path => session.setPath path (call.valueOver session.state path) := by
  cases call <;> rfl

/-- The ways in which a write at the path that a text writes can end. -/
inductive Effect (session : Session) (text : String) : Outcome → Prop where
  /-- The write is refused. -/
  | refused (error : AccessError) : Effect session text ⟨.error (.state error), session, []⟩
  /-- The state has changed, and the document cannot be expanded over it. -/
  | failed {path : Path} {value : Value} {update : Update Unit} {error : Problem}
    (hpath : Path.parse text = .ok path) (hset : session.state.set path value = .ok update)
    (hneeds : session.needsRenewal path (session.state.growth? path) = true)
    (hbuild : session.rulebook.build session.document update.store true = .error error) :
    Effect session text
      ⟨.error (.expansion error), session.withState update.store, update.changes⟩
  /-- The views have been made anew. -/
  | renewed {path : Path} {value : Value} {update : Update Unit} {tree : ViewTree}
    {index : DependencyIndex}
    (hpath : Path.parse text = .ok path) (hset : session.state.set path value = .ok update)
    (hneeds : session.needsRenewal path (session.state.growth? path) = true)
    (hbuild : session.rulebook.build session.document update.store true = .ok (tree, index)) :
    Effect session text
      ⟨.ok ⟨[Arena.root], [Arena.root], true⟩, { session with tree, index }, update.changes⟩
  /-- The views that depend on the path have been brought up to date. -/
  | refreshed {path : Path} {value : Value} {update : Update Unit}
    (hpath : Path.parse text = .ok path) (hset : session.state.set path value = .ok update)
    (hneeds : session.needsRenewal path (session.state.growth? path) = false) :
    Effect session text
      ⟨.ok ((session.withState update.store).refresh path).1,
        ((session.withState update.store).refresh path).2, update.changes⟩

/-- A write that asks for a new tree, once the state has taken it: the document is expanded anew
over the live state. -/
def renewal (session : Session) (update : Update Unit) : Outcome :=
  match session.rulebook.build session.document update.store true with
  | .ok (tree, index) =>
    ⟨.ok ⟨[Arena.root], [Arena.root], true⟩, { session with tree, index }, update.changes⟩
  | .error problem =>
    ⟨.error (.expansion problem), session.withState update.store, update.changes⟩

theorem setPath_eq_renewal {session : Session} {path : Path} {value : Value} {update : Update Unit}
    (hset : session.state.set path value = .ok update)
    (hneeds : session.needsRenewal path (session.state.growth? path) = true) :
    session.setPath path value = session.renewal update := by
  have hneeds' : (session.withState update.store).needsRenewal path
      (session.state.growth? path) = true := hneeds
  have hrenew : (session.withState update.store).renew =
      (session.rulebook.build session.document update.store true).map fun built =>
        { session with tree := built.1, index := built.2 } := by
    rw [renew]
    cases hbuild : session.rulebook.build session.document update.store true <;>
      simp only [withState, state, hbuild] <;> rfl
  rw [setPath, hset, renewal]
  simp only [settleGrown]
  rw [if_pos hneeds', hrenew]
  cases session.rulebook.build session.document update.store true <;> rfl

theorem effect_setPath (session : Session) {text : String} {path : Path} (value : Value)
    (hpath : Path.parse text = .ok path) : session.Effect text (session.setPath path value) := by
  cases hset : session.state.set path value with
  | error error =>
    rw [setPath, hset]
    exact .refused error
  | ok update =>
    cases hneeds : session.needsRenewal path (session.state.growth? path) with
    | false =>
      have hneeds' : (session.withState update.store).needsRenewal path
          (session.state.growth? path) = false := hneeds
      rw [setPath, hset]
      simp only [settleGrown, hneeds', Bool.false_eq_true, if_false]
      exact .refreshed hpath hset hneeds
    | true =>
      rw [setPath_eq_renewal hset hneeds, renewal]
      cases hbuild : session.rulebook.build session.document update.store true with
      | error error => exact .failed hpath hset hneeds hbuild
      | ok built => exact .renewed hpath hset hneeds hbuild

/-- A write ends in one of four ways. -/
theorem effect (session : Session) (call : Call) :
    session.Effect call.text (session.call call) := by
  rw [call_eq]
  cases hpath : Path.parse call.text with
  | error error => exact .refused error
  | ok path => exact effect_setPath session _ hpath

end Session

namespace Session

/-! ### Runs -/

/-- The session of a document holds the tree of its initial state. -/
theorem build_of_start {document : Document} {rulebook : Rulebook} {session : Session}
    (h : start document rulebook = .ok session) :
    session.document = document ∧ session.rulebook = rulebook ∧
      rulebook.build document (.ofValues document.state) true =
        .ok (session.tree, session.index) := by
  rw [start, Rulebook.renderTracked] at h
  cases hbuild : rulebook.build document (.ofValues document.state) true with
  | error error =>
    rw [hbuild] at h
    cases h
  | ok made =>
    rw [hbuild] at h
    cases h
    exact ⟨rfl, rfl, rfl⟩

theorem state_of_start {document : Document} {rulebook : Rulebook} {session : Session}
    (h : start document rulebook = .ok session) : session.state = .ofValues document.state :=
  Rulebook.state_of_build (build_of_start h).2.2

/-- Whether a write has made the views anew. -/
def Outcome.hasRenewed (outcome : Outcome) : Bool :=
  match outcome.result with
  | .ok update => update.renewed
  | .error _ => false

/-- The sessions of a document that writes lead to, together with the state over which their views
were last made. -/
inductive Reaches (rulebook : Rulebook) (document : Document) : Store → Session → Prop where
  /-- The views are made when the session starts. -/
  | start {session : Session} (h : Session.start document rulebook = .ok session) :
    Reaches rulebook document (.ofValues document.state) session
  /-- A write makes them anew. -/
  | renewed {built : Store} {session : Session} (h : Reaches rulebook document built session)
    (call : Call) (hrenewed : (session.call call).hasRenewed = true) :
    Reaches rulebook document (session.call call).session.state (session.call call).session
  /-- A write leaves them in place. -/
  | kept {built : Store} {session : Session} (h : Reaches rulebook document built session)
    (call : Call) (hkept : (session.call call).hasRenewed = false) :
    Reaches rulebook document built (session.call call).session

namespace Reaches

variable {rulebook : Rulebook} {document : Document} {built : Store} {session : Session}

/-- Between two expansions, a tree keeps its links, the dependencies of its views and the places
where its values come from. -/
theorem made (h : Reaches rulebook document built session) :
    session.document = document ∧ session.rulebook = rulebook ∧
      ∃ tree, rulebook.build document built true = .ok (tree, session.index) ∧
        tree.Matches View.SameFaces session.tree := by
  induction h with
  | @start session h =>
    obtain ⟨hdocument, hrulebook, hbuild⟩ := build_of_start h
    exact ⟨hdocument, hrulebook, session.tree, hbuild, .ofSame .refl rfl⟩
  | @renewed built session h call hrenewed ih =>
    obtain ⟨hdocument, hrulebook, -⟩ := ih
    have heffect := session.effect call
    generalize session.call call = outcome at heffect hrenewed ⊢
    cases heffect with
    | refused error => cases hrenewed
    | failed hpath hset hneeds hbuild => cases hrenewed
    | @renewed path value update tree index hpath hset hneeds hbuild =>
      have hstate : tree.state = update.store := Rulebook.state_of_build hbuild
      refine ⟨hdocument, hrulebook, tree, ?_, .ofSame .refl rfl⟩
      rw [← hdocument, ← hrulebook]
      show session.rulebook.build session.document tree.state true = .ok (tree, index)
      rw [hstate]
      exact hbuild
    | refreshed hpath hset hneeds => cases hrenewed
  | @kept built session h call hkept ih =>
    obtain ⟨hdocument, hrulebook, tree, hbuild, hfaces⟩ := ih
    have heffect := session.effect call
    generalize session.call call = outcome at heffect hkept ⊢
    cases heffect with
    | refused error => exact ⟨hdocument, hrulebook, tree, hbuild, hfaces⟩
    | failed hpath hset hneeds hfailed =>
      exact ⟨hdocument, hrulebook, tree, hbuild, hfaces.trans .trans (.ofSame .refl rfl)⟩
    | renewed hpath hset hneeds hbuild => cases hkept
    | @refreshed path value update hpath hset hneeds =>
      have hwritten : session.tree.Matches View.SameFaces
          (session.withState update.store).tree := .ofSame .refl rfl
      have hrefresh := (session.withState update.store).tree.matches_refreshAll
        (session.index.nodup_concerned path)
      refine ⟨hdocument, hrulebook, tree, hbuild, (hfaces.trans .trans hwritten).trans .trans ?_⟩
      exact hrefresh

end Reaches

end Session

end ScreenDoc
