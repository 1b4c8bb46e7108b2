import ScreenDoc.Proofs.Expansion.Control
import ScreenDoc.Proofs.Session.Refinement
import ScreenDoc.Proofs.Store.ReadLaw

/-!
# Writing back through controls

A host writes what a user enters into a control back to the place that the control sets. After that,
all controls that set the same place show what was written, whether they were brought up to date in
place or made anew. There is one way in which a control can name a place that cannot be written: it
stands outside of all iterations and is bound to a text that is no path, such as `rows[i]`.

## Main definitions

- `Session.Operation`, `Session.performAll` — what a host can do to a session
- `Session.Made` — the views have been made from the document, and only been brought up to date
  since
- `Session.controlNames`, `Session.WritesBack` — the names of the places that controls set, and what
  writing to such a name does

## Main results

- `Session.Made.performAll` — whatever a host does, the views stay made from the document
- `Session.start_writesBack` — names of controls can be written back to, unless they are no paths
- `Session.not_writesBack_looseRow` — a control whose name is no path
-/

namespace ScreenDoc

/-! ### Controls of related views -/

namespace ViewKind

theorem control?_frame (kind : ViewKind) :
    kind.frame.control?.map Prod.snd = kind.control?.map Prod.snd := by
  cases kind with
  | toggle view => simp [frame, control?, Function.comp_def]
  | slider view => simp [frame, control?, Function.comp_def]
  | textField view => simp [frame, control?, Function.comp_def]
  | _ => rfl

/-- The value of a control is the first one of its view. -/
theorem head?_bounds_of_control? {kind : ViewKind} {bound : Bound} {name : String}
    (h : kind.control? = some (bound, name)) : kind.bounds.head? = some bound := by
  cases kind with
  | toggle view =>
    obtain ⟨_, -, heq⟩ := Option.map_eq_some_iff.1 h
    cases heq
    rfl
  | slider view =>
    obtain ⟨_, -, heq⟩ := Option.map_eq_some_iff.1 h
    cases heq
    rfl
  | textField view =>
    obtain ⟨_, -, heq⟩ := Option.map_eq_some_iff.1 h
    cases heq
    rfl
  | _ => cases h

end ViewKind

/-- A view that takes its values from where another one does sets the same place. -/
theorem View.SameFaces.exists_control {a b : View} (h : a.SameFaces b) {bound : Bound}
    {name : String} (hcontrol : b.kind.control? = some (bound, name)) :
    ∃ other, a.kind.control? = some (other, name) ∧ other.face = bound.face := by
  have hname : a.kind.control?.map Prod.snd = some name := by
    rw [← ViewKind.control?_frame, h.frame, ViewKind.control?_frame, hcontrol, Option.map_some]
  obtain ⟨⟨other, name'⟩, hother, heq⟩ := Option.map_eq_some_iff.1 hname
  obtain rfl : name' = name := heq
  refine ⟨other, hother, ?_⟩
  have hfaces := congrArg List.head? h.bounds
  rw [List.head?_map, List.head?_map, ViewKind.head?_bounds_of_control? hother,
    ViewKind.head?_bounds_of_control? hcontrol] at hfaces
  exact Option.some.inj hfaces

/-- A control that is brought up to date shows what lies at the place that it follows. -/
theorem View.current_control_refreshed {store : Store} {view : View} {bound : Bound}
    {name : String} (hcontrol : (view.refreshed store).kind.control? = some (bound, name))
    {path : Path} (hpath : Path.ofText? name = some path) {shown : Value}
    (hface : bound.face = (Bound.binding name shown).face) {value : Value}
    (hvalue : store.get? path = some value) : bound.current = value := by
  have hhead := ViewKind.head?_bounds_of_control? hcontrol
  rw [refreshed, ViewKind.bounds_refresh, List.head?_map, Option.map_eq_some_iff] at hhead
  obtain ⟨before, -, rfl⟩ := hhead
  rw [Bound.face_refresh] at hface
  obtain ⟨v, w, -, heq⟩ | ⟨p, v, w, rfl, heq⟩ | ⟨s, v, w, scope, scope', -, heq, -⟩ :=
    Bound.face_eq_cases hface
  · cases heq
  · obtain rfl : name = p := (Bound.binding.inj heq).1
    rw [Bound.current_refresh]
    simp only [Bound.shownOver, Bound.evaluation, Bound.rescoped, Bound.reading,
      Reading.value_bind, Reading.value, Bound.current]
    have hread := Scope.read_of_lookup_eq_none hpath (Scope.lookup_empty path)
    exact (followPath_of_read hread rfl).2 value hvalue
  · cases heq

namespace Session

/-! ### Operations -/

/-- What a host can do to a session. -/
inductive Operation where
  | request (request : Request)
  /-- To bring the tree up to date as after a write at a path. -/
  | settle (written : Path)

/-- A session after an operation. -/
def perform (session : Session) : Operation → Session
  | .request request => (session.serve request).after
  | .settle written => (session.settle written).2

/-- A session after several operations. -/
def performAll (session : Session) (operations : List Operation) : Session :=
  operations.foldl perform session

/-- Whether the views of a session have been made from the document over some state, and have only
been brought up to date since. -/
structure Made (rulebook : Rulebook) (document : Document) (session : Session) : Prop where
  document_eq : session.document = document
  rulebook_eq : session.rulebook = rulebook
  expanded : ∃ built tree, rulebook.build document built true = .ok (tree, session.index) ∧
    tree.Matches View.SameFaces session.tree

namespace Made

variable {rulebook : Rulebook} {document : Document} {session : Session}

theorem start (h : Session.start document rulebook = .ok session) :
    session.Made rulebook document := by
  obtain ⟨hdocument, hrulebook, hbuild⟩ := build_of_start h
  exact ⟨hdocument, hrulebook, _, session.tree, hbuild, .ofSame .refl rfl⟩

theorem withState (h : session.Made rulebook document) (state : Store) :
    (session.withState state).Made rulebook document := by
  obtain ⟨hdocument, hrulebook, built, tree, hbuild, hfaces⟩ := h
  exact ⟨hdocument, hrulebook, built, tree, hbuild, hfaces.trans .trans (.ofSame .refl rfl)⟩

theorem settleGrown (h : session.Made rulebook document) (written : Path) (grown : Option Path) :
    (session.settleGrown written grown).2.Made rulebook document := by
  rw [Session.settleGrown]
  by_cases hneeds : session.needsRenewal written grown = true
  · rw [if_pos hneeds, renew]
    cases hbuild : session.rulebook.build session.document session.state true with
    | error problem => exact h
    | ok made =>
      obtain ⟨tree, index⟩ := made
      rw [h.document_eq, h.rulebook_eq] at hbuild
      exact ⟨h.document_eq, h.rulebook_eq, session.state, tree, hbuild, .ofSame .refl rfl⟩
  · rw [if_neg hneeds]
    obtain ⟨hdocument, hrulebook, built, tree, hbuild, hfaces⟩ := h
    have hrefresh := session.tree.matches_refreshAll (session.index.nodup_concerned written)
    exact ⟨hdocument, hrulebook, built, tree, hbuild, hfaces.trans .trans hrefresh⟩

theorem call (h : session.Made rulebook document) (call : Call) :
    (session.call call).session.Made rulebook document := by
  cases hwrite : session.state.write call with
  | error error =>
    rw [call_of_refused hwrite]
    exact h
  | ok update =>
    obtain ⟨path, grown, hcall⟩ := call_of_accepted hwrite
    rw [hcall]
    exact (h.withState update.store).settleGrown path grown

/-- Whatever a host does, the views stay made from the document. -/
theorem perform (h : session.Made rulebook document) (operation : Operation) :
    (session.perform operation).Made rulebook document := by
  cases operation with
  | settle written => exact h.settleGrown written none
  | request request =>
    cases request with
    | write call => exact h.call call
    | subscribe => exact h.withState _
    | unsubscribe id => exact h.withState _

theorem performAll (h : session.Made rulebook document) (operations : List Operation) :
    (session.performAll operations).Made rulebook document := by
  induction operations generalizing session with
  | nil => exact h
  | cons operation rest ih => exact ih (h.perform operation)

end Made

/-! ### Controls of a session -/

/-- The names of the places that the controls of the tree set. -/
def controlNames (session : Session) : List String :=
  session.tree.arena.entries.toList.filterMap fun entry => entry.view.kind.control?.map Prod.snd

theorem exists_control_of_mem_controlNames {session : Session} {name : String}
    (h : name ∈ session.controlNames) :
    ∃ id view bound, session.tree.arena.get? id = some view ∧
      view.kind.control? = some (bound, name) := by
  obtain ⟨entry, hentry, hname⟩ := List.mem_filterMap.1 h
  obtain ⟨⟨bound, target⟩, hcontrol, rfl⟩ := Option.map_eq_some_iff.1 hname
  obtain ⟨id, hid, hget⟩ := Array.getElem_of_mem (Array.mem_toList_iff.1 hentry)
  refine ⟨id, entry.view, bound, ?_, hcontrol⟩
  rw [Arena.get?, Array.getElem?_eq_getElem hid, hget, Option.map_some]

/-- Whether a value that is written to the place of a name is then shown by all controls that set
this place. -/
def WritesBack (session : Session) (name : String) : Prop :=
  ∀ value update, (session.set name value).result = .ok update →
    ∀ id view bound, (session.set name value).session.tree.arena.get? id = some view →
      view.kind.control? = some (bound, name) → bound.current = value

/-- Whether a name is the text of a path with an index that is too great to be read. -/
def IsOverlong (name : String) : Prop :=
  ∃ path : Path, path.Written ∧ path.isBounded = false ∧ name = path.text

variable {rulebook : Rulebook} {document : Document} {session : Session}

/-- A control of a session takes its value from where it took it when its view was made. -/
theorem Made.binds (h : session.Made rulebook document) {id : ViewId} {view : View}
    (hview : session.tree.arena.get? id = some view) {bound : Bound} {name : String}
    (hcontrol : view.kind.control? = some (bound, name)) :
    ∃ built noted, ∃ first : Bound, first.Binds built noted document.IsLoose name ∧
      first.face = bound.face ∧
        ∀ d ∈ noted, d.path.firstKey?.isSome → ⟨id, d⟩ ∈ session.index.entries := by
  obtain ⟨built, tree, hbuild, hfaces⟩ := h.expanded
  obtain ⟨made, hmade, hsame⟩ := hfaces.exists_view_left hview
  obtain ⟨first, hfirst, hface⟩ := hsame.exists_control hcontrol
  obtain ⟨noted, hbinds, hrecorded⟩ := Rulebook.binds_of_build hbuild hmade hfirst
  exact ⟨built, noted, first, hbinds, hface, hrecorded⟩

theorem ofText?_of_isLoose {name : String} (h : document.IsLoose name) :
    Path.ofText? name = none := by
  obtain ⟨leaf, -, text, -, hnone, rfl⟩ := h
  rw [Path.ofText?_trim, hnone]

/-- The name of a control is a path, unless it is loose or has an index that is too great. -/
theorem Made.ofText?_eq_none_iff (h : session.Made rulebook document) {name : String}
    (hname : name ∈ session.controlNames) :
    Path.ofText? name = none ↔ document.IsLoose name ∨ IsOverlong name := by
  obtain ⟨id, view, bound, hview, hcontrol⟩ := exists_control_of_mem_controlNames hname
  obtain ⟨built, noted, first, hbinds, -, -⟩ := h.binds hview hcontrol
  constructor
  · intro hnone
    cases hbinds with
    | loose hloose => exact .inl hloose
    | @place path current hwritten _ _ =>
      refine .inr ⟨path, hwritten, ?_, rfl⟩
      rw [Path.ofText?_text hwritten] at hnone
      cases hbounded : path.isBounded with
      | false => rfl
      | true =>
        rw [hbounded] at hnone
        cases hnone
  · rintro (hloose | ⟨path, hwritten, hbounded, rfl⟩)
    · exact ofText?_of_isLoose hloose
    · rw [Path.ofText?_text hwritten, hbounded]
      rfl

/-- A control whose name is a path follows the place of the path, which is recorded for its view. -/
theorem Made.follows (h : session.Made rulebook document) {id : ViewId} {view : View}
    (hview : session.tree.arena.get? id = some view) {bound : Bound} {name : String}
    (hcontrol : view.kind.control? = some (bound, name)) {path : Path}
    (hpath : Path.ofText? name = some path) :
    (∃ shown, bound.face = (Bound.binding name shown).face) ∧
      ⟨id, ⟨path, .value⟩⟩ ∈ session.index.entries := by
  obtain ⟨built, noted, first, hbinds, hface, hrecorded⟩ := h.binds hview hcontrol
  cases hbinds with
  | loose hloose =>
    rw [ofText?_of_isLoose hloose] at hpath
    cases hpath
  | @place place current hwritten hnoted _ =>
    obtain rfl := hwritten.eq_of_ofText? hpath
    exact ⟨⟨current, hface.symm⟩, hrecorded _ hnoted hwritten.rooted⟩

/-- A control is concerned by what is written to its name. -/
theorem Made.mem_concerned (h : session.Made rulebook document) {id : ViewId} {view : View}
    (hview : session.tree.arena.get? id = some view) {bound : Bound} {name : String}
    (hcontrol : view.kind.control? = some (bound, name)) {path : Path}
    (hpath : Path.ofText? name = some path) : id ∈ session.index.concerned path := by
  obtain ⟨-, hrecorded⟩ := h.follows hview hcontrol hpath
  refine DependencyIndex.mem_concerned.2 ⟨Path.firstKey?_ofChars? hpath, _, hrecorded, ?_⟩
  rw [DependencyKind.isConcernedBy, Path.overlaps, Path.startsWith_iff.2 (List.prefix_refl _),
    Bool.true_or]

/-! ### Writing back -/

/-- A value that was written lies at the path of its name. -/
theorem get?_of_set {name : String} {value : Value} {update : TreeUpdate}
    (hok : (session.set name value).result = .ok update) {path : Path}
    (hpath : Path.parse name = .ok path) :
    (session.set name value).session.state.get? path = some value := by
  rw [set, hpath] at hok ⊢
  simp only [setPath] at hok ⊢
  cases hset : session.state.set path value with
  | error error =>
    rw [hset] at hok
    cases hok
  | ok written =>
    rw [hset] at hok
    simp only at hok ⊢
    have hwithin : path.segments = path.segments ++ [] := (List.append_nil _).symm
    have hget := Store.get?_set_within hset hwithin
    rcases settleGrown_cases (session.withState written.store) path (session.state.growth? path)
      with ⟨settled, after, hsettle, hstate⟩ | ⟨problem, hsettle⟩
    · rw [hsettle, hstate]
      exact hget
    · rw [hsettle] at hok
      cases hok

theorem ofText?_of_parse {name : String} {path : Path} (h : Path.parse name = .ok path) :
    Path.ofText? name = some path := by
  rw [Path.parse] at h
  split at h
  · next hpath =>
    cases h
    exact hpath
  · cases h

/-- A value that is written to the name of a control is shown by all controls of this name. -/
theorem Made.writesBack (h : session.Made rulebook document) (name : String) :
    session.WritesBack name := by
  intro value update hok id view bound hview hcontrol
  have hget := @get?_of_set session name value update hok
  have heffect : session.Effect name (session.set name value) := session.effect (.set name value)
  generalize session.set name value = outcome at heffect hok hview hget
  cases heffect with
  | refused error => cases hok
  | failed hpath hset hneeds hbuild => cases hok
  | @renewed path written made tree index hpath hset hneeds hbuild =>
    -- The control is new, and shows what lies at its place.
    have hvalue : made.store.get? path = some value := by
      rw [← Rulebook.state_of_build hbuild]
      exact hget hpath
    obtain ⟨noted, hbinds, -⟩ := Rulebook.binds_of_build hbuild hview hcontrol
    have htext := ofText?_of_parse hpath
    cases hbinds with
    | loose hloose =>
      rw [h.document_eq] at hloose
      rw [ofText?_of_isLoose hloose] at htext
      cases htext
    | @place place current hwritten hnoted hcurrent =>
      obtain rfl := hwritten.eq_of_ofText? htext
      exact hcurrent value hvalue
  | @refreshed path written made hpath hset hneeds =>
    -- The control has been there before, and the write concerns its view.
    have hids := session.index.nodup_concerned path
    have hstate : ((session.withState made.store).refresh path).2.state = made.store :=
      ViewTree.state_refreshAll _ _
    have hvalue : made.store.get? path = some value := by
      rw [← hstate]
      exact hget hpath
    have hafter := (session.withState made.store).tree.get?_refreshAll hids id
    have hview' := hafter.symm.trans hview
    obtain ⟨before, hbefore, hsame⟩ := Option.map_eq_some_iff.1 hview'
    have htext := ofText?_of_parse hpath
    obtain ⟨other, hother, hface⟩ : ∃ other, before.kind.control? = some (other, name) ∧
        other.face = bound.face := by
      refine View.SameFaces.exists_control ?_ hcontrol
      rw [← hsame]
      split
      · exact .refreshed _ before
      · exact .refl before
    obtain ⟨⟨shown, hshown⟩, -⟩ := h.follows hbefore hother htext
    rw [if_pos (h.mem_concerned hbefore hother htext)] at hsame
    subst hsame
    exact View.current_control_refreshed hcontrol htext (hface.symm.trans hshown) hvalue

/-- Whatever a host does, the name of a control is a path, unless a leaf outside of all iterations
is bound to a text that is no path, or an index of the path is too great. And all controls of a name
show what is written to it. -/
theorem start_writesBack (h : start document rulebook = .ok session) (operations : List Operation)
    {name : String} (hname : name ∈ (session.performAll operations).controlNames) :
    (Path.ofText? name = none ↔ document.IsLoose name ∨ IsOverlong name) ∧
      (session.performAll operations).WritesBack name := by
  have hmade := (Made.start h).performAll operations
  exact ⟨hmade.ofText?_eq_none_iff hname, hmade.writesBack name⟩

/-- A document with a toggle for each row, and one for the second row alone. -/
def switches : Document :=
  let toggle (bind : String) : Node := .component { Leaf.ofType "toggle" with bind := some bind }
  { Document.ofTexts [] [("rows", .array [.bool false])] with
    root.children := [.forEach ⟨none, "rows", "row", "i", .vertical, none, none, none⟩
      (toggle "row") none, toggle " rows.[+1] "] }

/-- After a second row has come, two toggles set its place, and both show what is written there. -/
theorem start_writesBack_switches :
    let operations : List Operation := [.request (.write (.set "rows[1]" (.bool false)))]
    ∃ session, start switches .standard = .ok session ∧
      (session.performAll operations).controlNames = ["rows[0]", "rows[1]", "rows[1]"] ∧
      ((session.performAll operations).set "rows[1]" (.bool true)).result =
        .ok ⟨[3, 4], [3, 4], false⟩ ∧
      (Path.ofText? "rows[1]" = none ↔ switches.IsLoose "rows[1]" ∨ IsOverlong "rows[1]") ∧
      (session.performAll operations).WritesBack "rows[1]" := by
  intro operations
  have hfacts : (start switches .standard).toOption.any (fun session =>
      decide ((session.performAll operations).controlNames = ["rows[0]", "rows[1]", "rows[1]"]) &&
        decide (((session.performAll operations).set "rows[1]" (.bool true)).result =
          .ok ⟨[3, 4], [3, 4], false⟩)) = true := by
    decide +kernel
  obtain ⟨session, hstart, hfacts⟩ := exists_of_any_toOption hfacts
  rw [Bool.and_eq_true, decide_eq_true_eq, decide_eq_true_eq] at hfacts
  obtain ⟨hnames, hok⟩ := hfacts
  have hmem : "rows[1]" ∈ (session.performAll operations).controlNames := by
    rw [hnames]
    decide
  exact ⟨session, hstart, hnames, hok, start_writesBack hstart operations hmem⟩

/-- A document with a toggle for the row at a computed position. -/
def looseRow : Document :=
  { Document.ofTexts [] [("i", .int 0), ("rows", .array [.bool true])] with
    root.children := [.component { Leaf.ofType "toggle" with bind := some "rows[i]" }] }

/-- Outside of iterations, a toggle for the row at a computed position sets a place that cannot be
written. -/
theorem not_writesBack_looseRow :
    ¬ ∀ (document : Document) (session : Session) (operations : List Operation) (name : String),
      start document .standard = .ok session →
        name ∈ (session.performAll operations).controlNames →
          (Path.ofText? name).isSome ∧ (session.performAll operations).WritesBack name := by
  intro hall
  have hfacts : (start looseRow .standard).toOption.any
      (fun session => decide ("rows[i]" ∈ session.controlNames)) = true := by
    decide +kernel
  obtain ⟨session, hstart, hname⟩ := exists_of_any_toOption hfacts
  obtain ⟨hpath, -⟩ := hall _ session [] "rows[i]" hstart (of_decide_eq_true hname)
  have hnone : Path.ofText? "rows[i]" = none := by decide +kernel
  rw [hnone] at hpath
  cases hpath

end Session

end ScreenDoc
