import ScreenDoc.Proofs.Expansion.Refresh
import ScreenDoc.Proofs.Session.Run

/-!
# Agreement with a new tree

After a write, a session has either made its views anew or brought some of them up to date in place.
In the first case the tree is the one of the present state. In the second case it is compared with
the tree that a new expansion would give.

## Main definitions

- `Session.IsCurrent` — the tree looks like a new one
- `Session.Tracks` — and its values come from where those of a new one would come from
- `Session.Follows` — a write can be followed in place
- `Session.Followed` — runs in which each write can be followed

## Main results

- `Session.Reaches.isCurrent_call` — when the tree looks like a new one after a write, exactly
- `Session.Followed.isCurrent` — it does so at the end of a run in which each write can be followed
- `Session.not_isCurrent_after_toggle` — a run after which it does not

## Design notes

There are five ways in which a tree can come to differ from a new one. A view may read a path that
was not recorded when it was made. A write may change more than the places at and below its path. An
iteration may run over an expression, whose array is not followed. A binding may be followed to
something else from its place than from the path that the document names. And a view may hold
something that is not evaluated again. The fields of `Session.Follows` and `View.Reached` rule them
out one by one.
-/

namespace ScreenDoc

/-! ### Views -/

namespace View

/-- Whether a view that is brought up to date shows what a new one over the same state shows. -/
structure Reached (document : Document) (store : Store) (view fresh : View) : Prop where
  properties : view.kind.properties = fresh.kind.properties
  overlooked : view.kind.overlooked.map Bound.current = fresh.kind.overlooked.map Bound.current
  /-- What is fixed is fixed to the same value. -/
  fixed : ∀ (i : Nat) (v w : Value), view.kind.bounds[i]? = some (.literal v) →
    fresh.kind.bounds[i]? = some (.literal w) → v = w
  /-- The bindings of the new view are followed from their places to what the document says. -/
  strays : ∀ bound ∈ fresh.kind.bounds, ¬ bound.Strays document store

theorem Reached.of_isTemplated {document : Document} {store : Store} {view fresh : View}
    (h : view.kind.isTemplated = true) (h' : fresh.kind.isTemplated = true) :
    view.Reached document store fresh := by
  obtain ⟨hproperties, hoverlooked, htemplates⟩ := ViewKind.isTemplated_iff.1 h
  obtain ⟨hproperties', hoverlooked', htemplates'⟩ := ViewKind.isTemplated_iff.1 h'
  refine ⟨hproperties.trans hproperties'.symm, ?_, ?_, ?_⟩
  · rw [hoverlooked, hoverlooked']
  · intro i v w hliteral _
    cases htemplates _ (List.mem_of_getElem? hliteral)
  · intro bound hbound hstrays
    have htemplate := htemplates' bound hbound
    cases hstrays
    cases htemplate

end View

namespace Bound

/-- Values from the same place are evaluated to the same, unless they are fixed. -/
theorem shownOver_eq_or_literal {a b : Bound} (h : a.face = b.face) (store : Store) :
    a.shownOver store = b.shownOver store ∨ ∃ v w, a = .literal v ∧ b = .literal w := by
  obtain ⟨v, w, rfl, rfl⟩ | ⟨path, v, w, rfl, rfl⟩ | ⟨source, v, w, scope, scope', rfl, rfl, hs⟩ :=
    face_eq_cases h
  · exact .inr ⟨v, w, rfl, rfl⟩
  · exact .inl rfl
  · refine .inl ?_
    simp only [shownOver, evaluation, rescoped, reading, hs store]

/-- Values from the same places are brought up to date to what new ones show, if the new ones show
what their evaluation gives. -/
theorem map_shownOver_eq {store : Store} {bounds fresh : List Bound}
    (hfaces : bounds.map face = fresh.map face)
    (hshown : ∀ bound ∈ fresh, bound.shownOver store = bound.current)
    (hfixed : ∀ (i : Nat) (v w : Value), bounds[i]? = some (.literal v) →
      fresh[i]? = some (.literal w) → v = w) :
    bounds.map (shownOver store) = fresh.map current := by
  refine List.ext_getElem? fun i => ?_
  have hface := congrArg (fun faces => faces[i]?) hfaces
  simp only [List.getElem?_map] at hface ⊢
  cases hbound : bounds[i]? with
  | none =>
    rw [hbound, Option.map_none, eq_comm, Option.map_eq_none_iff] at hface
    rw [hface]
    rfl
  | some bound =>
    rw [hbound, Option.map_some, eq_comm, Option.map_eq_some_iff] at hface
    obtain ⟨other, hother, hface⟩ := hface
    rw [hother, Option.map_some, Option.map_some, Option.some.injEq]
    rcases shownOver_eq_or_literal hface.symm store with hsame | ⟨v, w, rfl, rfl⟩
    · exact hsame.trans (hshown other (List.mem_of_getElem? hother))
    · exact hfixed i v w hbound hother

end Bound

/-- A view that takes its values from where a new one does is brought up to date to the new one, if
it is reached. -/
theorem View.same_refreshed {document : Document} {store : Store} {view fresh : View}
    (hfaces : fresh.SameFaces view)
    (hshown : ∀ bound ∈ fresh.kind.bounds, bound.shownOver store = bound.current)
    (hreached : view.Reached document store fresh) : fresh.Same (view.refreshed store) := by
  refine ⟨hfaces.trans (.refreshed store view), ?_, ?_⟩
  · rw [View.refreshed, ViewKind.bounds_refresh, List.map_map]
    have hrefreshed : Bound.current ∘ (fun bound => (bound.refresh store).1) =
        Bound.shownOver store :=
      funext fun bound => bound.current_refresh store
    rw [hrefreshed]
    exact (Bound.map_shownOver_eq hfaces.bounds.symm hshown hreached.fixed).symm
  · rw [View.refreshed, ViewKind.overlooked_refresh]
    exact hreached.overlooked.symm

namespace Comparison

variable {before after : Store} {view fresh : View} {dependencies : List Dependency}

/-- Related values give equal lists of what they are related by. -/
theorem map_eq_of_forall₂ {α β : Type} {f : α → β} {as bs : List α}
    (h : List.Forall₂ (fun a b => f a = f b) as bs) : as.map f = bs.map f := by
  rw [← List.forall₂_eq_eq_eq, List.forall₂_map_left_iff, List.forall₂_map_right_iff]
  exact h

/-- The views of two runs take their values from the same places. -/
theorem sameFaces_of_views
    (h : Views before after (quiet before after) view dependencies fresh)
    (hproperties : view.kind.properties = fresh.kind.properties) : view.SameFaces fresh where
  id := h.id
  slot := h.slot
  frame := h.similar.frame
  properties := hproperties
  bounds := map_eq_of_forall₂ h.similar.bounds
  overlooked := map_eq_of_forall₂ h.similar.overlooked

/-- If the states agree on all that a view reads, it is the same in both runs. -/
theorem same_of_views
    (h : Views before after (quiet before after) view dependencies fresh)
    (hquiet : ∀ d ∈ dependencies, (quiet before after).steady d) : view.Same fresh := by
  have hsimilar := h.steady hquiet
  have hproperties : view.kind.properties = fresh.kind.properties := by
    rw [← List.forall₂_eq_eq_eq]
    exact hsimilar.properties.imp fun p q hpq => Prod.ext hpq.1 hpq.2
  refine ⟨sameFaces_of_views h hproperties, map_eq_of_forall₂ ?_, map_eq_of_forall₂ ?_⟩
  · exact hsimilar.bounds.imp fun _ _ hbound => hbound.2
  · exact hsimilar.overlooked.imp fun _ _ hbound => hbound.2

end Comparison

namespace Session

/-! ### Agreement -/

/-- Whether the tree looks like one that is made anew over the present state. -/
def IsCurrent (session : Session) : Prop :=
  ∃ tree index, session.rulebook.build session.document session.state true = .ok (tree, index) ∧
    tree.picture = session.tree.picture

/-- Whether the tree looks like one that is made anew over the present state, and takes its values
from the same places. -/
def Tracks (session : Session) : Prop :=
  ∃ tree index, session.rulebook.build session.document session.state true = .ok (tree, index) ∧
    tree.Matches View.Same session.tree

theorem Tracks.isCurrent {session : Session} (h : session.Tracks) : session.IsCurrent := by
  obtain ⟨tree, index, hbuild, hsame⟩ := h
  exact ⟨tree, index, hbuild, hsame.picture_eq⟩

/-- Whether a write after which the state is another one can be followed by bringing some views up
to date. -/
structure Follows (session : Session) (concerned : List ViewId) (store : Store) : Prop where
  /-- Iterations run over paths. -/
  iterates : ∀ node ∈ session.document.root.children,
    node.Iterates (fun text => (Path.ofText? text).isSome) session.rulebook.limits.layout
  /-- All that a new tree would depend on before the write is recorded. -/
  recorded : ∀ tree index,
    session.rulebook.build session.document session.state true = .ok (tree, index) →
      index.entries ⊆ session.index.entries
  /-- The arrays that shape the tree keep their lengths. -/
  shapes : ∀ entry ∈ session.index.entries, entry.dependency.kind = .shape →
    session.state.arraySize? entry.dependency.path = store.arraySize? entry.dependency.path
  /-- The values that all other views depend on stay as they are. -/
  values : ∀ entry ∈ session.index.entries, entry.view ∉ concerned →
    entry.dependency.kind = .value →
      session.state.get? entry.dependency.path = store.get? entry.dependency.path
  /-- No binding of a new view in the place of one concerned strays, and what is not evaluated again
  in the view concerned is as in the new one. -/
  reached : ∀ tree index, session.rulebook.build session.document store true = .ok (tree, index) →
    ∀ id ∈ concerned, ∀ view fresh, session.tree.arena.get? id = some view →
      tree.arena.get? id = some fresh → view.Reached session.document store fresh

/-- A write that can be followed leaves alone all that the other views depend on. -/
theorem Follows.same_of_not_mem {session : Session} {ids : List ViewId} {store : Store}
    (h : session.Follows ids store) {old : ViewTree} {oldIndex : DependencyIndex}
    (hold : session.rulebook.build session.document session.state true = .ok (old, oldIndex))
    {id : ViewId} {view fresh : View} {dependencies : List Dependency}
    (hviews : Comparison.Views session.state store (Comparison.quiet session.state store) view
      dependencies fresh)
    (hdependencies : ∀ d ∈ dependencies, d.path.firstKey?.isSome → ⟨id, d⟩ ∈ oldIndex.entries)
    (hid : id ∉ ids) : view.Same fresh := by
  refine Comparison.same_of_views hviews fun d hd hkind => ?_
  by_cases hrooted : d.path.firstKey?.isSome
  · have hrecorded := h.recorded old oldIndex hold (hdependencies d hd hrooted)
    exact h.values ⟨id, d⟩ hrecorded hid hkind
  · -- Nothing lies outside of the state, before or after.
    rw [Store.get?_eq_none_of_not_rooted _ hrooted, Store.get?_eq_none_of_not_rooted _ hrooted]

/-- A tree that tracks the state still does so after a write that can be followed. -/
theorem Tracks.refreshAll {session : Session} (h : session.Tracks) {ids : List ViewId}
    (hids : ids.Nodup) {store : Store} (hfollows : session.Follows ids store) :
    ∃ tree index, session.rulebook.build session.document store true = .ok (tree, index) ∧
      tree.Matches View.Same ((session.withState store).tree.refreshAll ids).1 := by
  obtain ⟨old, oldIndex, hold, hsame⟩ := h
  have hsetting : Comparison.Setting session.state store
      (session.rulebook.context session.document) (fun text => (Path.ofText? text).isSome)
      (Comparison.quiet session.state store) :=
    ⟨rfl, fun _ h => .inl h, rfl, rfl, fun _ _ twins => Comparison.quiet_basic twins rfl⟩
  have hrecorded := hfollows.recorded old oldIndex hold
  -- The arrays keep their lengths, so the new tree has the shape of the one before the write.
  obtain ⟨-, tree, index, hbuild, -, -, -, halike⟩ := Rulebook.build_alike hsetting
    hfollows.iterates hold fun entry hentry => hfollows.shapes entry (hrecorded hentry)
  have hlinks : tree.arena.SameLinks session.tree.arena := halike.links.symm.trans hsame.links
  refine ⟨tree, index, hbuild,
    hlinks.trans ((session.withState store).tree.sameLinks_refreshAll hids), fun id => ?_⟩
  rw [ViewTree.get?_refreshAll _ hids]
  show Option.Rel View.Same (tree.arena.get? id) ((session.tree.arena.get? id).map fun view =>
    if id ∈ ids then view.refreshed store else view)
  cases hview : session.tree.arena.get? id with
  | none =>
    rw [hlinks.get?_eq_none_iff.2 hview]
    exact .none
  | some view =>
    obtain ⟨first, hfirst, hfirstSame⟩ := hsame.exists_view_left hview
    obtain ⟨fresh, hfresh⟩ := hlinks.symm.exists_get? hview
    obtain ⟨dependencies, hviews, hdependencies⟩ := halike.view id first fresh hfirst hfresh
    rw [hfresh]
    refine .some ?_
    show fresh.Same (if id ∈ ids then view.refreshed store else view)
    by_cases hid : id ∈ ids
    · -- The view is evaluated again, from where the new view takes its values.
      rw [if_pos hid]
      have hreached := hfollows.reached tree index hbuild id hid view fresh hview hfresh
      have hfaces : fresh.SameFaces view :=
        (Comparison.sameFaces_of_views hviews
          (hfirstSame.faces.properties.trans hreached.properties)).symm.trans hfirstSame.faces
      refine View.same_refreshed hfaces (fun bound hbound => ?_) hreached
      exact Rulebook.shownOver_of_build hbuild hfresh hbound (hreached.strays bound hbound)
    · rw [if_neg hid]
      exact (hfollows.same_of_not_mem hold hviews hdependencies hid).symm.trans hfirstSame

/-! ### Writes -/

section Writes

variable {session : Session} {call : Call} {update : TreeUpdate}

/-- A write that has made the views anew leaves the tree of the present state. -/
theorem build_of_renewed (hok : (session.call call).result = .ok update)
    (hrenewed : update.renewed = true) :
    session.rulebook.build session.document (session.call call).session.state true =
      .ok ((session.call call).session.tree, (session.call call).session.index) := by
  have heffect := session.effect call
  generalize session.call call = outcome at heffect hok ⊢
  cases heffect with
  | refused error => cases hok
  | failed hpath hset hneeds hbuild => cases hok
  | @renewed path value written tree index hpath hset hneeds hbuild =>
    have hstate : tree.state = written.store := Rulebook.state_of_build hbuild
    show session.rulebook.build session.document tree.state true = .ok (tree, index)
    rw [hstate]
    exact hbuild
  | refreshed hpath hset hneeds =>
    cases hok
    cases hrenewed

/-- A write that has not made the views anew has brought those concerned up to date with the present
state. -/
theorem exists_refreshAll_of_kept (hok : (session.call call).result = .ok update)
    (hkept : update.renewed = false) :
    ∃ store, update.concerned.Nodup ∧ (session.call call).session.state = store ∧
      (session.call call).session =
        { session with
          tree := ((session.withState store).tree.refreshAll update.concerned).1 } := by
  have heffect := session.effect call
  generalize session.call call = outcome at heffect hok ⊢
  cases heffect with
  | refused error => cases hok
  | failed hpath hset hneeds hbuild => cases hok
  | renewed hpath hset hneeds hbuild =>
    cases hok
    cases hkept
  | @refreshed path value written hpath hset hneeds =>
    cases hok
    refine ⟨written.store, session.index.nodup_concerned path, ?_, rfl⟩
    exact (session.withState written.store).tree.state_refreshAll (session.index.concerned path)

theorem call_document (session : Session) (call : Call) :
    (session.call call).session.document = session.document ∧
      (session.call call).session.rulebook = session.rulebook := by
  have heffect := session.effect call
  generalize session.call call = outcome at heffect ⊢
  cases heffect <;> exact ⟨rfl, rfl⟩

/-- A tree tracks the state after a write that has made the views anew, and after one that can be
followed, if it did so before. -/
theorem Tracks.after_call (h : session.Tracks) (hok : (session.call call).result = .ok update)
    (hfollows : update.renewed = false →
      session.Follows update.concerned (session.call call).session.state) :
    (session.call call).session.Tracks := by
  obtain ⟨hdocument, hrulebook⟩ := session.call_document call
  rw [Tracks, hdocument, hrulebook]
  cases hkept : update.renewed with
  | true =>
    exact ⟨_, _, build_of_renewed hok hkept, .ofSame .refl rfl⟩
  | false =>
    obtain ⟨store, hids, hstate, hafter⟩ := exists_refreshAll_of_kept hok hkept
    have hrefresh := h.refreshAll hids (hfollows hkept)
    rw [hstate] at hrefresh ⊢
    rw [hafter]
    exact hrefresh

/-- A tree of which views were brought up to date looks as before but for these. -/
theorem picture_call (hok : (session.call call).result = .ok update)
    (hkept : update.renewed = false) :
    (session.call call).session.tree.picture = session.tree.pictureBy fun id view =>
      if id ∈ update.concerned then view.drawnOver (session.call call).session.state
      else view.drawn := by
  obtain ⟨store, hids, hstate, hafter⟩ := exists_refreshAll_of_kept hok hkept
  rw [hstate, hafter]
  exact (session.withState store).tree.picture_refreshAll hids

end Writes

/-! ### Runs -/

section Runs

variable {rulebook : Rulebook} {document : Document} {built : Store} {session : Session}

/-- A session starts with the tree of its state. -/
theorem tracks_of_start (h : start document rulebook = .ok session) : session.Tracks := by
  obtain ⟨hdocument, hrulebook, hbuild⟩ := build_of_start h
  rw [← state_of_start h, ← hdocument, ← hrulebook] at hbuild
  exact ⟨session.tree, session.index, hbuild, .ofSame .refl rfl⟩

/-- The sessions of a document that writes lead to, each of which has made the views anew or can be
followed. -/
inductive Followed (rulebook : Rulebook) (document : Document) : Session → Prop where
  | start {session : Session} (h : Session.start document rulebook = .ok session) :
    Followed rulebook document session
  | call {session : Session} (h : Followed rulebook document session) (call : Call)
    {update : TreeUpdate} (hok : (session.call call).result = .ok update)
    (hfollows : update.renewed = false →
      session.Follows update.concerned (session.call call).session.state) :
    Followed rulebook document (session.call call).session

/-- In a run of which each write can be followed, the tree always looks like a new one. -/
theorem Followed.isCurrent (h : Followed rulebook document session) : session.IsCurrent := by
  have htracks : session.Tracks := by
    induction h with
    | start h => exact tracks_of_start h
    | call h call hok hfollows ih => exact ih.after_call hok hfollows
  exact htracks.isCurrent

/-- After a write that has made the views anew, the session is that of the present state. After one
that has brought views up to date in place, the tree looks like a new one exactly if the new one
looks like the tree before the write with the views concerned evaluated again. That is so if the
tree tracked the state before, and the write can be followed. -/
theorem Reaches.isCurrent_call (h : Reaches rulebook document built session) (call : Call)
    {update : TreeUpdate} (hok : (session.call call).result = .ok update) :
    let after := (session.call call).session
    (update.renewed = true →
      rulebook.build document after.state true = .ok (after.tree, after.index)) ∧
    (update.renewed = false →
      (after.IsCurrent ↔
        ∃ tree index, rulebook.build document after.state true = .ok (tree, index) ∧
          tree.picture = session.tree.pictureBy fun id view =>
            if id ∈ update.concerned then view.drawnOver after.state else view.drawn)) ∧
    (session.Tracks → (update.renewed = false → session.Follows update.concerned after.state) →
      after.Tracks ∧ after.IsCurrent) := by
  intro after
  obtain ⟨hdocument, hrulebook, -⟩ := h.made
  obtain ⟨hdocument', hrulebook'⟩ := session.call_document call
  refine ⟨fun hrenewed => ?_, fun hkept => ?_, fun hbefore hfollows => ?_⟩
  · rw [← hdocument, ← hrulebook]
    exact build_of_renewed hok hrenewed
  · rw [IsCurrent, hdocument', hrulebook', hdocument, hrulebook, picture_call hok hkept]
  · have htracks : after.Tracks := hbefore.after_call hok hfollows
    exact ⟨htracks, htracks.isCurrent⟩

/-- A write to the value of a text is followed. -/
theorem Reaches.isCurrent_call_text :
    let document := Document.ofTexts ["$\x7ba\x7d"] [("a", .string "x")]
    let call := Call.set "a" (.string "z")
    ∃ session, Reaches .standard document (.ofValues document.state) session ∧
      (session.call call).result = .ok ⟨[1], [1], false⟩ ∧
      (session.call call).session.IsCurrent := by
  intro document call
  have hfacts : (Session.start document .standard).toOption.any (fun session =>
      decide ((session.call call).result = .ok ⟨[1], [1], false⟩) &&
        session.index.entries.all (fun entry =>
          decide (entry.view = 1 ∧ entry.dependency.kind = .value)) &&
        session.tree.isTemplated &&
        (Rulebook.standard.build document (session.call call).session.state true).toOption.all
          fun made => made.1.isTemplated) = true := by
    decide +kernel
  obtain ⟨session, hstart, hfacts⟩ := exists_of_any_toOption hfacts
  rw [Bool.and_eq_true, Bool.and_eq_true, Bool.and_eq_true, decide_eq_true_eq] at hfacts
  obtain ⟨⟨⟨hok, hentries⟩, htemplated⟩, hfresh⟩ := hfacts
  have hentry : ∀ entry ∈ session.index.entries,
      entry.view = 1 ∧ entry.dependency.kind = .value :=
    fun entry hentry => of_decide_eq_true (List.all_eq_true.1 hentries entry hentry)
  obtain ⟨hdocument, hrulebook, hbuild⟩ := build_of_start hstart
  have hreaches := Reaches.start hstart
  refine ⟨session, hreaches, hok, ?_⟩
  refine ((hreaches.isCurrent_call call hok).2.2 (tracks_of_start hstart) fun _ => ?_).2
  refine ⟨?_, ?_, ?_, ?_, ?_⟩
  · rw [hdocument]
    intro node hnode
    obtain rfl := List.mem_singleton.1 hnode
    exact Node.iterates_component _ _ _
  · rw [hdocument, hrulebook, state_of_start hstart, hbuild]
    rintro _ _ ⟨⟩
    exact List.Subset.refl _
  · intro entry hmem hshape
    rw [(hentry entry hmem).2] at hshape
    cases hshape
  · intro entry hmem hview
    exact absurd (List.mem_singleton.2 (hentry entry hmem).1) hview
  · rw [hdocument, hrulebook]
    intro tree index hnew id _ view fresh hview hfreshView
    rw [hnew] at hfresh
    exact .of_isTemplated (ViewTree.isTemplated_get? htemplated hview)
      (ViewTree.isTemplated_get? hfresh hfreshView)

/-- Once a ternary has taken its other branch in place, it does not follow the path that it reads
there. -/
theorem not_isCurrent_after_toggle :
    ¬ ∀ (document : Document) (built : Store) (session : Session) (call : Call)
      (update : TreeUpdate), Reaches .standard document built session →
        (session.call call).result = .ok update → (session.call call).session.IsCurrent := by
  intro hcurrent
  let texts (picture : List (Option Nat × Option View.Drawn)) : List (Option (List String)) :=
    picture.map fun drawn => drawn.2.map fun view => view.values.map Prod.snd
  have hfacts : (Session.start .ternary .standard).toOption.any (fun session =>
      let toggled := session.call (.toggle "flag")
      let outcome := toggled.session.call (.set "b" (.string "z"))
      !toggled.hasRenewed && decide (outcome.result = .ok ⟨[], [], false⟩) &&
        (Rulebook.standard.build .ternary outcome.session.state true).toOption.all fun made =>
          decide (texts made.1.picture ≠ texts outcome.session.tree.picture)) = true := by
    decide +kernel
  obtain ⟨session, hstart, hfacts⟩ := exists_of_any_toOption hfacts
  simp only [Bool.and_eq_true, Bool.not_eq_true'] at hfacts
  obtain ⟨⟨hkept, hok⟩, hdiffers⟩ := hfacts
  have hreaches := (Reaches.start hstart).kept (.toggle "flag") hkept
  obtain ⟨tree, index, hbuild, hpicture⟩ := hcurrent _ _ _ (.set "b" (.string "z")) _ hreaches
    (of_decide_eq_true hok)
  obtain ⟨hdocument, hrulebook, -⟩ := build_of_start hstart
  rw [(call_document _ _).1, (call_document _ _).2, (call_document _ _).1, (call_document _ _).2,
    hdocument, hrulebook] at hbuild
  rw [hbuild] at hdiffers
  exact of_decide_eq_true hdiffers (congrArg texts hpicture)

end Runs

end Session

end ScreenDoc
