import ScreenDoc.Proofs.Expansion.Accounts
import ScreenDoc.Proofs.Session.Lifetime

/-!
# The handlers of a session

A tree that ages keeps its actions, its problems and the actions of its views. So the handlers of a
document are settled in the tree of a session at every moment, as they were when its views were
made.

## Main results

- `ViewTree.Ages.settles` — handlers stay settled in a tree that ages
- `Session.start_settles` — the handlers of a document are settled, whatever a host does
-/

namespace ScreenDoc

/-! ### Views that age -/

namespace ViewKind

@[simp] theorem action?_frame (kind : ViewKind) : kind.frame.action? = kind.action? := by
  cases kind <;> rfl

@[simp] theorem handler?_frame (leaf : Leaf) (kind : ViewKind) :
    kind.frame.handler? leaf = kind.handler? leaf := by
  cases kind <;> rfl

end ViewKind

/-- The handlers of views can be told from the frames of the views. -/
theorem handlersOf_eq_frames (views : List View) (sources : List (Option Leaf)) :
    handlersOf views sources =
      List.zipWith (fun frame source => source.bind fun leaf => ViewKind.handler? leaf frame)
        (views.map fun view => view.kind.frame) sources := by
  simp only [handlersOf, List.zipWith_map_left, ViewKind.handler?_frame]

namespace ViewTree

theorem getElem?_views (tree : ViewTree) (id : ViewId) :
    tree.views[id]? = tree.arena.get? id := by
  rw [views, List.getElem?_map, Array.getElem?_toList, Arena.get?]

theorem length_views (tree : ViewTree) : tree.views.length = tree.size := by
  rw [views, List.length_map, Array.length_toList]
  rfl

namespace Ages

variable {tree later : ViewTree}

/-- The views of a tree that ages keep their frames. -/
theorem frames (h : tree.Ages later) :
    (later.views.map fun view => view.kind.frame) = tree.views.map fun view => view.kind.frame := by
  -- A view stands in the list at the place of its number.
  refine List.ext_getElem? fun id => ?_
  rw [List.getElem?_map, List.getElem?_map, getElem?_views, getElem?_views]
  have hview := h.views.view id
  generalize tree.arena.get? id = before at hview ⊢
  generalize later.arena.get? id = after at hview ⊢
  cases hview with
  | none => rfl
  | some hfaces => exact congrArg some hfaces.frame.symm

theorem size_eq (h : tree.Ages later) : later.size = tree.size := by
  have hlength := congrArg List.length h.frames
  rwa [List.length_map, List.length_map, length_views, length_views] at hlength

theorem boundActions_eq (h : tree.Ages later) : later.boundActions = tree.boundActions := by
  have hactions := congrArg (List.map ViewKind.action?) h.frames
  simp only [List.map_map, Function.comp_def, ViewKind.action?_frame] at hactions
  rw [boundActions, boundActions, hactions, h.screen]

theorem handlers_eq (h : tree.Ages later) (document : Document) (state : Store) :
    document.handlers state later.views = document.handlers state tree.views := by
  rw [Document.handlers, Document.handlers, handlersOf_eq_frames, handlersOf_eq_frames, h.frames]

/-- Handlers stay settled in a tree that ages. -/
theorem settles (h : tree.Ages later) {rulebook : Rulebook} {document : Document} {state : Store}
    (hsettles : rulebook.Settles document state tree) :
    rulebook.Settles document state later where
  sources := by rw [hsettles.sources, h.size_eq]
  binds := by
    rw [h.handlers_eq, h.boundActions_eq]
    exact hsettles.binds
  actions := by rw [h.actions, hsettles.actions]
  faults := by rw [h.diagnostics, hsettles.faults, h.handlers_eq]

end Ages

end ViewTree

/-! ### Sessions -/

namespace Session

/-- Whatever a host does, the tree has an action for each name that it holds. In the place of a
handler that something is wrong with, it does nothing, and what is wrong is noted once for each view
that has the handler. -/
theorem start_settles {rulebook : Rulebook} {document : Document} {session : Session}
    (hleaves : rulebook.leaves.BlameNoAction) (h : start document rulebook = .ok session)
    (operations : List Operation) :
    let state := session.madeOver (.ofValues document.state) operations
    let tree := (session.performAll operations).tree
    let handlers := document.handlers state tree.views
    let fault? := rulebook.actions.fault? document.actions rulebook.limits.actions
    rulebook.Settles document state tree ∧
      (∀ id ∈ tree.actionNames, Fields.contains tree.actions id = true) ∧
      (∀ (i : Nat) handler problem, handlers[i]? = some (some handler) → fault? handler = some problem →
        tree.boundActions[i]? = some (some (.inline .noop))) ∧
      ∀ problem, problem.concernsAction = true →
        tree.diagnostics.count problem =
          (rulebook.actions.tableFaults document.actions rulebook.limits.actions).count problem +
            handlers.countP fun handler => handler.bind fault? == some problem := by
  intro state tree handlers fault?
  obtain ⟨made, hbuild, hages⟩ := (agedFrom_start h).performAll (.start h) operations
  have hsettles : rulebook.Settles document state tree :=
    hages.settles (Rulebook.settles_of_build hleaves hbuild)
  exact ⟨hsettles, fun id => hsettles.contains, fun i handler problem => hsettles.noop,
    fun problem => hsettles.count_diagnostics⟩

/-- A document with a button that saves, and a toggle for each row with a handler that is
missing. -/
def saves : Document :=
  let toggle : Node := .component { Leaf.ofType "toggle" with
    bind := some "row", actions.onValueChanged := some (.named "lost") }
  { Document.ofTexts [] [("rows", .array [.bool false])] with
    actions := [("save", .ofKind .noop)]
    root.children := [.forEach ⟨none, "rows", "row", "i", .vertical, none, none, none⟩ toggle none,
      .component { Leaf.ofType "button" with actions.onTap := some (.named "save") }] }

/-- After a second row has come, the missing handler is noted for both toggles, and the action of
the button is there. -/
theorem start_settles_saves :
    let operations : List Operation := [.request (.write (.set "rows[1]" (.bool true)))]
    ∃ session, start saves .standard = .ok session ∧
      let tree := (session.performAll operations).tree
      tree.diagnostics = [.unknownAction "lost", .unknownAction "lost"] ∧
      ((saves.handlers (session.madeOver (.ofValues saves.state) operations) tree.views).countP
        fun handler => handler.bind
          (Rulebook.standard.actions.fault? saves.actions Rulebook.standard.limits.actions) ==
            some (.unknownAction "lost")) = 2 ∧
      tree.actionNames = ["save"] ∧ Fields.contains tree.actions "save" = true := by
  intro operations
  have hfacts : (start saves .standard).toOption.any (fun session =>
      decide ((session.performAll operations).tree.diagnostics =
        [.unknownAction "lost", .unknownAction "lost"]) &&
      decide ((session.performAll operations).tree.actionNames = ["save"])) = true := by
    decide +kernel
  obtain ⟨session, hstart, hfacts⟩ := exists_of_any_toOption hfacts
  rw [Bool.and_eq_true, decide_eq_true_eq, decide_eq_true_eq] at hfacts
  obtain ⟨hdiagnostics, hnames⟩ := hfacts
  obtain ⟨-, hcontains, -, hcount⟩ :=
    start_settles LeafRules.neverFails_builtin.blameNoAction hstart operations
  refine ⟨session, hstart, hdiagnostics, ?_, hnames, hcontains "save" ?_⟩
  · have htwice := hcount (.unknownAction "lost") rfl
    rw [hdiagnostics] at htwice
    exact (Nat.zero_add _).symm.trans htwice.symm
  · rw [hnames]
    exact List.mem_singleton_self "save"

end Session

end ScreenDoc
