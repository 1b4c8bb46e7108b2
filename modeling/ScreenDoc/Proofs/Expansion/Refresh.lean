import ScreenDoc.Proofs.Expansion.Anchor
import ScreenDoc.Proofs.Expansion.Occurrence
import ScreenDoc.Proofs.Expansion.Recorded
import ScreenDoc.Proofs.Expr.Plain

/-!
# Refreshing a new tree

A tree that was just made shows what its state says, so a refresh has nothing to do. A template is
filled in again in the scope that it has kept. A binding is followed again from its place, outside
of all iterations, and this gives the same value if there is a value at the place, or if the path is
plain. It need not if the path leads nowhere and its text is an expression: the names in the
expression are not those of the place.

## Main definitions

- `Scope.LeadsAstray` — a path is followed to something else from the place that it stands for
- `Bound.Strays` — a binding of a document that was made from such a path
- `Document.board` — a document that shows parts of its rows in several ways

## Main results

- `Bound.refresh_eq_self_iff`, `ViewKind.refresh_eq_self_iff`, `ViewTree.refresh_eq_self_iff` — when
  a refresh has nothing to do
- `Context.Makes.shownOver_eq_or_strays` — what is made is shown again, unless it strays
- `Rulebook.refresh_of_build_iff` — a refresh of a new tree has nothing to do for the views of which
  no binding strays
- `Rulebook.refresh_ne_of_build_board` — a refresh that changes a view of a new tree
-/

namespace ScreenDoc

/-! ### When a refresh has nothing to do -/

namespace Bound

variable {store : Store}

theorem shownOver_binding (path : String) (shown : Value) :
    (binding path shown).shownOver store = (followPath .empty path).value store.get? := by
  simp only [shownOver, evaluation, rescoped, reading, Reading.value_bind, Reading.value, current]

/-- A refresh has nothing to do for a value that it would show again. A number that is no number
differs from itself. -/
theorem refresh_eq_self_iff {bound : Bound} :
    bound.refresh store = (bound, false) ↔
      bound.shownOver store = bound.current ∧ bound.differs bound = false := by
  cases bound with
  | literal value => exact iff_of_true rfl ⟨rfl, rfl⟩
  | binding path shown =>
    rw [shownOver_binding]
    simp only [refresh, rescoped, reading, Reading.value_bind, Reading.value, withCurrent, differs,
      current, Prod.mk.injEq, binding.injEq, true_and]
    constructor
    · rintro ⟨hvalue, hsame⟩
      rw [hvalue] at hsame
      exact ⟨hvalue, hsame⟩
    · rintro ⟨hvalue, hsame⟩
      rw [hvalue]
      exact ⟨rfl, hsame⟩
  | template source shown scope =>
    simp only [refresh, shownOver, evaluation, rescoped, reading, Reading.value_bind, Reading.value,
      withCurrent, differs, current, Prod.mk.injEq, template.injEq, true_and, and_true,
      Value.string.injEq, ne_eq, decide_not, decide_true, Bool.not_true, Bool.not_eq_false',
      decide_eq_true_eq]
    constructor
    · exact fun h => h.1
    · exact fun h => ⟨h, h.symm⟩

theorem refresh?_eq_self_iff {bound : Option Bound} :
    Bound.refresh? store bound = (bound, false) ↔
      ∀ b ∈ bound.toList, b.refresh store = (b, false) := by
  cases bound with
  | none => exact iff_of_true rfl fun _ hb => absurd hb List.not_mem_nil
  | some bound => simp [refresh?, Prod.ext_iff]

end Bound

/-- A refresh has nothing to do for a view if it has nothing to do for its values. -/
theorem ViewKind.refresh_eq_self_iff {store : Store} {kind : ViewKind} :
    kind.refresh store = (kind, false) ↔
      ∀ bound ∈ kind.bounds, bound.refresh store = (bound, false) := by
  cases kind with
  | text view =>
    obtain ⟨content, style⟩ := view
    simp [refresh, bounds, Prod.ext_iff]
  | button view =>
    obtain ⟨label, style, selectedStyle, disabledStyle, isSelected, image, onTap⟩ := view
    rw [bounds, List.forall_mem_cons, ← Bound.refresh?_eq_self_iff]
    simp only [refresh, Prod.ext_iff, button.injEq, ButtonView.mk.injEq, Bool.or_eq_false_iff,
      true_and, and_true]
    exact and_and_and_comm
  | image view =>
    obtain ⟨source, style⟩ := view
    cases source <;>
      simp [refresh, bounds, ImageOrigin.refresh, ImageOrigin.bounds, Prod.ext_iff]
  | toggle view =>
    obtain ⟨label, isOn, bind, style, onValueChanged⟩ := view
    rw [bounds, List.forall_mem_cons, ← Bound.refresh?_eq_self_iff]
    simp only [refresh, Prod.ext_iff, toggle.injEq, ToggleView.mk.injEq, Bool.or_eq_false_iff,
      and_true]
    constructor
    · rintro ⟨⟨hlabel, hisOn⟩, hflags⟩
      exact ⟨⟨hisOn, hflags.1⟩, hlabel, hflags.2⟩
    · rintro ⟨⟨hisOn, hvalueFlag⟩, hlabel, hlabelFlag⟩
      exact ⟨⟨hlabel, hisOn⟩, hvalueFlag, hlabelFlag⟩
  | slider view =>
    obtain ⟨value, min, max, step, bind, style, onValueChanged⟩ := view
    simp [refresh, bounds, Prod.ext_iff]
  | textField view =>
    obtain ⟨shown, placeholder, isSecure, bind, style, onValueChanged⟩ := view
    simp [refresh, bounds, Prod.ext_iff]
  | _ => exact iff_of_true rfl fun _ hbound => absurd hbound List.not_mem_nil

/-- A refresh has nothing to do for a tree if it has nothing to do for the view that it is for. -/
theorem ViewTree.refresh_eq_self_iff {tree : ViewTree} {id : ViewId} :
    tree.refresh id = (tree, false) ↔
      ∀ view, tree.arena.get? id = some view →
        view.kind.refresh tree.state = (view.kind, false) := by
  cases hentry : tree.arena.entries[id]? with
  | none =>
    have hview : tree.arena.get? id = none := by rw [Arena.get?, hentry, Option.map_none]
    refine iff_of_true ?_ fun view h => ?_
    · simp only [refresh, Arena.refresh, hview]
    · rw [hview] at h
      cases h
  | some entry =>
    have hview : tree.arena.get? id = some entry.view := by
      rw [Arena.get?, hentry, Option.map_some]
    have hflag : (tree.refresh id).2 = (entry.view.kind.refresh tree.state).2 := by
      simp only [refresh, Arena.refresh, hview]
    have hentries (n : ViewId) : (tree.refresh id).1.arena.entries[n]? =
        tree.arena.entries[n]?.map fun entry =>
          if n = id then entry.refreshed tree.state else entry :=
      Arena.getElem?_refresh tree.arena tree.state id n
    have hsame : (tree.refresh id).1 = tree ↔
        (entry.view.kind.refresh tree.state).1 = entry.view.kind := by
      constructor
      · intro h
        have hrefreshed := hentries id
        rw [h, hentry, Option.map_some, if_pos rfl, Option.some.injEq] at hrefreshed
        exact (congrArg (fun entry : Arena.Entry => entry.view.kind) hrefreshed).symm
      · intro h
        have harena : (tree.refresh id).1.arena.entries = tree.arena.entries := by
          refine Array.ext_getElem? fun n => ?_
          rw [hentries]
          by_cases hn : n = id
          · rw [hn, hentry, Option.map_some, if_pos rfl, Arena.Entry.refreshed, h]
          · simp only [if_neg hn, Option.map_id']
        have harena : (tree.refresh id).1.arena = tree.arena := congrArg Arena.mk harena
        exact congrArg (fun arena => { tree with arena }) harena
    constructor
    · intro h view hget
      rw [hview] at hget
      obtain rfl := Option.some.inj hget
      rw [Prod.ext_iff, hsame, hflag] at h
      exact Prod.ext h.1 h.2
    · intro h
      have hkind := h entry.view hview
      rw [Prod.ext_iff, hsame, hflag, hkind]
      exact ⟨rfl, rfl⟩

/-! ### Following a path -/

/-- A path is followed within a scope as it is outside, over the answers of the scope. -/
theorem value_followPath (scope : Scope) (answers : Path → Option Value) (text : String) :
    (followPath scope text).value answers =
      (followPath .empty text).value (scope.overlay answers) := by
  rw [followPath_eq_within, Reading.value_within]

theorem followPath_of_some {answers : Path → Option Value} {text : String} {path : Path}
    {value : Value} (hpath : Path.ofText? text = some path) (hvalue : answers path = some value) :
    (followPath .empty text).value answers = value := by
  rw [followPath, Scope.read_of_lookup_eq_none hpath (Scope.lookup_empty path),
    Reading.value_bind, Reading.value, Reading.value, hvalue]
  rfl

namespace Scope

variable {scope : Scope} {state : Store} {path place : Path} {text : String}

/-- What a path stands for goes on as the path does. -/
theorem sourcePath_append (scope : Scope) (h : path.firstKey?.isSome) (rest : Path) :
    scope.sourcePath (path.append rest) =
      (scope.sourcePath path).map fun place => place.append rest := by
  obtain ⟨segments⟩ := path
  match segments, h with
  | .key name :: steps, _ =>
    have hlookup (more : List Segment) : scope.lookup ⟨.key name :: more⟩ =
        (scope.innermost? name).map fun entry =>
          ⟨entry.value.lookup more, entry.source.map fun source => source.append ⟨more⟩⟩ := by
      cases hentry : scope.innermost? name <;>
        simp [lookup, Path.firstKey?, Path.drop, hentry]
    rw [sourcePath, sourcePath, Path.append, List.cons_append, hlookup, hlookup]
    cases scope.innermost? name with
    | none => rfl
    | some entry =>
      obtain ⟨value, source⟩ := entry
      cases source with
      | none => rfl
      | some source =>
        simp only [Option.map_some, Path.append, List.append_assoc]

/-- Whether a path text is followed to something else from the place that it stands for than within
the scope. -/
structure LeadsAstray (scope : Scope) (state : Store) (text : String) (path place : Path) :
    Prop where
  /-- Within an iteration, the text is no call. -/
  noCall : scope.depth ≠ 0 → '(' ∉ text.toList
  isPath : Path.ofText? text = some path
  standsFor : scope.sourcePath path = some place
  /-- There is no value at the place, unless it has an index that cannot be written. -/
  nowhere : place.isBounded → state.get? place = none
  /-- If the text is a plain path, an array begins or ends with a text that is the path itself. -/
  ownText : text = path.text → path.isPlain → place.isPlain →
    (followPath scope text).value state.get? = .string place.text ∨
      (followPath .empty place.text).value state.get? = .string text
  differs : (followPath .empty place.text).value state.get? ≠
    (followPath scope text).value state.get?

/-- A place that has a value is followed to it, within the scope as well as outside. -/
theorem Placed.followPath_eq (h : scope.Placed state) (hpath : Path.ofText? text = some path)
    (hplace : scope.sourcePath path = some place) (hbounded : place.isBounded) {value : Value}
    (hvalue : state.get? place = some value) :
    (followPath .empty place.text).value state.get? = (followPath scope text).value state.get? := by
  obtain ⟨hwritten, hoverlay⟩ := h.sourcePath (Path.written_of_ofChars? hpath).1 hplace
  have hagain : Path.ofText? place.text = some place :=
    (Path.ofText?_text hwritten).trans (if_pos hbounded)
  rw [value_followPath scope, followPath_of_some hagain hvalue,
    followPath_of_some hpath (hoverlay.trans hvalue)]

/-- Plain paths lead nowhere in the same way: what they are followed to is decided by the last step
and by the value in front of it. -/
theorem Placed.ownText (h : scope.Placed state) (hplain : path.isPlain)
    (hplace : scope.sourcePath path = some place) (hplainPlace : place.isPlain)
    (hnone : state.get? place = none)
    (hdiffers : (followPath .empty place.text).value state.get? ≠
      (followPath scope path.text).value state.get?) :
    (followPath scope path.text).value state.get? = .string place.text ∨
      (followPath .empty place.text).value state.get? = .string path.text := by
  obtain ⟨-, hoverlay⟩ := h.sourcePath (Path.written_of_isPlain hplain).1 hplace
  have hnowhere : scope.overlay state.get? path = none := hoverlay.trans hnone
  rw [value_followPath scope] at hdiffers ⊢
  rcases Path.exists_last hplain with ⟨name, rfl⟩ | ⟨base, last, hfirst, rfl⟩
  · have hname : Path.isName name := by
      simpa [Path.isPlain, Path.ofKey, Path.firstKey?, Path.isPlainStep] using hplain
    rw [followPath_ofKey _ hname hnowhere] at hdiffers
    cases hlookup : scope.lookup (.ofKey name) with
    | none =>
      -- A name that is not bound stands for itself.
      rw [Scope.sourcePath, hlookup] at hplace
      obtain rfl := Option.some.inj hplace
      exact absurd (followPath_ofKey _ hname hnone) hdiffers
    | some hit =>
      -- A name that is bound leads to its value.
      rw [overlay, hlookup] at hnowhere
      simp only [Scope.lookup, Option.bind_eq_bind, Option.bind_eq_some_iff,
        Option.some.injEq] at hlookup
      obtain ⟨-, -, entry, -, rfl⟩ := hlookup
      cases hnowhere
  · rw [sourcePath_append scope hfirst] at hplace
    obtain ⟨source, hsource, rfl⟩ := Option.map_eq_some_iff.1 hplace
    have hbase := ((Path.isPlain_append hfirst).1 hplain).1
    obtain ⟨hwritten, hvalue⟩ := h.sourcePath (Path.written_of_isPlain hbase).1 hsource
    have hwithin := followPath_append _ hfirst hplain hnowhere
    have houtside := followPath_append _ hwritten.rooted hplainPlace hnone
    rw [hvalue] at hwithin
    rw [hwithin, houtside] at hdiffers ⊢
    exact otherThan_eq_of_ne hdiffers

end Scope

/-! ### What is made is shown again -/

namespace Context

variable {ctx : Context} {state : Store}

theorem shownOver_boundTemplate (hscope : ctx.scope.Placed state) (text : String) :
    ((ctx.boundTemplate text).result state.get?).shownOver state =
      ((ctx.boundTemplate text).result state.get?).current := by
  rw [boundTemplate]
  split
  · rw [Noting.result_bind]
    refine (Bound.shownOver_template hscope.mirrors text _).trans ?_
    rw [fill, result_observe, Reading.value_bind]
    rfl
  · rfl

/-- The place of a binding is that of its path. A text that is no path stands for itself. -/
theorem bindingTarget?_eq_sourcePath (ctx : Context) (text : String) :
    ctx.bindingTarget? text =
      match Path.ofText? text with
      | some path => (ctx.scope.sourcePath path).map Path.text
      | none => some text := by
  rw [bindingTarget?]
  cases Path.ofText? text with
  | none => rfl
  | some path =>
    simp only [Scope.sourcePath]
    cases ctx.scope.lookup path <;> rfl

/-- What a path is followed to is shown again at its place, unless the path leads astray. -/
theorem followPath_eq_or_leadsAstray {scope : Scope} (hscope : scope.Placed state) {text : String}
    (hcall : scope.depth ≠ 0 → '(' ∉ text.toList) {path place : Path}
    (hpath : Path.ofText? text = some path) (hplace : scope.sourcePath path = some place) :
    (followPath .empty place.text).value state.get? = (followPath scope text).value state.get? ∨
      scope.LeadsAstray state text path place := by
  by_cases hdiffers : (followPath .empty place.text).value state.get? =
      (followPath scope text).value state.get?
  · exact .inl hdiffers
  · have hnowhere : place.isBounded → state.get? place = none := by
      intro hbounded
      by_contra hfound
      obtain ⟨value, hvalue⟩ := Option.ne_none_iff_exists'.1 hfound
      exact hdiffers (hscope.followPath_eq hpath hplace hbounded hvalue)
    refine .inr ⟨hcall, hpath, hplace, hnowhere, ?_, hdiffers⟩
    rintro rfl hplain hplainPlace
    have hnone := hnowhere (Path.written_of_isPlain hplainPlace).2
    exact hscope.ownText hplain hplace hplainPlace hnone hdiffers

/-- What follows a path is shown again, unless the path leads astray. -/
theorem shownOver_boundPath (hscope : ctx.scope.Placed state) (raw : String) :
    let text := String.ofList (Text.trim raw.toList)
    let bound := (ctx.boundPath raw).result state.get?
    bound.shownOver state = bound.current ∨
      ∃ path place, ctx.scope.LeadsAstray state text path place ∧
        bound = .binding place.text ((followPath ctx.scope text).value state.get?) := by
  have hcases := ctx.boundPath_cases raw
  simp only at hcases ⊢
  generalize String.ofList (Text.trim raw.toList) = text at hcases ⊢
  rcases hcases with heq | ⟨hlive, ⟨target, htarget, heq⟩ | ⟨-, heq⟩⟩
  · rw [heq]
    exact .inl (shownOver_boundTemplate hscope _)
  · simp only [heq, Noting.result_bind, result_observe, Noting.result_pure]
    rw [Bound.shownOver_binding, Bound.current]
    rw [bindingTarget?_eq_sourcePath] at htarget
    cases hpath : Path.ofText? text with
    | none =>
      rw [hpath] at htarget
      obtain rfl : text = target := Option.some.inj htarget
      -- Such a text is followed outside of iterations only, and stands for itself.
      have hempty : ctx.scope = .empty := Scope.eq_empty_of_depth_eq_zero
        (by_contra fun hdepth => (hlive hdepth).2 hpath)
      rw [hempty]
      exact .inl rfl
    | some path =>
      rw [hpath] at htarget
      obtain ⟨place, hplace, rfl⟩ := Option.map_eq_some_iff.1 htarget
      refine (followPath_eq_or_leadsAstray hscope (fun hdepth => (hlive hdepth).1) hpath
        hplace).imp_right fun hastray => ?_
      exact ⟨path, place, hastray, rfl⟩
  · simp only [heq, Noting.result_bind, result_observe, Noting.result_pure]
    exact .inl rfl

end Context

/-- Whether a binding was made from a path that leads astray. -/
inductive Bound.Strays (document : Document) (state : Store) : Bound → Prop where
  | mk {inner : Scope} {leaf : Leaf} {raw : String} {path place : Path}
      (hexpands : document.Expands state inner leaf) (hnames : document.Names leaf raw)
      (h : inner.LeadsAstray state (String.ofList (Text.trim raw.toList)) path place) :
      Bound.Strays document state (.binding place.text
        ((followPath inner (String.ofList (Text.trim raw.toList))).value state.get?))

theorem Bound.Strays.shownOver_ne {document : Document} {state : Store} {bound : Bound}
    (h : bound.Strays document state) : bound.shownOver state ≠ bound.current := by
  cases h with
  | mk hexpands hnames hastray =>
    rw [shownOver_binding, current]
    exact hastray.differs

theorem Context.Makes.shownOver_eq_or_strays {ctx : Context} {state : Store} {leaf : Leaf}
    {bound : Bound} (h : ctx.Makes state.get? leaf bound)
    (hexpands : ctx.document.Expands state ctx.scope leaf) :
    bound.shownOver state = bound.current ∨ bound.Strays ctx.document state := by
  cases h with
  | literal value => exact .inl rfl
  | template text => exact .inl (shownOver_boundTemplate hexpands.placed text)
  | @path raw hnames =>
    refine (shownOver_boundPath hexpands.placed raw).imp_right ?_
    rintro ⟨path, place, hastray, hbound⟩
    rw [hbound]
    exact .mk hexpands hnames hastray

namespace Rulebook

variable {rulebook : Rulebook} {document : Document} {state : Store} {track : Bool}
  {tree : ViewTree} {index : DependencyIndex}

/-- What does not stray in a new tree is shown again over the state that the tree was made over. -/
theorem shownOver_of_build (hbuild : rulebook.build document state track = .ok (tree, index))
    {id : ViewId} {view : View} (hview : tree.arena.get? id = some view) {bound : Bound}
    (hbound : bound ∈ view.kind.bounds) (hstrays : ¬ bound.Strays document state) :
    bound.shownOver state = bound.current := by
  obtain ⟨inner, leaf, hexpands, hmakes⟩ := made_of_build hbuild hview hbound
  exact (hmakes.shownOver_eq_or_strays hexpands).resolve_right hstrays

/-- A refresh of a view of a new tree, over the state that the tree was made over, has nothing to do
if and only if no binding of the view strays. A number that is no number counts as changed. -/
theorem refresh_of_build_iff (hbuild : rulebook.build document state track = .ok (tree, index))
    (id : ViewId) :
    tree.refresh id = (tree, false) ↔
      ∀ view, tree.arena.get? id = some view → ∀ bound ∈ view.kind.bounds,
        bound.differs bound = false ∧ ¬ bound.Strays document state := by
  rw [ViewTree.refresh_eq_self_iff, state_of_build hbuild]
  refine forall_congr' fun view => forall_congr' fun hview => ?_
  rw [ViewKind.refresh_eq_self_iff]
  refine forall_congr' fun bound => forall_congr' fun hbound => ?_
  rw [Bound.refresh_eq_self_iff, and_comm, and_congr_right_iff]
  intro _
  constructor
  · exact fun hshown hstrays => hstrays.shownOver_ne hshown
  · exact shownOver_of_build hbuild hview hbound

end Rulebook

/-! ### A board of rows -/

/-- What shows a text again does not stray. -/
theorem Bound.not_strays_of_string? {document : Document} {state : Store} {bound : Bound}
    (hsome : bound.current.string?.isSome)
    (hshown : (bound.shownOver state).string? = bound.current.string?) :
    ¬ bound.Strays document state := by
  have eq_string {value : Value} {text : String} (h : value.string? = some text) :
      value = .string text := by
    cases value <;> cases h
    rfl
  intro hstrays
  obtain ⟨text, htext⟩ := Option.isSome_iff_exists.1 hsome
  refine hstrays.shownOver_ne ?_
  rw [eq_string htext, eq_string (hshown.trans htext)]

/-- A document that shows parts of its rows: by the name of the row, at a fixed and at a computed
position, in a template, and by a condition. -/
def Document.board : Document :=
  let text (origin : DataOrigin) : Node :=
    .component { Leaf.ofType "text" with data := some origin }
  let path (path : String) : Node := text (.binding (some path) none)
  let row : Value := .object [("done", .bool true), ("name", .string "Ada"), ("task", .string "x")]
  { Document.ofTexts [] [("rows", .array [row])] with
    root.children := [.forEach ⟨none, "rows", "row", "i", .vertical, none, none, none⟩
      (.container ⟨.vertical, none, none, none, none, none, none⟩
        [path "row.name", path "rows.[0].task", path "rows[i].name",
          text (.binding none (some "$\x7brow.name\x7d, one of $\x7brows.count\x7d")),
          path "row.done ? row.name : row.task"]) none] }

namespace Rulebook

/-- A refresh of the new board has nothing to do for all views but the one with the condition. -/
theorem refresh_of_build_iff_board :
    ∃ tree index, standard.build .board (.ofValues Document.board.state) true = .ok (tree, index) ∧
      tree.size = 8 ∧ ∀ id, id ≠ 7 → tree.refresh id = (tree, false) := by
  have hfacts : (standard.build .board (.ofValues Document.board.state) true).toOption.any
      (fun built => decide (built.1.size = 8) && (List.range 8).all fun id =>
        decide (id = 7) || (built.1.arena.get? id).all fun view => view.kind.bounds.all fun bound =>
          !bound.differs bound && bound.current.string?.isSome &&
            decide ((bound.shownOver (.ofValues Document.board.state)).string? =
              bound.current.string?)) = true := by
    decide +kernel
  obtain ⟨⟨tree, index⟩, hbuild, hfacts⟩ := exists_of_any_toOption hfacts
  simp only [Bool.and_eq_true, Bool.or_eq_true, decide_eq_true_eq, List.all_eq_true,
    Option.all_eq_true, Bool.not_eq_true'] at hfacts
  obtain ⟨hsize, hviews⟩ := hfacts
  refine ⟨tree, index, hbuild, hsize, fun id hid => ?_⟩
  refine (refresh_of_build_iff hbuild id).2 ?_
  intro view hview bound hbound
  have hrange : id ∈ List.range 8 := by
    obtain ⟨entry, hentry, -⟩ := Option.map_eq_some_iff.1 hview
    have hlt : id < tree.size := (Array.getElem?_eq_some_iff.1 hentry).1
    rwa [hsize, ← List.mem_range] at hlt
  obtain ⟨⟨hsame, hsome⟩, hshown⟩ := (hviews id hrange).resolve_left hid view hview bound hbound
  exact ⟨hsame, Bound.not_strays_of_string? hsome hshown⟩

/-- The view with the condition is changed by a refresh. The text of the condition is a path, so
only the row at its start is replaced by a place, and the other names of the row mean nothing
there. -/
theorem refresh_ne_of_build_board :
    ¬ ∀ (document : Document) (state : Store) (tree : ViewTree) (index : DependencyIndex)
      (id : ViewId), standard.build document state true = .ok (tree, index) →
        tree.refresh id = (tree, false) := by
  intro hall
  have hfacts : (standard.build .board (.ofValues Document.board.state) true).toOption.any
      (fun built => (built.1.refresh 7).2) = true := by
    decide +kernel
  obtain ⟨⟨tree, index⟩, hbuild, hchanged⟩ := exists_of_any_toOption hfacts
  rw [hall _ _ tree index 7 hbuild] at hchanged
  cases hchanged

end Rulebook

end ScreenDoc
