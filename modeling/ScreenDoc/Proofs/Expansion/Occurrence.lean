import ScreenDoc.Proofs.Expansion.Origin

/-!
# The values that leaves make

Every bound value of a tree has been made by an occurrence of a leaf: it is fixed, or a template of
the leaf is followed, or a path that the leaf names.

## Main definitions

- `Document.Names` — a leaf names a path to follow
- `Context.Makes` — a bound value is made for a leaf

## Main results

- `LeafRule.makes_kindOf` — the values of a view that a refresh evaluates are made for its leaf
- `Rulebook.made_of_build` — the bound values of a tree are made by occurrences
-/

namespace ScreenDoc

/-! ### The values of a leaf -/

/-- Whether a leaf names a text as a path to follow. -/
inductive Document.Names (document : Document) (leaf : Leaf) : String → Prop where
  | bind {text : String} (h : leaf.bind = some text) : document.Names leaf text
  | data {text : String} {template : Option String}
      (h : leaf.data = some (.binding (some text) template)) : document.Names leaf text
  | source {id text : String} (h : leaf.data = some (.source id))
      (hsource : Fields.get? document.dataSources id = some (.binding text)) :
      document.Names leaf text
  | selection {text : String} (h : leaf.property? "isSelected" Json.string? = some text) :
      document.Names leaf text

namespace Context

/-- Whether a value is made for a leaf: it is fixed, or follows a template, or follows a path that
the leaf names. -/
inductive Makes (ctx : Context) (answers : Path → Option Value) (leaf : Leaf) : Bound → Prop where
  | literal (value : Value) : ctx.Makes answers leaf (.literal value)
  | template (text : String) : ctx.Makes answers leaf ((ctx.boundTemplate text).result answers)
  | path {text : String} (h : ctx.document.Names leaf text) :
      ctx.Makes answers leaf ((ctx.boundPath text).result answers)

variable {ctx : Context} {answers : Path → Option Value} {leaf : Leaf}

theorem makes_data {origin : DataOrigin} (horigin : leaf.data = some origin) :
    ctx.Makes answers leaf ((ctx.data origin).result answers) := by
  cases origin with
  | static value => exact .literal value
  | binding path template =>
    cases path with
    | some text => exact .path (.data horigin)
    | none =>
      cases template with
      | some text => exact .template text
      | none => exact .literal .null
  | source id =>
    rw [data]
    cases hsource : Fields.get? ctx.document.dataSources id with
    | none =>
      simp only
      rw [Noting.result_bind]
      exact .literal .null
    | some source =>
      cases source with
      | static value => exact .literal value
      | binding text => exact .path (.source horigin hsource)

theorem makes_content : ctx.Makes answers leaf ((ctx.content leaf).result answers) := by
  rw [content]
  cases hdata : leaf.data with
  | some origin => exact makes_data hdata
  | none =>
    cases leaf.text.or leaf.label with
    | some text => exact .template text
    | none => exact .literal _

theorem makes_optionalText {text : Option String} :
    ∀ bound ∈ ((ctx.optionalText text).result answers).toList, ctx.Makes answers leaf bound := by
  cases text with
  | none => exact fun bound hbound => absurd hbound List.not_mem_nil
  | some text =>
    rw [optionalText, Noting.result_bind]
    exact List.forall_mem_singleton.2 (.template text)

theorem makes_selection? :
    ∀ bound ∈ ((ctx.selection? leaf).result answers).toList, ctx.Makes answers leaf bound := by
  rw [selection?]
  cases hselected : leaf.property? "isSelected" Json.string? with
  | none => exact fun bound hbound => absurd hbound List.not_mem_nil
  | some text =>
    simp only
    rw [Noting.result_bind]
    exact List.forall_mem_singleton.2 (.path (.selection hselected))

theorem makes_imageOrigin? {origin : ImageOrigin}
    (horigin : (ctx.imageOrigin? leaf).result answers = some origin) :
    ∀ bound ∈ origin.bounds, ctx.Makes answers leaf bound := by
  rw [imageOrigin?] at horigin
  cases himage : leaf.property? "image" WrittenImage.ofJson? with
  | none =>
    rw [himage] at horigin
    cases horigin
  | some image =>
    rw [himage] at horigin
    cases image with
    | url address =>
      simp only at horigin
      rw [Noting.result_bind] at horigin
      obtain rfl := Option.some.inj horigin
      exact List.forall_mem_singleton.2 (.template address)
    | _ =>
      obtain rfl := Option.some.inj horigin
      exact fun bound hbound => absurd hbound List.not_mem_nil

theorem makes_controlValue {fallback : Value} :
    ctx.Makes answers leaf ((ctx.controlValue leaf fallback).result answers).1 := by
  rw [controlValue]
  cases hbind : leaf.bind with
  | some text =>
    simp only
    rw [Noting.result_bind]
    exact .path (.bind hbind)
  | none =>
    cases hdata : leaf.data with
    | some origin =>
      simp only
      rw [Noting.result_bind]
      exact makes_data hdata
    | none => exact .literal fallback

theorem makes_textView :
    ∀ bound ∈ (ViewKind.text ((ctx.textView leaf).result answers)).bounds,
      ctx.Makes answers leaf bound := by
  simp only [textView, Noting.result_bind, Noting.result_pure]
  exact List.forall_mem_singleton.2 makes_content

theorem makes_buttonView :
    ∀ bound ∈ (ViewKind.button ((ctx.buttonView leaf).result answers)).bounds,
      ctx.Makes answers leaf bound := by
  simp only [buttonView, Noting.result_bind, Noting.result_pure]
  exact List.forall_mem_cons.2 ⟨makes_content, makes_selection?⟩

theorem makes_imageView {view : ImageView}
    (hview : (ctx.imageView leaf).result answers = .ok view) :
    ∀ bound ∈ (ViewKind.image view).bounds, ctx.Makes answers leaf bound := by
  rw [imageView, Noting.result_bind] at hview
  split at hview
  · next source hsource =>
    rw [Noting.result_bind] at hview
    obtain rfl := Except.ok.inj hview
    exact makes_imageOrigin? hsource
  · split at hview
    · next origin horigin =>
      simp only [Noting.result_bind] at hview
      obtain rfl := Except.ok.inj hview
      exact List.forall_mem_singleton.2 (makes_data horigin)
    · cases hview

theorem makes_toggleView :
    ∀ bound ∈ (ViewKind.toggle ((ctx.toggleView leaf).result answers)).bounds,
      ctx.Makes answers leaf bound := by
  simp only [toggleView, Noting.result_bind, Noting.result_pure]
  exact List.forall_mem_cons.2 ⟨makes_controlValue, makes_optionalText⟩

theorem makes_sliderView {view : SliderView}
    (hview : (ctx.sliderView leaf).result answers = .ok view) :
    ∀ bound ∈ (ViewKind.slider view).bounds, ctx.Makes answers leaf bound := by
  simp only [sliderView] at hview
  split at hview
  · cases hview
  · simp only [Noting.result_bind] at hview
    obtain rfl := Except.ok.inj hview
    exact List.forall_mem_singleton.2 makes_controlValue

theorem makes_textFieldView :
    ∀ bound ∈ (ViewKind.textField ((ctx.textFieldView leaf).result answers)).bounds,
      ctx.Makes answers leaf bound := by
  simp only [textFieldView, Noting.result_bind, Noting.result_pure]
  exact List.forall_mem_singleton.2 makes_controlValue

end Context

/-- The values that a refresh of the view of a leaf evaluates are made for the leaf. -/
theorem LeafRule.makes_kindOf {rule : LeafRule} {ctx : Context} {answers : Path → Option Value}
    {leaf : Leaf} {kind : ViewKind} (hkind : (rule.kindOf ctx leaf).result answers = .ok kind) :
    ∀ bound ∈ kind.bounds, ctx.Makes answers leaf bound := by
  have plain {α : Type} {x : Except Problem α} {f : α → ViewKind} (hx : x.map f = .ok kind)
      (hf : ∀ a, (f a).bounds = []) : ∀ bound ∈ kind.bounds, ctx.Makes answers leaf bound := by
    obtain ⟨a, -, rfl⟩ := exists_of_map_eq_ok hx
    rw [hf]
    exact fun bound hbound => absurd hbound List.not_mem_nil
  cases rule with
  | fatal error => cases hkind
  | image =>
    rw [kindOf, Noting.result_bind] at hkind
    obtain ⟨view, hview, rfl⟩ := exists_of_map_eq_ok hkind
    exact Context.makes_imageView hview
  | slider =>
    rw [kindOf, Noting.result_bind] at hkind
    obtain ⟨view, hview, rfl⟩ := exists_of_map_eq_ok hkind
    exact Context.makes_sliderView hview
  | gradient =>
    rw [kindOf, Noting.result_bind] at hkind
    exact plain hkind fun _ => rfl
  | shape =>
    rw [kindOf, Noting.result_bind] at hkind
    exact plain hkind fun _ => rfl
  | text =>
    rw [kindOf, Noting.result_bind] at hkind
    obtain rfl := Except.ok.inj hkind
    exact Context.makes_textView
  | button =>
    rw [kindOf, Noting.result_bind] at hkind
    obtain rfl := Except.ok.inj hkind
    exact Context.makes_buttonView
  | toggle =>
    rw [kindOf, Noting.result_bind] at hkind
    obtain rfl := Except.ok.inj hkind
    exact Context.makes_toggleView
  | textField =>
    rw [kindOf, Noting.result_bind] at hkind
    obtain rfl := Except.ok.inj hkind
    exact Context.makes_textFieldView
  | divider =>
    rw [kindOf, Noting.result_bind] at hkind
    obtain rfl := Except.ok.inj hkind
    exact fun bound hbound => absurd hbound List.not_mem_nil
  | custom =>
    rw [kindOf, Noting.result_bind] at hkind
    obtain rfl := Except.ok.inj hkind
    exact fun bound hbound => absurd hbound List.not_mem_nil

theorem Context.makes_kindOf {leaves : LeafRules} {ctx : Context}
    {answers : Path → Option Value} {leaf : Leaf} {kind : ViewKind}
    (hkind : (leaves.kindOf ctx leaf).result answers = .ok kind) :
    ∀ bound ∈ kind.bounds, ctx.Makes answers leaf bound := by
  rw [LeafRules.kindOf] at hkind
  cases hrule : Fields.get? leaves.byName leaf.type with
  | some rule =>
    rw [hrule] at hkind
    exact LeafRule.makes_kindOf hkind
  | none =>
    rw [hrule] at hkind
    obtain rfl := Except.ok.inj hkind
    exact fun bound hbound => absurd hbound List.not_mem_nil

/-- That the values of a view that a refresh evaluates are made by occurrences of leaves is a law of
views. -/
theorem viewLaw_makes (leaves : LeafRules) (ctx : Context) (answers : Path → Option Value)
    (occurs : Scope → Leaf → Prop) :
    ViewLaw leaves ctx answers occurs fun view _ => ∀ bound ∈ view.kind.bounds,
      ∃ inner leaf, occurs inner leaf ∧ (ctx.withScope inner).Makes answers leaf bound where
  plain view _ hheld bound hbound := by
    rw [(List.append_eq_nil_iff.1 hheld).1] at hbound
    exact absurd hbound List.not_mem_nil
  leaf scope leaf hoccurs kind := by
    intro noted hkind id slot pending bound hbound
    exact ⟨scope, leaf, hoccurs, Context.makes_kindOf hkind bound hbound⟩

/-- The values that a refresh of a tree evaluates are made by occurrences of leaves. -/
theorem Rulebook.made_of_build {rulebook : Rulebook} {document : Document} {state : Store}
    {track : Bool} {tree : ViewTree} {index : DependencyIndex}
    (hbuild : rulebook.build document state track = .ok (tree, index)) {id : ViewId} {view : View}
    (hview : tree.arena.get? id = some view) {bound : Bound} (hbound : bound ∈ view.kind.bounds) :
    ∃ inner leaf, document.Expands state inner leaf ∧
      ((Context.ofDocument document rulebook.limits track rulebook.actions).withScope inner).Makes
        state.get? leaf bound := by
  obtain ⟨dependencies, hmade, -⟩ := (viewLaw_makes _ _ _ _).of_build hbuild hview
  exact hmade bound hbound

end ScreenDoc
