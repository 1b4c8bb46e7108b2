import ScreenDoc.Proofs.Expansion.Compare
import ScreenDoc.Proofs.Expr.Within

/-!
# Notes without dependencies

Whether dependencies are noted is a switch of the context. The switch decides on nothing but the
notes: a computation with the switch turned off is the same computation, with the dependencies left
out of what it gives.

## Main definitions

- `Noting.silent` — a computation without its dependencies
- `Context.untracked` — a context in which no dependencies are noted

## Main results

- `Noting.silent_bind` — dependencies are left out step by step
- `LeafRules.silent_kindOf` — what a leaf becomes without the switch
- `Context.silent_itemsAt`, `Context.silent_containerKind`, `Context.silent_iterationKind`,
  `Context.silent_screen` — and what the rest of the layout asks for
-/

namespace ScreenDoc

namespace Noting

variable {α β : Type}

/-- A computation without the dependencies that it notes. -/
def silent (x : Noting α) : Noting α :=
  Reading.bind x fun noted => .done { noted with dependencies := [] }

@[simp] theorem silent_pure (a : α) : (pure a : Noting α).silent = pure a := rfl

@[simp] theorem silent_bind (x : Noting α) (f : α → Noting β) :
    (x >>= f).silent = x.silent >>= fun a => (f a).silent := by
  have hleft : (x >>= f).silent = Reading.bind x fun a => Reading.bind (f a.result) fun b =>
      .done ⟨b.result, [], a.diagnostics ++ b.diagnostics⟩ := by
    refine (Reading.bind_assoc x _ _).trans (congrArg (Reading.bind x) (funext fun a => ?_))
    exact Reading.bind_assoc (f a.result) _ _
  have hright : (x.silent >>= fun a => (f a).silent) = Reading.bind x fun a =>
      Reading.bind (f a.result) fun b =>
        .done ⟨b.result, [], a.diagnostics ++ b.diagnostics⟩ := by
    refine (Reading.bind_assoc x _ _).trans (congrArg (Reading.bind x) (funext fun a => ?_))
    exact Reading.bind_assoc (f a.result) _ _
  rw [hleft, hright]

end Noting

namespace Context

variable (ctx : Context)

/-- A context in which no dependencies are noted. -/
def untracked : Context :=
  { ctx with tracks := false }

@[simp] theorem document_untracked : ctx.untracked.document = ctx.document := rfl

@[simp] theorem limits_untracked : ctx.untracked.limits = ctx.limits := rfl

@[simp] theorem actions_untracked : ctx.untracked.actions = ctx.actions := rfl

@[simp] theorem scope_untracked : ctx.untracked.scope = ctx.scope := rfl

/-! ### Values -/

/-- A question is asked whether it is noted or not. -/
theorem silent_observe {α : Type} (reading : Reading α) :
    (ctx.observe reading).silent = ctx.untracked.observe reading :=
  Reading.bind_assoc reading.listen _ _

@[simp] theorem silent_valueOf (expression : String) :
    (ctx.valueOf expression).silent = ctx.untracked.valueOf expression :=
  ctx.silent_observe _

@[simp] theorem silent_fill (template : String) :
    (ctx.fill template).silent = ctx.untracked.fill template :=
  ctx.silent_observe _

@[simp] theorem silent_boundTemplate (raw : String) :
    (ctx.boundTemplate raw).silent = ctx.untracked.boundTemplate raw := by
  rw [boundTemplate, boundTemplate, scope_untracked]
  split
  · simp only [Noting.silent_bind, silent_fill, Noting.silent_pure]
  · rfl

@[simp] theorem silent_boundPath (raw : String) :
    (ctx.boundPath raw).silent = ctx.untracked.boundPath raw := by
  have htarget : ∀ text, ctx.untracked.bindingTarget? text = ctx.bindingTarget? text :=
    fun text => rfl
  -- As a hypothesis, the equation also rewrites what decides the condition.
  have hscope := ctx.scope_untracked
  simp only [boundPath, hscope, htarget]
  split
  · exact ctx.silent_boundTemplate _
  · simp only [Noting.silent_bind, silent_observe, Noting.silent_pure]

@[simp] theorem silent_data (origin : DataOrigin) :
    (ctx.data origin).silent = ctx.untracked.data origin := by
  cases origin with
  | static value => rfl
  | binding path template =>
    rcases path with _ | path
    · cases template with
      | none => rfl
      | some template => exact ctx.silent_boundTemplate template
    · exact ctx.silent_boundPath path
  | source id =>
    simp only [data, document_untracked]
    rcases Fields.get? ctx.document.dataSources id with _ | _ | path
    · rfl
    · rfl
    · exact ctx.silent_boundPath path

@[simp] theorem silent_content (leaf : Leaf) :
    (ctx.content leaf).silent = ctx.untracked.content leaf := by
  rw [content, content]
  cases leaf.data with
  | some origin => exact ctx.silent_data origin
  | none =>
    cases leaf.text.or leaf.label with
    | some text => exact ctx.silent_boundTemplate text
    | none => rfl

/-- The array of an iteration does not depend on whether the view that it shapes is noted. -/
@[simp] theorem silent_itemsAt (text : String) :
    (ctx.itemsAt text).silent = ctx.untracked.itemsAt text := by
  rw [itemsAt, itemsAt]
  cases Path.ofText? text with
  | none =>
    simp only [Noting.silent_bind, silent_valueOf, Noting.silent_pure]
  | some path =>
    simp only [scope_untracked]
    rcases ctx.scope.lookup path with _ | ⟨value, _ | source⟩ <;> rfl

/-! ### Styles and actions -/

@[simp] theorem silent_effectiveStyle (id : Option String) (inline : Option StyleLayer) :
    (ctx.effectiveStyle id inline).silent = ctx.untracked.effectiveStyle id inline := by
  rw [effectiveStyle, effectiveStyle, document_untracked, limits_untracked]
  cases ctx.document.styles.effective ctx.limits.styles id inline <;> rfl

@[simp] theorem silent_finalStyle (id : Option String) (inline : Option StyleLayer)
    (own : OwnProperties) :
    (ctx.finalStyle id inline own).silent = ctx.untracked.finalStyle id inline own := by
  simp only [finalStyle, Noting.silent_bind, silent_effectiveStyle, Noting.silent_pure]

@[simp] theorem silent_leafStyle (leaf : Leaf) :
    (ctx.leafStyle leaf).silent = ctx.untracked.leafStyle leaf :=
  ctx.silent_finalStyle _ _ _

@[simp] theorem silent_boundAction (handler : Handler) :
    (ctx.boundAction handler).silent = ctx.untracked.boundAction handler := by
  cases handler with
  | named id =>
    rw [boundAction, boundAction, document_untracked]
    split <;> rfl
  | inline action =>
    rw [boundAction, boundAction, document_untracked, limits_untracked, actions_untracked]
    cases ctx.actions.ready ctx.document.actions ctx.limits.actions action <;> rfl

@[simp] theorem silent_boundAction? (handler : Option Handler) :
    (ctx.boundAction? handler).silent = ctx.untracked.boundAction? handler := by
  cases handler with
  | none => rfl
  | some handler => simp only [boundAction?, Noting.silent_bind, silent_boundAction,
      Noting.silent_pure]

@[simp] theorem silent_optionalText (text : Option String) :
    (ctx.optionalText text).silent = ctx.untracked.optionalText text := by
  cases text with
  | none => rfl
  | some text => simp only [optionalText, Noting.silent_bind, silent_boundTemplate,
      Noting.silent_pure]

@[simp] theorem silent_optionalStyle (inline : Option StyleLayer) (own : OwnProperties)
    (id : Option String) :
    (ctx.optionalStyle inline own id).silent = ctx.untracked.optionalStyle inline own id := by
  cases id with
  | none => rfl
  | some id => simp only [optionalStyle, Noting.silent_bind, silent_finalStyle,
      Noting.silent_pure]

/-! ### Leaves -/

@[simp] theorem silent_imageOrigin? (leaf : Leaf) :
    (ctx.imageOrigin? leaf).silent = ctx.untracked.imageOrigin? leaf := by
  rw [imageOrigin?, imageOrigin?]
  rcases leaf.property? "image" WrittenImage.ofJson? with _ | _ | _ | address
  · rfl
  · rfl
  · rfl
  · simp only [Noting.silent_bind, silent_boundTemplate, Noting.silent_pure]

@[simp] theorem silent_selection? (leaf : Leaf) :
    (ctx.selection? leaf).silent = ctx.untracked.selection? leaf := by
  rw [selection?, selection?]
  cases leaf.property? "isSelected" Json.string? with
  | none => rfl
  | some path => simp only [Noting.silent_bind, silent_boundPath, Noting.silent_pure]

@[simp] theorem silent_controlValue (leaf : Leaf) (fallback : Value) :
    (ctx.controlValue leaf fallback).silent = ctx.untracked.controlValue leaf fallback := by
  rw [controlValue, controlValue]
  cases leaf.bind with
  | some path => simp only [Noting.silent_bind, silent_boundPath, Noting.silent_pure]
  | none =>
    cases leaf.data with
    | some origin => simp only [Noting.silent_bind, silent_data, Noting.silent_pure]
    | none => rfl

@[simp] theorem silent_customProperties (properties : List (String × Value)) :
    (ctx.customProperties properties).silent = ctx.untracked.customProperties properties := by
  induction properties with
  | nil => rfl
  | cons property rest ih =>
    have hproperty : (ctx.customProperty property.2).silent =
        ctx.untracked.customProperty property.2 := by
      cases property.2 with
      | string s =>
        rw [customProperty, customProperty]
        split
        · simp only [Noting.silent_bind, silent_fill, Noting.silent_pure]
        · rfl
      | _ => rfl
    simp only [customProperties, Noting.silent_bind, hproperty, ih, Noting.silent_pure]

theorem silent_imageView (leaf : Leaf) :
    (ctx.imageView leaf).silent = ctx.untracked.imageView leaf := by
  rw [imageView, imageView, Noting.silent_bind, silent_imageOrigin?]
  refine congrArg (ctx.untracked.imageOrigin? leaf >>= ·) (funext fun origin => ?_)
  cases origin with
  | some source => simp only [Noting.silent_bind, silent_leafStyle, Noting.silent_pure]
  | none =>
    cases leaf.data with
    | some data => simp only [Noting.silent_bind, silent_data, silent_leafStyle,
        Noting.silent_pure]
    | none => rfl

theorem silent_gradientView (leaf : Leaf) :
    (ctx.gradientView leaf).silent = ctx.untracked.gradientView leaf := by
  simp only [gradientView]
  split
  · rfl
  · simp only [Noting.silent_bind, silent_leafStyle, Noting.silent_pure]

theorem silent_sliderView (leaf : Leaf) :
    (ctx.sliderView leaf).silent = ctx.untracked.sliderView leaf := by
  simp only [sliderView]
  split
  · rfl
  · simp only [Noting.silent_bind, silent_controlValue, silent_leafStyle, silent_boundAction?,
      Noting.silent_pure]

theorem silent_shapeView (leaf : Leaf) :
    (ctx.shapeView leaf).silent = ctx.untracked.shapeView leaf := by
  simp only [shapeView]
  cases shapeForm leaf with
  | error error => rfl
  | ok shape => simp only [Noting.silent_bind, silent_leafStyle, Noting.silent_pure]

/-! ### Containers and the screen -/

@[simp] theorem silent_containerKind (settings : ContainerSettings) :
    (ctx.containerKind settings).silent = ctx.untracked.containerKind settings := by
  simp only [containerKind, Noting.silent_bind, silent_finalStyle, Noting.silent_pure]

@[simp] theorem silent_iterationKind (settings : ForEachSettings) :
    (ctx.iterationKind settings).silent = ctx.untracked.iterationKind settings := by
  simp only [iterationKind, Noting.silent_bind, silent_finalStyle, Noting.silent_pure]

@[simp] theorem silent_screen (root : Root) :
    (ctx.screen root).silent = ctx.untracked.screen root := by
  simp only [screen, Noting.silent_bind, silent_effectiveStyle, silent_boundAction?,
    Noting.silent_pure]

end Context

/-! ### The rules for leaves -/

theorem LeafRule.silent_kindOf (rule : LeafRule) (ctx : Context) (leaf : Leaf) :
    (rule.kindOf ctx leaf).silent = rule.kindOf ctx.untracked leaf := by
  cases rule with
  | text => simp only [kindOf, Context.textView, Noting.silent_bind, Context.silent_content,
      Context.silent_leafStyle, Noting.silent_pure]
  | button => simp only [kindOf, Context.buttonView, Noting.silent_bind,
      Context.silent_finalStyle, Context.silent_optionalStyle, Context.silent_selection?,
      Context.silent_content, Context.silent_imageOrigin?, Context.silent_boundAction?,
      Noting.silent_pure]
  | image => simp only [kindOf, Noting.silent_bind, Context.silent_imageView, Noting.silent_pure]
  | gradient => simp only [kindOf, Noting.silent_bind, Context.silent_gradientView,
      Noting.silent_pure]
  | toggle => simp only [kindOf, Context.toggleView, Noting.silent_bind,
      Context.silent_controlValue, Context.silent_optionalText, Context.silent_leafStyle,
      Context.silent_boundAction?, Noting.silent_pure]
  | slider => simp only [kindOf, Noting.silent_bind, Context.silent_sliderView,
      Noting.silent_pure]
  | textField => simp only [kindOf, Context.textFieldView, Noting.silent_bind,
      Context.silent_controlValue, Context.silent_leafStyle, Context.silent_boundAction?,
      Noting.silent_pure]
  | shape => simp only [kindOf, Noting.silent_bind, Context.silent_shapeView, Noting.silent_pure]
  | divider => simp only [kindOf, Context.dividerView, Noting.silent_bind,
      Context.silent_leafStyle, Noting.silent_pure]
  | custom => simp only [kindOf, Context.customView, Noting.silent_bind,
      Context.silent_customProperties, Context.silent_leafStyle, Noting.silent_pure]
  | fatal error => rfl

/-- A leaf becomes the same view, with the same problems, whether dependencies are noted or not. -/
theorem LeafRules.silent_kindOf (leaves : LeafRules) (ctx : Context) (leaf : Leaf) :
    (leaves.kindOf ctx leaf).silent = leaves.kindOf ctx.untracked leaf := by
  rw [kindOf, kindOf]
  cases Fields.get? leaves.byName leaf.type with
  | none => rfl
  | some rule => exact rule.silent_kindOf ctx leaf

end ScreenDoc
