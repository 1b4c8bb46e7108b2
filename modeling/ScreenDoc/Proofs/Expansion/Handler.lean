import ScreenDoc.Proofs.Expansion.Beside

/-!
# What becomes of handlers

A handler of a leaf ends up in the view that the leaf becomes, if the view has a use for it. One
that is known by name keeps its name, one in place is made ready, and one that is broken does
nothing and leaves a problem.

## Main definitions

- `ViewKind.action?`, `ViewKind.handler?` — the action of a view, and the handler that it comes from
- `ActionRules.fault?` — what is wrong with a handler
- `ActionRules.Binds` — what becomes of a handler
- `Context.LeafLaw` — what becomes of the handler of a leaf
- `LeafRules.BlameNoAction` — no rule of the host fails with a problem with an action

## Main results

- `Context.binds_boundAction`, `Context.faults_boundAction` — one handler
- `LeafRules.leafLaw` — every leaf

## Design notes

A computation notes problems of many kinds. Only those with actions are followed here; that there
are none is a simp lemma for each computation that has nothing to do with handlers.
-/

namespace ScreenDoc

/-! ### Views and their handlers -/

namespace ViewKind

/-- The action that a view holds. -/
def action? : ViewKind → Option BoundAction
  | .button view => view.onTap
  | .toggle view => view.onValueChanged
  | .slider view => view.onValueChanged
  | .textField view => view.onValueChanged
  | _ => none

/-- The handler of a leaf that a view of this kind has a use for. -/
def handler? (leaf : Leaf) : ViewKind → Option Handler
  | .button _ => leaf.actions.onTap
  | .toggle _ => leaf.actions.onValueChanged
  | .slider _ => leaf.actions.onValueChanged
  | .textField _ => leaf.actions.onValueChanged
  | _ => none

end ViewKind

/-- The name of an action that is held by its name. -/
def BoundAction.name? : BoundAction → Option String
  | .named id => some id
  | .inline _ => none

theorem BoundAction.name?_eq_some_iff {bound : BoundAction} {id : String} :
    bound.name? = some id ↔ bound = .named id := by
  cases bound <;> simp [name?]

/-- Whether a problem is one with an action. -/
def Problem.concernsAction : Problem → Bool
  | .unknownAction _ => true
  | .action _ _ => true
  | _ => false

namespace ActionRules

variable (rules : ActionRules) (table : ActionTable) (limit : Nat)

/-- What is wrong with a handler: its name is missing from the table, or its action cannot be made
ready. -/
def fault? : Handler → Option Problem
  | .named id => if Fields.contains table id then none else some (.unknownAction id)
  | .inline action =>
    match rules.ready table limit action with
    | .ok _ => none
    | .error error => some (.action action.kind.name error)

/-- What becomes of a handler. -/
inductive Binds : Handler → BoundAction → Prop where
  | named {id : String} (h : Fields.contains table id = true) : Binds (.named id) (.named id)
  | inline {action : Action} {ready : ReadyAction}
    (h : rules.ready table limit action = .ok ready) : Binds (.inline action) (.inline ready)
  | broken {handler : Handler} {problem : Problem}
    (h : rules.fault? table limit handler = some problem) : Binds handler (.inline .noop)

theorem Binds.eq_noop {rules : ActionRules} {table : ActionTable} {limit : Nat} {handler : Handler}
    {bound : BoundAction} (h : rules.Binds table limit handler bound) {problem : Problem}
    (hfault : rules.fault? table limit handler = some problem) : bound = .inline .noop := by
  cases h with
  | named hknown =>
    rw [fault?, if_pos hknown] at hfault
    cases hfault
  | inline hready =>
    rw [fault?, hready] at hfault
    cases hfault
  | broken h => rfl

end ActionRules

namespace Noting

variable {α β : Type} (answers : Path → Option Value)

/-- The problems with actions that a computation notes. -/
def faults (x : Noting α) : List Problem :=
  (x.outcome answers).diagnostics.filter Problem.concernsAction

@[simp] theorem faults_pure (a : α) : (pure a : Noting α).faults answers = [] := rfl

@[simp] theorem faults_bind (x : Noting α) (f : α → Noting β) :
    (x >>= f).faults answers =
      x.faults answers ++ (f (x.result answers)).faults answers := by
  rw [faults, bind_eq, outcome_bind, Noted.after, List.filter_append]
  rfl

end Noting

namespace Context

variable (ctx : Context) (answers : Path → Option Value)

/-- What becomes of a handler in a context. -/
abbrev Binds (ctx : Context) : Handler → BoundAction → Prop :=
  ctx.actions.Binds ctx.document.actions ctx.limits.actions

/-- What is wrong with a handler in a context. -/
abbrev fault? (ctx : Context) : Handler → Option Problem :=
  ctx.actions.fault? ctx.document.actions ctx.limits.actions

/-! ### Computations without handlers -/

@[simp] theorem faults_observe {α : Type} (reading : Reading α) :
    (ctx.observe reading).faults answers = [] := by
  rw [Noting.faults, outcome_observe_eq]
  rfl

@[simp] theorem faults_fill (template : String) : (ctx.fill template).faults answers = [] :=
  ctx.faults_observe answers _

@[simp] theorem faults_boundTemplate (raw : String) :
    (ctx.boundTemplate raw).faults answers = [] := by
  rw [boundTemplate]
  split
  · simp only [Noting.faults_bind, faults_fill, Noting.faults_pure, List.append_nil]
  · rfl

@[simp] theorem faults_boundPath (raw : String) : (ctx.boundPath raw).faults answers = [] := by
  simp only [boundPath]
  split
  · exact ctx.faults_boundTemplate answers _
  · simp only [Noting.faults_bind, faults_observe, Noting.faults_pure, List.append_nil]

@[simp] theorem faults_data (origin : DataOrigin) : (ctx.data origin).faults answers = [] := by
  cases origin with
  | static value => rfl
  | binding path template =>
    rcases path with _ | path
    · cases template with
      | none => rfl
      | some template => exact ctx.faults_boundTemplate answers template
    · exact ctx.faults_boundPath answers path
  | source id =>
    rw [data]
    rcases Fields.get? ctx.document.dataSources id with _ | _ | path
    · rfl
    · rfl
    · exact ctx.faults_boundPath answers path

@[simp] theorem faults_content (leaf : Leaf) : (ctx.content leaf).faults answers = [] := by
  rw [content]
  cases leaf.data with
  | some origin => exact ctx.faults_data answers origin
  | none =>
    cases leaf.text.or leaf.label with
    | some text => exact ctx.faults_boundTemplate answers text
    | none => rfl

@[simp] theorem faults_itemsAt (text : String) : (ctx.itemsAt text).faults answers = [] := by
  rw [itemsAt]
  cases Path.ofText? text with
  | none =>
    have hvalue : (ctx.valueOf text).faults answers = [] := ctx.faults_observe answers _
    simp only [Noting.faults_bind, hvalue, Noting.faults_pure, List.append_nil]
  | some path =>
    simp only
    rcases ctx.scope.lookup path with _ | ⟨value, _ | source⟩ <;> rfl

@[simp] theorem faults_effectiveStyle (id : Option String) (inline : Option StyleLayer) :
    (ctx.effectiveStyle id inline).faults answers = [] := by
  rw [effectiveStyle]
  cases ctx.document.styles.effective ctx.limits.styles id inline with
  | ok style => rfl
  | error error => cases error <;> rfl

@[simp] theorem faults_finalStyle (id : Option String) (inline : Option StyleLayer)
    (own : OwnProperties) : (ctx.finalStyle id inline own).faults answers = [] := by
  simp only [finalStyle, Noting.faults_bind, faults_effectiveStyle, Noting.faults_pure,
    List.append_nil]

@[simp] theorem faults_leafStyle (leaf : Leaf) : (ctx.leafStyle leaf).faults answers = [] :=
  ctx.faults_finalStyle answers _ _ _

@[simp] theorem faults_optionalText (text : Option String) :
    (ctx.optionalText text).faults answers = [] := by
  cases text with
  | none => rfl
  | some text => simp [optionalText]

@[simp] theorem faults_optionalStyle (inline : Option StyleLayer) (own : OwnProperties)
    (id : Option String) : (ctx.optionalStyle inline own id).faults answers = [] := by
  cases id with
  | none => rfl
  | some id => simp [optionalStyle]

@[simp] theorem faults_imageOrigin? (leaf : Leaf) :
    (ctx.imageOrigin? leaf).faults answers = [] := by
  rw [imageOrigin?]
  rcases leaf.property? "image" WrittenImage.ofJson? with _ | _ | _ | address
  · rfl
  · rfl
  · rfl
  · simp

@[simp] theorem faults_selection? (leaf : Leaf) : (ctx.selection? leaf).faults answers = [] := by
  rw [selection?]
  cases leaf.property? "isSelected" Json.string? with
  | none => rfl
  | some path => simp

@[simp] theorem faults_controlValue (leaf : Leaf) (fallback : Value) :
    (ctx.controlValue leaf fallback).faults answers = [] := by
  rw [controlValue]
  cases leaf.bind with
  | some path => simp
  | none =>
    cases leaf.data with
    | some origin => simp
    | none => rfl

@[simp] theorem faults_customProperties (properties : List (String × Value)) :
    (ctx.customProperties properties).faults answers = [] := by
  induction properties with
  | nil => rfl
  | cons property rest ih =>
    have hproperty : (ctx.customProperty property.2).faults answers = [] := by
      cases property.2 with
      | string s =>
        rw [customProperty]
        split
        · simp
        · rfl
      | _ => rfl
    simp only [customProperties, Noting.faults_bind, hproperty, ih, Noting.faults_pure,
      List.append_nil]

@[simp] theorem faults_containerKind (settings : ContainerSettings) :
    (ctx.containerKind settings).faults answers = [] := by
  simp [containerKind]

@[simp] theorem faults_iterationKind (settings : ForEachSettings) :
    (ctx.iterationKind settings).faults answers = [] := by
  simp [iterationKind]

/-! ### Handlers -/

theorem binds_boundAction (handler : Handler) :
    ctx.Binds handler ((ctx.boundAction handler).result answers) := by
  cases handler with
  | named id =>
    rw [boundAction]
    split
    · next hknown => exact .named hknown
    · next hmissing => exact .broken (if_neg hmissing)
  | inline action =>
    rw [boundAction]
    cases hready : ctx.actions.ready ctx.document.actions ctx.limits.actions action with
    | ok ready => exact .inline hready
    | error error => exact .broken (by rw [ActionRules.fault?, hready])

/-- What is wrong with a handler is noted once. -/
@[simp] theorem faults_boundAction (handler : Handler) :
    (ctx.boundAction handler).faults answers = (ctx.fault? handler).toList := by
  cases handler with
  | named id =>
    rw [boundAction, fault?, ActionRules.fault?]
    split <;> rfl
  | inline action =>
    rw [boundAction, fault?, ActionRules.fault?]
    cases ctx.actions.ready ctx.document.actions ctx.limits.actions action <;> rfl

theorem binds_boundAction? (handler : Option Handler) :
    Option.Rel ctx.Binds handler ((ctx.boundAction? handler).result answers) := by
  cases handler with
  | none => exact .none
  | some handler =>
    rw [boundAction?, Noting.result_bind]
    exact .some (ctx.binds_boundAction answers handler)

@[simp] theorem faults_boundAction? (handler : Option Handler) :
    (ctx.boundAction? handler).faults answers = (handler.bind ctx.fault?).toList := by
  cases handler with
  | none => rfl
  | some handler => simp [boundAction?]

/-! ### Leaves -/

/-- What becomes of the handler of a leaf: the view that has a use for it holds what it is bound to,
and what is wrong with it is noted. An invalid leaf has no use for a handler. -/
inductive LeafLaw (ctx : Context) (leaf : Leaf) : Except Problem ViewKind → List Problem → Prop
  | ok {kind : ViewKind} (h : Option.Rel ctx.Binds (kind.handler? leaf) kind.action?) :
    LeafLaw ctx leaf (.ok kind) ((kind.handler? leaf).bind ctx.fault?).toList
  | error {problem : Problem} (h : problem.concernsAction = false) :
    LeafLaw ctx leaf (.error problem) []

variable {ctx} {leaf : Leaf}

/-- A view without a handler. -/
theorem LeafLaw.plain {kind : ViewKind} (haction : kind.action? = none)
    (hhandler : kind.handler? leaf = none) : ctx.LeafLaw leaf (.ok kind) [] := by
  have hrel : Option.Rel ctx.Binds (kind.handler? leaf) kind.action? := by
    rw [haction, hhandler]
    exact .none
  have hlaw := LeafLaw.ok hrel
  rw [hhandler] at hlaw
  exact hlaw

end Context

namespace LeafRule

variable (ctx : Context) (leaf : Leaf) (answers : Path → Option Value)

open Context (LeafLaw)

theorem leafLaw_image :
    ctx.LeafLaw leaf ((LeafRule.image.kindOf ctx leaf).result answers)
      ((LeafRule.image.kindOf ctx leaf).faults answers) := by
  simp only [kindOf, Context.imageView, Noting.result_bind, Noting.faults_bind,
    Context.faults_imageOrigin?]
  cases (ctx.imageOrigin? leaf).result answers with
  | some source =>
    simp only [Noting.result_bind, Noting.faults_bind, Context.faults_leafStyle]
    exact .plain rfl rfl
  | none =>
    cases leaf.data with
    | some origin =>
      simp only [Noting.result_bind, Noting.faults_bind, Context.faults_data,
        Context.faults_leafStyle]
      exact .plain rfl rfl
    | none => exact .error rfl

theorem leafLaw_gradient :
    ctx.LeafLaw leaf ((LeafRule.gradient.kindOf ctx leaf).result answers)
      ((LeafRule.gradient.kindOf ctx leaf).faults answers) := by
  simp only [kindOf, Context.gradientView, Noting.result_bind, Noting.faults_bind]
  split
  · exact .error rfl
  · simp only [Noting.result_bind, Noting.faults_bind, Context.faults_leafStyle]
    exact .plain rfl rfl

theorem leafLaw_slider :
    ctx.LeafLaw leaf ((LeafRule.slider.kindOf ctx leaf).result answers)
      ((LeafRule.slider.kindOf ctx leaf).faults answers) := by
  simp only [kindOf, Context.sliderView, Noting.result_bind, Noting.faults_bind]
  split
  · exact .error rfl
  · simp only [Noting.result_bind, Noting.faults_bind, Context.faults_controlValue,
      Context.faults_leafStyle, Context.faults_boundAction?, Noting.faults_pure, List.nil_append,
      List.append_nil]
    exact .ok (ctx.binds_boundAction? answers leaf.actions.onValueChanged)

theorem leafLaw_shape :
    ctx.LeafLaw leaf ((LeafRule.shape.kindOf ctx leaf).result answers)
      ((LeafRule.shape.kindOf ctx leaf).faults answers) := by
  simp only [kindOf, Context.shapeView, Noting.result_bind, Noting.faults_bind]
  cases hform : Context.shapeForm leaf with
  | error error =>
    -- The form of a shape can only fail in one way.
    rw [Context.shapeForm] at hform
    split at hform
    · cases hform
    · split at hform
      · cases hform
      · cases hform
        exact .error rfl
  | ok shape =>
    simp only [Noting.result_bind, Noting.faults_bind, Context.faults_leafStyle]
    exact .plain rfl rfl

/-- What becomes of the handler of a leaf by a rule. -/
theorem leafLaw {rule : LeafRule}
    (hrule : ∀ error, rule = .fatal error → error.concernsAction = false) :
    ctx.LeafLaw leaf ((rule.kindOf ctx leaf).result answers)
      ((rule.kindOf ctx leaf).faults answers) := by
  cases rule with
  | text =>
    simp only [kindOf, Context.textView, Noting.result_bind, Noting.faults_bind,
      Context.faults_content, Context.faults_leafStyle]
    exact .plain rfl rfl
  | button =>
    simp only [kindOf, Context.buttonView, Noting.result_bind, Noting.faults_bind,
      Context.faults_finalStyle, Context.faults_optionalStyle, Context.faults_selection?,
      Context.faults_content, Context.faults_imageOrigin?, Context.faults_boundAction?,
      Noting.faults_pure, List.nil_append, List.append_nil]
    exact .ok (ctx.binds_boundAction? answers leaf.actions.onTap)
  | image => exact leafLaw_image ctx leaf answers
  | gradient => exact leafLaw_gradient ctx leaf answers
  | toggle =>
    simp only [kindOf, Context.toggleView, Noting.result_bind, Noting.faults_bind,
      Context.faults_controlValue, Context.faults_optionalText, Context.faults_leafStyle,
      Context.faults_boundAction?, Noting.faults_pure, List.nil_append, List.append_nil]
    exact .ok (ctx.binds_boundAction? answers leaf.actions.onValueChanged)
  | slider => exact leafLaw_slider ctx leaf answers
  | textField =>
    simp only [kindOf, Context.textFieldView, Noting.result_bind, Noting.faults_bind,
      Context.faults_controlValue, Context.faults_leafStyle, Context.faults_boundAction?,
      Noting.faults_pure, List.nil_append, List.append_nil]
    exact .ok (ctx.binds_boundAction? answers leaf.actions.onValueChanged)
  | shape => exact leafLaw_shape ctx leaf answers
  | divider =>
    simp only [kindOf, Context.dividerView, Noting.result_bind, Noting.faults_bind,
      Context.faults_leafStyle]
    exact .plain rfl rfl
  | custom =>
    simp only [kindOf, Context.customView, Noting.result_bind, Noting.faults_bind,
      Context.faults_customProperties, Context.faults_leafStyle]
    exact .plain rfl rfl
  | fatal error => exact .error (hrule error rfl)

end LeafRule

namespace LeafRules

/-- Whether the rules of the host that stop the expansion blame no action for it. -/
def BlameNoAction (leaves : LeafRules) : Prop :=
  ∀ type error, Fields.get? leaves.byName type = some (.fatal error) → error.concernsAction = false

theorem NeverFails.blameNoAction {leaves : LeafRules} (hleaves : leaves.NeverFails) :
    leaves.BlameNoAction :=
  fun type error hrule => absurd hrule (hleaves type error)

/-- What becomes of the handler of a leaf. -/
theorem leafLaw {leaves : LeafRules} (hleaves : leaves.BlameNoAction) (ctx : Context) (leaf : Leaf)
    (answers : Path → Option Value) :
    ctx.LeafLaw leaf ((leaves.kindOf ctx leaf).result answers)
      ((leaves.kindOf ctx leaf).faults answers) := by
  rw [kindOf]
  cases hrule : Fields.get? leaves.byName leaf.type with
  | none => exact .plain rfl rfl
  | some rule =>
    exact rule.leafLaw ctx leaf answers fun error hfatal => hleaves leaf.type error (hfatal ▸ hrule)

end LeafRules

end ScreenDoc
