import ScreenDoc.Proofs.Expansion.Handler

/-!
# What notes that a view is shaped

Only an iteration notes that a view is shaped by an array: the one at the place that its text stands
for. All other computations note at most that a view shows values.

## Main definitions

- `Dependency.shapes` — the arrays among dependencies that a view is shaped by
- `Noting.shapes` — those that a computation notes

## Main results

- `Context.shapes_itemsAt` — the array that an iteration notes
- `LeafRules.shapes_kindOf` — a leaf notes no array
-/

namespace ScreenDoc

/-! ### Shapes among dependencies -/

namespace Dependency

/-- The arrays that a view is shaped by, among what it depends on. -/
def shapes (dependencies : List Dependency) : List Path :=
  (dependencies.filter fun d => d.kind = .shape).map Dependency.path

@[simp] theorem shapes_append (earlier later : List Dependency) :
    shapes (earlier ++ later) = shapes earlier ++ shapes later := by
  rw [shapes, List.filter_append, List.map_append]
  rfl

theorem shapes_values (paths : List Path) :
    shapes (paths.map fun path => ⟨path, .value⟩) = [] := by
  rw [shapes, List.map_eq_nil_iff, List.filter_eq_nil_iff]
  intro d hd
  obtain ⟨path, -, rfl⟩ := List.mem_map.1 hd
  simp

theorem mem_shapes {dependencies : List Dependency} {array : Path} :
    array ∈ shapes dependencies ↔ ⟨array, .shape⟩ ∈ dependencies := by
  rw [shapes, List.mem_map]
  constructor
  · rintro ⟨⟨path, kind⟩, hd, rfl⟩
    obtain ⟨hmem, hkind⟩ := List.mem_filter.1 hd
    obtain rfl : kind = .shape := of_decide_eq_true hkind
    exact hmem
  · intro hmem
    exact ⟨⟨array, .shape⟩, List.mem_filter.2 ⟨hmem, rfl⟩, rfl⟩

end Dependency

namespace Noting

variable {α β : Type} (answers : Path → Option Value)

/-- The arrays that a computation notes that the view is shaped by. -/
def shapes (x : Noting α) : List Path :=
  Dependency.shapes (x.outcome answers).dependencies

@[simp] theorem shapes_pure (a : α) : (pure a : Noting α).shapes answers = [] := rfl

@[simp] theorem shapes_diagnose (error : Problem) : (diagnose error).shapes answers = [] := rfl

@[simp] theorem shapes_bind (x : Noting α) (f : α → Noting β) :
    (x >>= f).shapes answers = x.shapes answers ++ (f (x.result answers)).shapes answers := by
  rw [shapes, bind_eq, outcome_bind, Noted.after, Dependency.shapes_append]
  rfl

end Noting

namespace Context

variable (ctx : Context) (answers : Path → Option Value)

/-! ### Values, styles and actions -/

@[simp] theorem shapes_observe {α : Type} (reading : Reading α) :
    (ctx.observe reading).shapes answers = [] := by
  rw [Noting.shapes, outcome_observe_eq, tracked]
  split
  · exact Dependency.shapes_values _
  · rfl

@[simp] theorem shapes_fill (template : String) : (ctx.fill template).shapes answers = [] :=
  ctx.shapes_observe answers _

@[simp] theorem shapes_valueOf (text : String) : (ctx.valueOf text).shapes answers = [] :=
  ctx.shapes_observe answers _

@[simp] theorem shapes_boundTemplate (raw : String) :
    (ctx.boundTemplate raw).shapes answers = [] := by
  rw [boundTemplate]
  split <;> simp

@[simp] theorem shapes_boundPath (raw : String) : (ctx.boundPath raw).shapes answers = [] := by
  simp only [boundPath]
  split <;> simp

@[simp] theorem shapes_data (origin : DataOrigin) : (ctx.data origin).shapes answers = [] := by
  rcases origin with value | ⟨_ | path, _ | template⟩ | id
  case source =>
    rw [data]
    rcases Fields.get? ctx.document.dataSources id with _ | _ | path <;> simp
  all_goals simp [data]

@[simp] theorem shapes_content (leaf : Leaf) : (ctx.content leaf).shapes answers = [] := by
  rw [content]
  rcases leaf.data with _ | origin
  · rcases leaf.text.or leaf.label with _ | text <;> simp
  · simp

@[simp] theorem shapes_effectiveStyle (id : Option String) (inline : Option StyleLayer) :
    (ctx.effectiveStyle id inline).shapes answers = [] := by
  rw [effectiveStyle]
  rcases ctx.document.styles.effective ctx.limits.styles id inline with error | style <;> simp

@[simp] theorem shapes_finalStyle (id : Option String) (inline : Option StyleLayer)
    (own : OwnProperties) : (ctx.finalStyle id inline own).shapes answers = [] := by
  simp [finalStyle]

@[simp] theorem shapes_leafStyle (leaf : Leaf) : (ctx.leafStyle leaf).shapes answers = [] :=
  ctx.shapes_finalStyle answers _ _ _

@[simp] theorem shapes_boundAction (handler : Handler) :
    (ctx.boundAction handler).shapes answers = [] := by
  cases handler with
  | named id =>
    rw [boundAction]
    split <;> simp
  | inline action =>
    rw [boundAction]
    rcases ctx.actions.ready ctx.document.actions ctx.limits.actions action with error | ready <;>
      simp

@[simp] theorem shapes_boundAction? (handler : Option Handler) :
    (ctx.boundAction? handler).shapes answers = [] := by
  cases handler <;> simp [boundAction?]

theorem shapes_screen (root : Root) : (ctx.screen root).shapes answers = [] := by
  simp [screen]

/-! ### Leaves -/

@[simp] theorem shapes_optionalText (text : Option String) :
    (ctx.optionalText text).shapes answers = [] := by
  cases text <;> simp [optionalText]

@[simp] theorem shapes_optionalStyle (inline : Option StyleLayer) (own : OwnProperties)
    (id : Option String) : (ctx.optionalStyle inline own id).shapes answers = [] := by
  cases id <;> simp [optionalStyle]

@[simp] theorem shapes_imageOrigin? (leaf : Leaf) :
    (ctx.imageOrigin? leaf).shapes answers = [] := by
  rw [imageOrigin?]
  rcases leaf.property? "image" WrittenImage.ofJson? with _ | _ | _ | address <;> simp

@[simp] theorem shapes_selection? (leaf : Leaf) : (ctx.selection? leaf).shapes answers = [] := by
  rw [selection?]
  rcases leaf.property? "isSelected" Json.string? with _ | path <;> simp

@[simp] theorem shapes_controlValue (leaf : Leaf) (fallback : Value) :
    (ctx.controlValue leaf fallback).shapes answers = [] := by
  rw [controlValue]
  rcases leaf.bind with _ | path
  · rcases leaf.data with _ | origin <;> simp
  · simp

@[simp] theorem shapes_customProperty (value : Value) :
    (ctx.customProperty value).shapes answers = [] := by
  rw [customProperty.eq_def]
  split
  · split <;> simp
  · simp

@[simp] theorem shapes_customProperties (properties : List (String × Value)) :
    (ctx.customProperties properties).shapes answers = [] := by
  induction properties with
  | nil => simp [customProperties]
  | cons property rest ih => simp [customProperties, ih]

@[simp] theorem shapes_imageView (leaf : Leaf) : (ctx.imageView leaf).shapes answers = [] := by
  simp only [imageView, Noting.shapes_bind, shapes_imageOrigin?, List.nil_append]
  rcases (ctx.imageOrigin? leaf).result answers with _ | source
  · rcases leaf.data with _ | origin <;> simp
  · simp

@[simp] theorem shapes_gradientView (leaf : Leaf) :
    (ctx.gradientView leaf).shapes answers = [] := by
  simp only [gradientView]
  split <;> simp

@[simp] theorem shapes_sliderView (leaf : Leaf) : (ctx.sliderView leaf).shapes answers = [] := by
  simp only [sliderView]
  split <;> simp

@[simp] theorem shapes_shapeView (leaf : Leaf) : (ctx.shapeView leaf).shapes answers = [] := by
  rw [shapeView]
  rcases shapeForm leaf with error | shape <;> simp

/-! ### Layout -/

theorem shapes_containerKind (settings : ContainerSettings) :
    (ctx.containerKind settings).shapes answers = [] := by
  simp [containerKind]

theorem shapes_iterationKind (settings : ForEachSettings) :
    (ctx.iterationKind settings).shapes answers = [] := by
  simp [iterationKind]

/-- An iteration notes the place that its text stands for, if that is a place in the state. -/
theorem shapes_itemsAt (htracks : ctx.tracks = true) (text : String) :
    (ctx.itemsAt text).shapes answers = (ctx.scope.itemsAt answers text).2.toList := by
  rw [itemsAt, Scope.itemsAt]
  cases Path.ofText? text with
  | none => simp
  | some path =>
    simp only [Scope.sourcePath]
    have htracked : ∀ array, ctx.tracked [⟨array, .shape⟩] = [⟨array, .shape⟩] :=
      fun array => if_pos htracks
    rcases ctx.scope.lookup path with _ | ⟨value, _ | source⟩
    · exact congrArg Dependency.shapes (htracked path)
    · rfl
    · have hnote : (ctx.note source .shape).shapes answers = [source] :=
        congrArg Dependency.shapes (htracked source)
      simp [hnote]

end Context

theorem LeafRule.shapes_kindOf (rule : LeafRule) (ctx : Context) (leaf : Leaf)
    (answers : Path → Option Value) : (rule.kindOf ctx leaf).shapes answers = [] := by
  cases rule <;>
    simp [kindOf, Context.textView, Context.buttonView, Context.toggleView, Context.textFieldView,
      Context.dividerView, Context.customView]

/-- A leaf notes no array, whatever the rules make of it. -/
theorem LeafRules.shapes_kindOf (leaves : LeafRules) (ctx : Context) (leaf : Leaf)
    (answers : Path → Option Value) : (leaves.kindOf ctx leaf).shapes answers = [] := by
  rw [kindOf]
  rcases Fields.get? leaves.byName leaf.type with _ | rule
  · rfl
  · exact rule.shapes_kindOf ctx leaf answers

end ScreenDoc
