import ScreenDoc.Expansion.Rulebook

/-!
# Expansion is local

The expansion of a part of the layout consults the styles, the data sources and the actions of the
document. It never looks at the root, so it does not see the layout around the part.

## Main definitions

- `Context.withRoot` — a context whose document has another root

## Main results

- `LeafRules.kindOf_withRoot` — a leaf becomes the same view under any root
- `Node.expand_withRoot` — so does a node of the layout
-/

namespace ScreenDoc

namespace Context

/-- A context whose document has another root. -/
def withRoot (ctx : Context) (root : Root) : Context :=
  { ctx with document := { ctx.document with root } }

variable (ctx : Context) (root : Root)

/-! ### Values, styles and actions -/

@[simp] theorem boundTemplate_withRoot (raw : String) :
    (ctx.withRoot root).boundTemplate raw = ctx.boundTemplate raw := rfl

theorem observe_withRoot {α : Type} (reading : Reading α) :
    (ctx.withRoot root).observe reading = ctx.observe reading := rfl

@[simp] theorem boundPath_withRoot (raw : String) :
    (ctx.withRoot root).boundPath raw = ctx.boundPath raw := by
  have hscope : (ctx.withRoot root).scope = ctx.scope := rfl
  have htarget : ∀ text, (ctx.withRoot root).bindingTarget? text = ctx.bindingTarget? text :=
    fun text => rfl
  simp only [boundPath, hscope, htarget, observe_withRoot, boundTemplate_withRoot]

@[simp] theorem data_withRoot (origin : DataOrigin) :
    (ctx.withRoot root).data origin = ctx.data origin := by
  cases origin with
  | static value => rfl
  | binding path template =>
    rcases path with _ | path
    · cases template <;> rfl
    · exact ctx.boundPath_withRoot root path
  | source id =>
    have hdocument : (ctx.withRoot root).document.dataSources = ctx.document.dataSources := rfl
    simp only [data, hdocument, boundPath_withRoot]

@[simp] theorem content_withRoot (leaf : Leaf) :
    (ctx.withRoot root).content leaf = ctx.content leaf := by
  rw [content, content]
  cases leaf.data with
  | some origin => exact ctx.data_withRoot root origin
  | none => rfl

@[simp] theorem finalStyle_withRoot (id : Option String) (inline : Option StyleLayer)
    (own : OwnProperties) :
    (ctx.withRoot root).finalStyle id inline own = ctx.finalStyle id inline own := rfl

@[simp] theorem leafStyle_withRoot (leaf : Leaf) :
    (ctx.withRoot root).leafStyle leaf = ctx.leafStyle leaf := rfl

@[simp] theorem optionalStyle_withRoot (inline : Option StyleLayer) (own : OwnProperties)
    (id : Option String) :
    (ctx.withRoot root).optionalStyle inline own id = ctx.optionalStyle inline own id := by
  cases id <;> rfl

@[simp] theorem optionalText_withRoot (text : Option String) :
    (ctx.withRoot root).optionalText text = ctx.optionalText text := by
  cases text <;> rfl

@[simp] theorem boundAction?_withRoot (handler : Option Handler) :
    (ctx.withRoot root).boundAction? handler = ctx.boundAction? handler := by
  rcases handler with _ | _ | _ <;> rfl

theorem screen_withRoot (shown : Root) : (ctx.withRoot root).screen shown = ctx.screen shown := by
  have hstyle : ∀ id inline,
      (ctx.withRoot root).effectiveStyle id inline = ctx.effectiveStyle id inline :=
    fun id inline => rfl
  simp only [screen, hstyle, boundAction?_withRoot]

/-! ### Leaves -/

@[simp] theorem imageOrigin?_withRoot (leaf : Leaf) :
    (ctx.withRoot root).imageOrigin? leaf = ctx.imageOrigin? leaf := by
  rw [imageOrigin?, imageOrigin?]
  rcases leaf.property? "image" WrittenImage.ofJson? with _ | _ | _ | _ <;> rfl

@[simp] theorem selection?_withRoot (leaf : Leaf) :
    (ctx.withRoot root).selection? leaf = ctx.selection? leaf := by
  simp only [selection?, boundPath_withRoot]

@[simp] theorem controlValue_withRoot (leaf : Leaf) (fallback : Value) :
    (ctx.withRoot root).controlValue leaf fallback = ctx.controlValue leaf fallback := by
  simp only [controlValue, boundPath_withRoot, data_withRoot]

@[simp] theorem customProperties_withRoot (properties : List (String × Value)) :
    (ctx.withRoot root).customProperties properties = ctx.customProperties properties := by
  induction properties with
  | nil => rfl
  | cons property rest ih =>
    have hproperty : (ctx.withRoot root).customProperty property.2 =
        ctx.customProperty property.2 := by cases property.2 <;> rfl
    rw [customProperties, customProperties, ih, hproperty]

end Context

theorem LeafRule.kindOf_withRoot (rule : LeafRule) (ctx : Context) (root : Root) (leaf : Leaf) :
    rule.kindOf (ctx.withRoot root) leaf = rule.kindOf ctx leaf := by
  cases rule with
  | text => simp only [kindOf, Context.textView, Context.content_withRoot,
      Context.leafStyle_withRoot]
  | button => simp only [kindOf, Context.buttonView, Context.finalStyle_withRoot,
      Context.optionalStyle_withRoot, Context.selection?_withRoot, Context.content_withRoot,
      Context.imageOrigin?_withRoot, Context.boundAction?_withRoot]
  | image => simp only [kindOf, Context.imageView, Context.imageOrigin?_withRoot,
      Context.leafStyle_withRoot, Context.data_withRoot]
  | gradient => simp only [kindOf, Context.gradientView, Context.leafStyle_withRoot]
  | toggle => simp only [kindOf, Context.toggleView, Context.controlValue_withRoot,
      Context.optionalText_withRoot, Context.leafStyle_withRoot, Context.boundAction?_withRoot]
  | slider => simp only [kindOf, Context.sliderView, Context.controlValue_withRoot,
      Context.leafStyle_withRoot, Context.boundAction?_withRoot]
  | textField => simp only [kindOf, Context.textFieldView, Context.controlValue_withRoot,
      Context.leafStyle_withRoot, Context.boundAction?_withRoot]
  | shape => simp only [kindOf, Context.shapeView, Context.leafStyle_withRoot]
  | divider => simp only [kindOf, Context.dividerView, Context.leafStyle_withRoot]
  | custom => simp only [kindOf, Context.customView, Context.customProperties_withRoot,
      Context.leafStyle_withRoot]
  | fatal error => rfl

/-- A leaf becomes the same view, with the same notes, under any root. -/
theorem LeafRules.kindOf_withRoot (leaves : LeafRules) (ctx : Context) (root : Root)
    (leaf : Leaf) : leaves.kindOf (ctx.withRoot root) leaf = leaves.kindOf ctx leaf := by
  simp only [kindOf, LeafRule.kindOf_withRoot]

theorem Context.leafKind_withRoot (ctx : Context) (root : Root) (leaves : LeafRules)
    (leaf : Leaf) : (ctx.withRoot root).leafKind leaves leaf = ctx.leafKind leaves leaf := by
  simp only [leafKind, LeafRules.kindOf_withRoot]

/-! ### Nodes and sections -/

section Levels

variable (leaves : LeafRules) (root : Root)

theorem expand_withRoot (levels : Nat) :
    (∀ ctx pending slot node, Node.expand leaves levels (ctx.withRoot root) pending slot node =
        Node.expand leaves levels ctx pending slot node) ∧
      ∀ ctx s, Section.expand leaves levels (ctx.withRoot root) s =
        Section.expand leaves levels ctx s := by
  induction levels with
  | zero =>
    refine ⟨fun ctx pending slot node => ?_, fun ctx s => ?_⟩
    · rw [Node.expand, Node.expand]
      rfl
    · rw [Section.expand, Section.expand]
      rfl
  | succ levels ih =>
    obtain ⟨ihNode, ihSection⟩ := ih
    have hnodes : ∀ ctx slot, Node.expand leaves levels (Context.withRoot ctx root) [] slot =
        Node.expand leaves levels ctx [] slot := fun ctx slot => funext (ihNode ctx [] slot)
    refine ⟨fun ctx pending slot node => ?_, fun ctx s => ?_⟩
    · cases node with
      | container settings children =>
        rw [Node.expand, Node.expand, hnodes]
        rfl
      | sectionLayout id spacing sections =>
        have hsections : Section.expand leaves levels (ctx.withRoot root) =
            Section.expand leaves levels ctx := funext (ihSection ctx)
        rw [Node.expand, Node.expand, hsections]
      | forEach settings template emptyView =>
        have hpush : ∀ frame, (ctx.withRoot root).push frame = (ctx.push frame).withRoot root :=
          fun frame => rfl
        rw [Node.expand, Node.expand]
        simp only [hpush, ihNode]
        rfl
      | spacer space => rw [Node.expand, Node.expand]
      | component leaf => rw [Node.expand, Node.expand, ctx.leafKind_withRoot]
    · obtain ⟨id, settings, header, footer, stickyHeader, children⟩ := s
      rw [Section.expand, Section.expand]
      simp only [hnodes]

end Levels

/-- A node of the layout is expanded to the same views, with the same notes, under any root. -/
theorem Node.expand_withRoot (leaves : LeafRules) (levels : Nat) (ctx : Context) (root : Root)
    (pending : List Dependency) (slot : Slot) (node : Node) :
    Node.expand leaves levels (ctx.withRoot root) pending slot node =
      Node.expand leaves levels ctx pending slot node :=
  (ScreenDoc.expand_withRoot leaves root levels).1 ctx pending slot node

end ScreenDoc
