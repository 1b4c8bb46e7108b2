import ScreenDoc.Expansion.Context

/-!
# Broken chains

A named style whose chain is broken has no properties. The problem is noted, and the inline
properties take the place of the style. They are taken as they are then, whereas without a named
style they are laid over a style that sets nothing. That makes a difference for the properties that
clear what lies below them: nothing is left of them once they are laid over something.

## Main results

- `layerParts_none` — parts over nothing
- `FinalStyle.ofLayer_unset_merge` — a style over nothing differs from the style itself in its shadow
- `Context.finalStyle_of_error` — what becomes of a view with a broken chain
-/

namespace ScreenDoc

/-! ### Styles over nothing -/

/-- Parts over nothing are the parts themselves, unless they clear. -/
theorem layerParts_none {α : Type} (clears : α → Bool) (merge : α → α → α) (upper : Option α) :
    layerParts clears merge none upper = upper.filter fun parts => !clears parts := by
  cases upper with
  | none => rfl
  | some parts => cases h : clears parts <;> simp [layerParts, Option.filter, h]

/-- Padding that clears has no edges. -/
theorem Padding.edges_of_clears {padding : Padding} (h : padding.clears) :
    padding.topEdge = none ∧ padding.bottomEdge = none ∧ padding.leadingEdge = none ∧
      padding.trailingEdge = none := by
  simp only [clears, Bool.and_eq_true, Option.isNone_iff_eq_none] at h
  obtain ⟨⟨⟨⟨⟨htop, hbottom⟩, hleading⟩, htrailing⟩, hhorizontal⟩, hvertical⟩ := h
  simp [topEdge, bottomEdge, leadingEdge, trailingEdge, htop, hbottom, hleading, htrailing,
    hhorizontal, hvertical]

/-- Padding that clears counts as much as none. -/
theorem Insets.ofPadding_filter (view style : Option Padding) :
    ofPadding view (style.filter fun padding => !padding.clears) = ofPadding view style := by
  cases style with
  | none => rfl
  | some padding =>
    cases h : padding.clears with
    | false => simp [Option.filter, h]
    | true =>
      obtain ⟨htop, hbottom, hleading, htrailing⟩ := padding.edges_of_clears h
      simp [ofPadding, edge, Option.filter, h, htop, hbottom, hleading, htrailing]

theorem StyleLayer.unset_merge (upper : StyleLayer) :
    unset.merge upper = { upper with
      padding := upper.padding.filter fun padding => !padding.clears
      shadow := upper.shadow.filter fun shadow => !shadow.clears } := by
  simp [merge, unset, layer, layerParts_none]

theorem StyleTable.effective_none (table : StyleTable) (limit : Nat) (inline : Option StyleLayer) :
    table.effective limit none inline = .ok (StyleLayer.unset.merge (inline.getD .unset)) := by
  cases inline <;> rfl

namespace FinalStyle

/-- A final style with another shadow. -/
def withShadow (style : FinalStyle) (shadow : Option FinalShadow) : FinalStyle :=
  { style with shadow }

theorem withShadow_eq_self_iff {style : FinalStyle} {shadow : Option FinalShadow} :
    style.withShadow shadow = style ↔ shadow = style.shadow := by
  constructor
  · intro h
    exact congrArg FinalStyle.shadow h
  · rintro rfl
    rfl

/-- A style over nothing comes out as it is, but for a shadow that clears. -/
theorem ofLayer_unset_merge (style : StyleLayer) (view : OwnProperties) :
    ofLayer (StyleLayer.unset.merge style) view = (ofLayer style view).withShadow
      ((style.shadow.filter fun shadow => !shadow.clears).map FinalShadow.ofShadow) := by
  rw [StyleLayer.unset_merge, ofLayer, Insets.ofPadding_filter]
  rfl

end FinalStyle

/-! ### Views with a broken chain -/

namespace Context

variable {ctx : Context} {id : String} {error : StyleError}

/-- A broken chain is noted once, and leaves the final style that the view has without a named style,
but for a shadow without parts. That is a shadow then, and no shadow without a named style. So the
two final styles are the same if and only if the inline properties have no such shadow. -/
theorem finalStyle_of_error
    (h : ctx.document.styles.chain ctx.limits.styles id = .error error)
    (inline : Option StyleLayer) (own : OwnProperties) (answers : Path → Option Value) :
    ∃ style, (ctx.finalStyle none inline own).outcome answers = ⟨style, [], []⟩ ∧
      (ctx.finalStyle (some id) inline own).outcome answers =
        ⟨style.withShadow ((inline.bind StyleLayer.shadow).map FinalShadow.ofShadow), [],
          [.ofStyle error]⟩ ∧
      (style.withShadow ((inline.bind StyleLayer.shadow).map FinalShadow.ofShadow) = style ↔
        ∀ shadow ∈ inline.bind StyleLayer.shadow, shadow.clears = false) := by
  have hshadow : inline.bind StyleLayer.shadow = (inline.getD .unset).shadow := by
    cases inline <;> rfl
  have hbroken : ctx.document.styles.effective ctx.limits.styles (some id) inline =
      .error error := by
    simp only [StyleTable.effective, h]
    rfl
  have hnone : (ctx.finalStyle none inline own).outcome answers =
      ⟨.ofLayer (StyleLayer.unset.merge (inline.getD .unset)) own, [], []⟩ := by
    rw [finalStyle, effectiveStyle, StyleTable.effective_none]
    rfl
  have hsome : (ctx.finalStyle (some id) inline own).outcome answers =
      ⟨.ofLayer (inline.getD .unset) own, [], [.ofStyle error]⟩ := by
    rw [finalStyle, effectiveStyle, hbroken]
    rfl
  rw [FinalStyle.ofLayer_unset_merge] at hnone
  rw [hshadow]
  refine ⟨_, hnone, hsome, ?_⟩
  rw [FinalStyle.withShadow_eq_self_iff]
  show _ = ((inline.getD .unset).shadow.filter fun shadow => !shadow.clears).map _ ↔ _
  cases (inline.getD .unset).shadow with
  | none => simp
  | some shadow => cases hclears : shadow.clears <;> simp [Option.filter, hclears]

/-- Two styles that inherit from each other. -/
def looping : Context :=
  .ofDocument ⟨"looping", none, [], [("lower", ⟨some "upper", .unset⟩),
      ("upper", ⟨some "lower", .unset⟩)], [], [],
      ⟨none, none, none, none, none, ⟨none, none⟩, []⟩⟩ .standard true .builtin

/-- Padding without parts, and a shadow with one. -/
def blurred : StyleLayer :=
  { StyleLayer.unset with
    padding := some .unset
    shadow := some { Shadow.unset with radius := some 4.0 } }

/-- Padding without parts makes no difference, nor does a shadow that has one. -/
theorem finalStyle_of_error_cycle :
    looping.document.styles.chain looping.limits.styles "upper" = .error (.cycle "upper") ∧
      ∃ style, (looping.finalStyle none (some blurred) .none).outcome (fun _ => none) =
          ⟨style, [], []⟩ ∧
        (looping.finalStyle (some "upper") (some blurred) .none).outcome (fun _ => none) =
          ⟨style, [], [.style (.cycle "upper")]⟩ := by
  have hchain : looping.document.styles.chain looping.limits.styles "upper" =
      .error (.cycle "upper") := by rfl
  have hparts : ∀ shadow ∈ (some blurred).bind StyleLayer.shadow, shadow.clears = false := by
    rintro shadow ⟨⟩
    rfl
  obtain ⟨style, hnone, hsome, hiff⟩ :=
    finalStyle_of_error hchain (some blurred) .none fun _ => none
  rw [hiff.mpr hparts] at hsome
  exact ⟨hchain, style, hnone, hsome⟩

/-- A shadow without parts is one after all if the chain is broken. -/
theorem not_finalStyle_of_error_cleared :
    ¬ ∀ (ctx : Context) (id : String) (error : StyleError),
      ctx.document.styles.chain ctx.limits.styles id = .error error →
        ∀ (inline : Option StyleLayer) (own : OwnProperties) (answers : Path → Option Value),
          (ctx.finalStyle (some id) inline own).outcome answers =
            ⟨((ctx.finalStyle none inline own).outcome answers).result, [], [.ofStyle error]⟩ := by
  intro h
  have heq := h looping "nope" (.unknown "nope") rfl
    (some { StyleLayer.unset with shadow := some .unset }) .none fun _ => none
  have hshadow := congrArg (fun noted => noted.result.shadow.isSome) heq
  revert hshadow
  decide

end Context

end ScreenDoc
