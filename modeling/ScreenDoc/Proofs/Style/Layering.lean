import ScreenDoc.Style.Chain
import ScreenDoc.Style.Final

/-!
# Layered styles

The final style of a view in terms of all layers that it is made of, the most specific first: the
properties of the view itself, the inline properties, the named style, and the ancestors of that
style. Layers are merged two at a time, from the last ancestor on. Here every property is read off
the whole list of layers at once.

## Main definitions

- `StyleTable.Ancestry` — a style and its ancestors in a table
- `uncleared` — the layers of a property with parts that count
- `FinalStyle.Layered` — what a final style takes from which layer

## Main results

- `StyleTable.ancestry_of_chain` — the chain of a style consists of the style and its ancestors
- `findSome?_uncleared` — the parts of merged layers are those of the layers that count
- `StyleTable.layered_of_chain` — a named style with inline properties comes out layer by layer

## Design notes

Laying one layer over another is not associative, since a layer without parts is lost once it has
cleared what was below it. The proofs therefore follow the order of merging: they add one more
specific layer to what all layers below it gave.
-/

namespace ScreenDoc

/-! ### Chains -/

namespace StyleTable

/-- The chain of a style goes on with the style that it inherits from, and ends with a style that
inherits from none. -/
inductive Ancestry (table : StyleTable) : String → List Style → Prop where
  /-- A style without a style below it. -/
  | root {id : String} {style : Style} (found : Fields.get? table id = some style)
      (last : style.inherits = none) : Ancestry table id [style]
  /-- A style over the chain of the style that it inherits from. -/
  | over {id parent : String} {style : Style} {chain : List Style}
      (found : Fields.get? table id = some style) (next : style.inherits = some parent)
      (rest : Ancestry table parent chain) : Ancestry table id (style :: chain)

variable {table : StyleTable}

theorem ancestry_of_chainFrom {start : String} {limit remaining : Nat} {visited : List String}
    {id : String} {chain : List Style}
    (h : table.chainFrom start limit remaining visited id = .ok chain) :
    table.Ancestry id chain := by
  induction remaining generalizing visited id chain with
  | zero =>
    rw [chainFrom] at h
    split at h <;> cases h
  | succ remaining ih =>
    rw [chainFrom] at h
    split at h
    · cases h
    · cases hstyle : Fields.get? table id with
      | none =>
        rw [hstyle] at h
        cases h
      | some style =>
        simp only [hstyle] at h
        cases hparent : style.inherits with
        | none =>
          simp only [hparent] at h
          cases h
          exact .root hstyle hparent
        | some parent =>
          simp only [hparent] at h
          cases hrest : table.chainFrom start limit remaining (id :: visited) parent with
          | error error =>
            rw [hrest] at h
            cases h
          | ok rest =>
            rw [hrest] at h
            cases h
            exact .over hstyle hparent (ih hrest)

/-- The chain of a style consists of the style and its ancestors. -/
theorem ancestry_of_chain {limit : Nat} {id : String} {chain : List Style}
    (h : table.chain limit id = .ok chain) : table.Ancestry id chain :=
  ancestry_of_chainFrom h

end StyleTable

/-! ### Properties with parts -/

/-- The layers of a property with parts that count, the most specific first: those above the first
one that clears. -/
def uncleared {α : Type} (clears : α → Bool) (layers : List α) : List α :=
  layers.takeWhile fun layer => !clears layer

section Parts

variable {α β : Type} {clears : α → Bool} {merge : α → α → α}

/-- All layers of a property with parts, merged from the last one on. -/
def mergedParts (clears : α → Bool) (merge : α → α → α) (layers : List (Option α)) : Option α :=
  layers.foldr (fun upper lower => layerParts clears merge lower upper) none

theorem mergedParts_cons (upper : Option α) (layers : List (Option α)) :
    mergedParts clears merge (upper :: layers) =
      layerParts clears merge (mergedParts clears merge layers) upper :=
  rfl

/-- The layers that count once another layer lies above them. -/
theorem uncleared_cons (upper : Option α) (layers : List (Option α)) :
    uncleared clears ((upper :: layers).filterMap id) =
      match upper with
      | none => uncleared clears (layers.filterMap id)
      | some upper =>
        if clears upper then [] else upper :: uncleared clears (layers.filterMap id) := by
  cases upper with
  | none => rfl
  | some upper =>
    by_cases h : clears upper
    · simp [uncleared, h]
    · simp [uncleared, h]

/-- Merged layers are set if some layer counts. -/
theorem isSome_mergedParts (layers : List (Option α)) :
    (mergedParts clears merge layers).isSome =
      !(uncleared clears (layers.filterMap id)).isEmpty := by
  induction layers with
  | nil => rfl
  | cons upper layers ih =>
    rw [mergedParts_cons, uncleared_cons]
    cases upper with
    | none => exact ih
    | some upper =>
      simp only [layerParts]
      by_cases h : clears upper
      · rw [if_pos h, if_pos h]
        rfl
      · rw [if_neg h, if_neg h]
        cases mergedParts clears merge layers <;> rfl

/-- A part of merged layers is that of the first layer that counts and sets it, where merging two
layers takes the part from the upper one if it sets it. -/
theorem findSome?_uncleared {part : α → Option β}
    (hpart : ∀ lower upper, part (merge lower upper) = (part upper).or (part lower))
    (layers : List (Option α)) :
    (mergedParts clears merge layers).bind part =
      (uncleared clears (layers.filterMap id)).findSome? part := by
  induction layers with
  | nil => rfl
  | cons upper layers ih =>
    rw [mergedParts_cons, uncleared_cons]
    cases upper with
    | none => exact ih
    | some upper =>
      simp only [layerParts]
      by_cases h : clears upper
      · -- Nothing counts any more, neither this layer nor what lies below it.
        rw [if_pos h, if_pos h]
        rfl
      · rw [if_neg h, if_neg h, List.findSome?_cons, ← ih]
        cases mergedParts clears merge layers with
        | none => cases hupper : part upper <;> simp [hupper]
        | some lower => rw [Option.bind_some, hpart]; cases part upper <;> rfl

end Parts

/-- Padding over other padding has the upper edge where the upper padding sets the edge or its
axis. -/
theorem Padding.topEdge_merge (lower upper : Padding) :
    (merge lower upper).topEdge = upper.topEdge.or lower.topEdge := by
  rcases upper with ⟨_ | top, _, _, _, _, _ | vertical⟩ <;> simp [merge, topEdge, layer, unlessAxis]

theorem Padding.bottomEdge_merge (lower upper : Padding) :
    (merge lower upper).bottomEdge = upper.bottomEdge.or lower.bottomEdge := by
  rcases upper with ⟨_, _ | bottom, _, _, _, _ | vertical⟩ <;>
    simp [merge, bottomEdge, layer, unlessAxis]

theorem Padding.leadingEdge_merge (lower upper : Padding) :
    (merge lower upper).leadingEdge = upper.leadingEdge.or lower.leadingEdge := by
  rcases upper with ⟨_, _, _ | leading, _, _ | horizontal, _⟩ <;>
    simp [merge, leadingEdge, layer, unlessAxis]

theorem Padding.trailingEdge_merge (lower upper : Padding) :
    (merge lower upper).trailingEdge = upper.trailingEdge.or lower.trailingEdge := by
  rcases upper with ⟨_, _, _, _ | trailing, _ | horizontal, _⟩ <;>
    simp [merge, trailingEdge, layer, unlessAxis]

/-! ### Merged layers -/

namespace StyleLayer

/-- All layers, the most specific first, merged from the last one on. -/
def mergedLayers (layers : List StyleLayer) : StyleLayer :=
  layers.foldr (fun upper lower => lower.merge upper) .unset

/-- The shadows that count among those of all layers. -/
def shadows (layers : List StyleLayer) : List Shadow :=
  uncleared Shadow.clears (layers.filterMap shadow)

/-- The padding that counts among that of all layers. -/
def paddings (layers : List StyleLayer) : List Padding :=
  uncleared Padding.clears (layers.filterMap padding)

variable (layers : List StyleLayer)

/-- A plain property of merged layers is that of the first layer that sets it. -/
theorem plain_mergedLayers {α : Type} (property : StyleLayer → Option α)
    (hunset : property .unset = none)
    (hmerge : ∀ lower upper : StyleLayer,
      property (lower.merge upper) = layer (property lower) (property upper)) :
    property (mergedLayers layers) = layers.findSome? property := by
  induction layers with
  | nil => exact hunset
  | cons upper layers ih =>
    rw [mergedLayers, List.foldr_cons, hmerge, layer, List.findSome?_cons, ← ih]
    cases property upper <;> rfl

theorem shadow_mergedLayers :
    (mergedLayers layers).shadow = mergedParts Shadow.clears Shadow.merge (layers.map shadow) := by
  induction layers with
  | nil => rfl
  | cons upper layers ih => rw [List.map_cons, mergedParts_cons, ← ih]; rfl

theorem padding_mergedLayers :
    (mergedLayers layers).padding =
      mergedParts Padding.clears Padding.merge (layers.map padding) := by
  induction layers with
  | nil => rfl
  | cons upper layers ih => rw [List.map_cons, mergedParts_cons, ← ih]; rfl

theorem shadows_eq :
    shadows layers = uncleared Shadow.clears ((layers.map shadow).filterMap id) := by
  rw [List.filterMap_map]
  rfl

theorem paddings_eq :
    paddings layers = uncleared Padding.clears ((layers.map padding).filterMap id) := by
  rw [List.filterMap_map]
  rfl

/-- There is a shadow if some shadow counts. -/
theorem isSome_shadow_mergedLayers :
    (mergedLayers layers).shadow.isSome = !(shadows layers).isEmpty := by
  rw [shadow_mergedLayers, shadows_eq, isSome_mergedParts]

/-- A part of the shadow is that of the first shadow that counts and sets it. -/
theorem shadow_part_mergedLayers {α : Type} (part : Shadow → Option α)
    (hpart : ∀ lower upper, part (Shadow.merge lower upper) = (part upper).or (part lower)) :
    (mergedLayers layers).shadow.bind part = (shadows layers).findSome? part := by
  rw [shadow_mergedLayers, shadows_eq, findSome?_uncleared hpart]

/-- An edge of the padding is that of the first padding that counts and sets it. -/
theorem padding_edge_mergedLayers {edge : Padding → Option Float}
    (hedge : ∀ lower upper, edge (Padding.merge lower upper) = (edge upper).or (edge lower)) :
    (mergedLayers layers).padding.bind edge = (paddings layers).findSome? edge := by
  rw [padding_mergedLayers, paddings_eq, findSome?_uncleared hedge]

end StyleLayer

/-! ### Final styles -/

/-- The shadow of the shadows that count: none if there are none, else every part from the first one
that sets it, or its default. -/
def FinalShadow.ofShadows? (shadows : List Shadow) : Option FinalShadow :=
  if shadows.isEmpty then none
  else some {
    color := (shadows.findSome? Shadow.color).getD "#000000"
    radius := (shadows.findSome? Shadow.radius).getD 0.0
    x := (shadows.findSome? Shadow.x).getD 0.0
    y := (shadows.findSome? Shadow.y).getD 0.0 }

/-- The insets of padding: every edge from the first padding that sets it or its axis, else zero. -/
def Insets.ofPaddings (paddings : List Padding) : Insets where
  top := (paddings.findSome? Padding.topEdge).getD 0.0
  bottom := (paddings.findSome? Padding.bottomEdge).getD 0.0
  leading := (paddings.findSome? Padding.leadingEdge).getD 0.0
  trailing := (paddings.findSome? Padding.trailingEdge).getD 0.0

/-- What a final style takes from the properties of the view and from the layers below them, the
most specific first. -/
structure FinalStyle.Layered (style : FinalStyle) (own : OwnProperties)
    (layers : List StyleLayer) : Prop where
  fontFamily : style.fontFamily = layers.findSome? StyleLayer.fontFamily
  fontSize : style.fontSize = layers.findSome? StyleLayer.fontSize
  fontWeight : style.fontWeight = layers.findSome? StyleLayer.fontWeight
  textColor : style.textColor = layers.findSome? StyleLayer.textColor
  backgroundColor : style.backgroundColor = layers.findSome? StyleLayer.backgroundColor
  tintColor : style.tintColor = layers.findSome? StyleLayer.tintColor
  opacity : style.opacity = (layers.findSome? StyleLayer.opacity).getD 1.0
  textAlignment : style.textAlignment = layers.findSome? StyleLayer.textAlignment
  cornerRadius : style.cornerRadius = (layers.findSome? StyleLayer.cornerRadius).getD 0.0
  borderWidth : style.borderWidth = (layers.findSome? StyleLayer.borderWidth).getD 0.0
  borderColor : style.borderColor = layers.findSome? StyleLayer.borderColor
  spacing : style.spacing = own.spacing.or (layers.findSome? StyleLayer.spacing)
  width : style.width = own.width.or (layers.findSome? StyleLayer.width)
  height : style.height = own.height.or (layers.findSome? StyleLayer.height)
  minWidth : style.minWidth = layers.findSome? StyleLayer.minWidth
  minHeight : style.minHeight = layers.findSome? StyleLayer.minHeight
  maxWidth : style.maxWidth = layers.findSome? StyleLayer.maxWidth
  maxHeight : style.maxHeight = layers.findSome? StyleLayer.maxHeight
  /-- The padding of the view lies above that of the layers and clears none of it. -/
  padding : style.padding = .ofPaddings (own.padding.toList ++ StyleLayer.paddings layers)
  shadow : style.shadow = FinalShadow.ofShadows? (StyleLayer.shadows layers)

/-- An edge below which lies the padding that counts. -/
theorem Insets.edge_mergedLayers {pick : Padding → Option Float} (own : Option Padding)
    (layers : List StyleLayer)
    (hpick : ∀ lower upper, pick (Padding.merge lower upper) = (pick upper).or (pick lower)) :
    edge own (StyleLayer.mergedLayers layers).padding pick =
      ((own.toList ++ StyleLayer.paddings layers).findSome? pick).getD 0.0 := by
  rw [edge, StyleLayer.padding_edge_mergedLayers layers hpick, List.findSome?_append]
  cases own with
  | none => rfl
  | some padding =>
    rw [Option.bind_some, Option.toList_some, List.findSome?_singleton]

theorem Insets.ofPadding_mergedLayers (own : Option Padding) (layers : List StyleLayer) :
    ofPadding own (StyleLayer.mergedLayers layers).padding =
      ofPaddings (own.toList ++ StyleLayer.paddings layers) := by
  rw [ofPadding, ofPaddings, edge_mergedLayers own layers Padding.topEdge_merge,
    edge_mergedLayers own layers Padding.bottomEdge_merge,
    edge_mergedLayers own layers Padding.leadingEdge_merge,
    edge_mergedLayers own layers Padding.trailingEdge_merge]

theorem FinalShadow.ofShadow_mergedLayers (layers : List StyleLayer) :
    (StyleLayer.mergedLayers layers).shadow.map ofShadow =
      ofShadows? (StyleLayer.shadows layers) := by
  have hset := StyleLayer.isSome_shadow_mergedLayers layers
  have hcolor := StyleLayer.shadow_part_mergedLayers layers Shadow.color fun _ _ => rfl
  have hradius := StyleLayer.shadow_part_mergedLayers layers Shadow.radius fun _ _ => rfl
  have hx := StyleLayer.shadow_part_mergedLayers layers Shadow.x fun _ _ => rfl
  have hy := StyleLayer.shadow_part_mergedLayers layers Shadow.y fun _ _ => rfl
  rw [ofShadows?, ← hcolor, ← hradius, ← hx, ← hy]
  -- The parts are right in both cases, so that only the presence of a shadow is left.
  cases hshadow : (StyleLayer.mergedLayers layers).shadow with
  | none =>
    rw [hshadow] at hset
    rw [if_pos (by simpa using hset.symm)]
    rfl
  | some shadow =>
    rw [hshadow] at hset
    rw [if_neg (by simpa using hset.symm)]
    rfl

open StyleLayer (plain_mergedLayers) in
/-- The final style of merged layers comes out layer by layer. -/
theorem FinalStyle.layered_ofLayer (own : OwnProperties) (layers : List StyleLayer) :
    (FinalStyle.ofLayer (StyleLayer.mergedLayers layers) own).Layered own layers where
  fontFamily := plain_mergedLayers layers StyleLayer.fontFamily rfl fun _ _ => rfl
  fontSize := plain_mergedLayers layers StyleLayer.fontSize rfl fun _ _ => rfl
  fontWeight := plain_mergedLayers layers StyleLayer.fontWeight rfl fun _ _ => rfl
  textColor := plain_mergedLayers layers StyleLayer.textColor rfl fun _ _ => rfl
  backgroundColor := plain_mergedLayers layers StyleLayer.backgroundColor rfl fun _ _ => rfl
  tintColor := plain_mergedLayers layers StyleLayer.tintColor rfl fun _ _ => rfl
  opacity :=
    congrArg (·.getD 1.0) (plain_mergedLayers layers StyleLayer.opacity rfl fun _ _ => rfl)
  textAlignment := plain_mergedLayers layers StyleLayer.textAlignment rfl fun _ _ => rfl
  cornerRadius :=
    congrArg (·.getD 0.0) (plain_mergedLayers layers StyleLayer.cornerRadius rfl fun _ _ => rfl)
  borderWidth :=
    congrArg (·.getD 0.0) (plain_mergedLayers layers StyleLayer.borderWidth rfl fun _ _ => rfl)
  borderColor := plain_mergedLayers layers StyleLayer.borderColor rfl fun _ _ => rfl
  spacing :=
    congrArg own.spacing.or (plain_mergedLayers layers StyleLayer.spacing rfl fun _ _ => rfl)
  width := congrArg own.width.or (plain_mergedLayers layers StyleLayer.width rfl fun _ _ => rfl)
  height := congrArg own.height.or (plain_mergedLayers layers StyleLayer.height rfl fun _ _ => rfl)
  minWidth := plain_mergedLayers layers StyleLayer.minWidth rfl fun _ _ => rfl
  minHeight := plain_mergedLayers layers StyleLayer.minHeight rfl fun _ _ => rfl
  maxWidth := plain_mergedLayers layers StyleLayer.maxWidth rfl fun _ _ => rfl
  maxHeight := plain_mergedLayers layers StyleLayer.maxHeight rfl fun _ _ => rfl
  padding := Insets.ofPadding_mergedLayers own.padding layers
  shadow := FinalShadow.ofShadow_mergedLayers layers

/-! ### Named styles -/

namespace StyleTable

theorem merged_eq_mergedLayers (chain : List Style) :
    merged chain = StyleLayer.mergedLayers (chain.map Style.properties) := by
  rw [merged, List.foldl_reverse, StyleLayer.mergedLayers, List.foldr_map]

/-- Inline properties over the chain of a style are one more layer. -/
theorem effective_eq_mergedLayers {table : StyleTable} {limit : Nat} {id : String}
    {chain : List Style} (inline : Option StyleLayer) (h : table.chain limit id = .ok chain) :
    table.effective limit (some id) inline =
      .ok (StyleLayer.mergedLayers (inline.toList ++ chain.map Style.properties)) := by
  simp only [effective, h, Except.map, merged_eq_mergedLayers]
  cases inline <;> rfl

/-- A named style with inline properties, under the properties of a view, comes out layer by layer:
the inline properties, the style and its ancestors. -/
theorem layered_of_chain {table : StyleTable} {limit : Nat} {id : String} {chain : List Style}
    (inline : Option StyleLayer) (own : OwnProperties) (h : table.chain limit id = .ok chain) :
    table.Ancestry id chain ∧
      ∃ style, table.effective limit (some id) inline = .ok style ∧
        (FinalStyle.ofLayer style own).Layered own
          (inline.toList ++ chain.map Style.properties) :=
  ⟨ancestry_of_chain h, _, effective_eq_mergedLayers inline h,
    FinalStyle.layered_ofLayer own _⟩

/-- A badge on a card: the card clears the shadow of the style below it, and sets the vertical
padding anew. -/
def badges : StyleTable :=
  [("badge", ⟨some "card", { StyleLayer.unset with
      shadow := some { Shadow.unset with color := some "#112233" }
      padding := some { Padding.unset with leading := some 4.0 } }⟩),
    ("base", ⟨none, { StyleLayer.unset with
      shadow := some { Shadow.unset with radius := some 8.0 }
      padding := some { Padding.unset with top := some 1.0, horizontal := some 2.0 } }⟩),
    ("card", ⟨some "base", { StyleLayer.unset with
      shadow := some Shadow.unset
      padding := some { Padding.unset with vertical := some 3.0 } }⟩)]

/-- The styles of a badge. -/
def badgeChain : List Style :=
  ["badge", "card", "base"].filterMap (Fields.get? badges)

theorem layered_of_chain_badges :
    badges.chain defaultMaxDepth "badge" = .ok badgeChain ∧
      badges.Ancestry "badge" badgeChain ∧
      ∃ style, badges.effective defaultMaxDepth (some "badge") none = .ok style ∧
        (FinalStyle.ofLayer style .none).Layered .none (badgeChain.map Style.properties) ∧
        (FinalStyle.ofLayer style .none).shadow = some ⟨"#112233", 0.0, 0.0, 0.0⟩ ∧
        (FinalStyle.ofLayer style .none).padding = ⟨3.0, 3.0, 4.0, 2.0⟩ := by
  have hchain : badges.chain defaultMaxDepth "badge" = .ok badgeChain := by rfl
  obtain ⟨hancestry, style, hstyle, hlayered⟩ := layered_of_chain none .none hchain
  exact ⟨hchain, hancestry, style, hstyle, hlayered, hlayered.shadow, hlayered.padding⟩

end StyleTable

end ScreenDoc
