import ScreenDoc.Proofs.View.Held

/-!
# Views with their values replaced

A view is its frame, the properties that the host draws, and its bound values. So a refresh is the
replacement of every value that it reaches by that value refreshed on its own. It would be the
replacement of all values if it did not leave out the overlooked ones.

## Main definitions

- `ViewKind.mapEach` — a view with its values replaced, those that a refresh reaches by one function
  and the overlooked ones by another
- `ViewKind.mapHeld` — a view with all its values replaced by one function
- `ViewKind.RefreshesHeld` — a refresh brings every value of a view up to date and says so

## Main results

- `ViewKind.eq_mapEach_iff` — a replacement of values changes the values and nothing else
- `ViewKind.refresh_eq` — a refresh replaces the values that it reaches
- `ViewKind.refreshesHeld_iff` — which views are up to date after a refresh

## Design notes

A value that holds a NaN differs from itself. It counts as changed by each refresh, also where the
refresh leaves it as it was. So that an overlooked value is left as it was does not say that it
would not have counted as changed.
-/

namespace ScreenDoc

/-- An image source with another address. -/
def ImageOrigin.mapAddress (f : Bound → Bound) : ImageOrigin → ImageOrigin
  | .url address => .url (f address)
  | source => source

namespace ImageOrigin

theorem bounds_mapAddress (f : Bound → Bound) (source : ImageOrigin) :
    (source.mapAddress f).bounds = source.bounds.map f := by
  cases source <;> rfl

theorem frame_mapAddress (f : Bound → Bound) (source : ImageOrigin) :
    (source.mapAddress f).frame = source.frame := by
  cases source <;> rfl

theorem mapAddress_id (source : ImageOrigin) : source.mapAddress id = source := by
  cases source <;> rfl

/-- An image source is its frame and its address. -/
theorem eq_of_frame_eq {a b : ImageOrigin} (hframe : a.frame = b.frame)
    (hbounds : a.bounds = b.bounds) : a = b := by
  cases a <;> cases b <;> simp_all [frame, bounds]

theorem refresh_eq (store : Store) (source : ImageOrigin) :
    source.refresh store =
      (source.mapAddress fun bound => (bound.refresh store).1,
        source.bounds.any fun bound => (bound.refresh store).2) := by
  cases source with
  | url address =>
    simp only [refresh, mapAddress, bounds, List.any_cons, List.any_nil, Bool.or_false]
  | _ => rfl

end ImageOrigin

theorem Bound.refresh?_eq (store : Store) (bound? : Option Bound) :
    Bound.refresh? store bound? =
      (bound?.map fun bound => (bound.refresh store).1,
        bound?.toList.any fun bound => (bound.refresh store).2) := by
  cases bound? with
  | none => rfl
  | some bound =>
    simp only [refresh?, Option.map_some, Option.toList_some, List.any_cons, List.any_nil,
      Bool.or_false]

namespace ViewKind

/-- A view with its values replaced, the overlooked ones on their own. -/
def mapEach (reached overlooked : Bound → Bound) : ViewKind → ViewKind
  | .text view => .text { view with content := reached view.content }
  | .button view => .button { view with
      label := reached view.label
      isSelected := view.isSelected.map reached
      image := view.image.map (ImageOrigin.mapAddress overlooked) }
  | .image view => .image { view with source := view.source.mapAddress reached }
  | .toggle view => .toggle { view with
      isOn := reached view.isOn
      label := view.label.map reached }
  | .slider view => .slider { view with value := reached view.value }
  | .textField view => .textField { view with text := reached view.text }
  | kind => kind

/-- A view with all its values replaced. -/
def mapHeld (f : Bound → Bound) : ViewKind → ViewKind :=
  mapEach f f

/-- A refresh replaces every value of a view by what a refresh of it alone gives, keeps all else,
and says that the view changed exactly if one of its values did. -/
def RefreshesHeld (store : Store) (kind : ViewKind) : Prop :=
  (kind.refresh store).1 = kind.mapHeld (fun bound => (bound.refresh store).1) ∧
    ((kind.refresh store).2 = true ↔ ∃ bound ∈ kind.held, (bound.refresh store).2 = true)

section Replaced

variable (f g : Bound → Bound) (kind : ViewKind)

theorem bounds_mapEach : (kind.mapEach f g).bounds = kind.bounds.map f := by
  cases kind with
  | button view => cases h : view.isSelected <;> simp [mapEach, bounds, h]
  | toggle view => cases h : view.label <;> simp [mapEach, bounds, h]
  | image view => exact ImageOrigin.bounds_mapAddress f view.source
  | _ => rfl

theorem overlooked_mapEach : (kind.mapEach f g).overlooked = kind.overlooked.map g := by
  cases kind with
  | button view =>
    cases h : view.image <;> simp [mapEach, overlooked, ImageOrigin.bounds_mapAddress, h]
  | _ => rfl

theorem properties_mapEach : (kind.mapEach f g).properties = kind.properties := by
  cases kind <;> rfl

theorem frame_mapEach : (kind.mapEach f g).frame = kind.frame := by
  cases kind with
  | button view =>
    have himage : (ImageOrigin.frame ∘ ImageOrigin.mapAddress g) = ImageOrigin.frame :=
      funext fun source => ImageOrigin.frame_mapAddress g source
    simp only [mapEach, frame, Option.map_map, himage]
    rfl
  | image view => simp only [mapEach, frame, ImageOrigin.frame_mapAddress]
  | toggle view =>
    simp only [mapEach, frame, Option.map_map]
    rfl
  | _ => rfl

end Replaced

/-! ### What a view is made of -/

private theorem eq_of_toList_eq {α : Type} {a b : Option α} (h : a.toList = b.toList) : a = b := by
  cases a <;> cases b <;> simp_all

/-- An image that may be missing is its frame and its address. -/
private theorem image_eq_of_frame_eq {a b : Option ImageOrigin}
    (hframe : a.map ImageOrigin.frame = b.map ImageOrigin.frame)
    (hbounds : a.toList.flatMap ImageOrigin.bounds = b.toList.flatMap ImageOrigin.bounds) :
    a = b := by
  cases a <;> cases b
  case some.some a b =>
    rw [ImageOrigin.eq_of_frame_eq (Option.some.inj hframe) (by simpa using hbounds)]
  all_goals simp_all

/-- A view is its frame, its properties and its values. -/
theorem eq_of_frame_eq {a b : ViewKind} (hframe : a.frame = b.frame)
    (hproperties : a.properties = b.properties) (hbounds : a.bounds = b.bounds)
    (hoverlooked : a.overlooked = b.overlooked) : a = b := by
  cases a <;> cases b <;> simp only [frame, reduceCtorEq] at hframe
  case text.text a b =>
    cases a; cases b
    simp_all [bounds]
  case button.button a b =>
    cases a; cases b
    simp only [button.injEq, ButtonView.mk.injEq, bounds, List.cons.injEq, true_and]
      at hframe hbounds ⊢
    exact ⟨hbounds.1, hframe.1, hframe.2.1, hframe.2.2.1, eq_of_toList_eq hbounds.2,
      image_eq_of_frame_eq hframe.2.2.2.2.1 hoverlooked, hframe.2.2.2.2.2⟩
  case image.image a b =>
    cases a; cases b
    simp only [image.injEq, ImageView.mk.injEq] at hframe ⊢
    exact ⟨ImageOrigin.eq_of_frame_eq hframe.1 hbounds, hframe.2⟩
  case toggle.toggle a b =>
    cases a; cases b
    simp only [toggle.injEq, ToggleView.mk.injEq, bounds, List.cons.injEq, true_and]
      at hframe hbounds ⊢
    exact ⟨eq_of_toList_eq hbounds.2, hbounds.1, hframe.2⟩
  case slider.slider a b =>
    cases a; cases b
    simp_all [bounds]
  case textField.textField a b =>
    cases a; cases b
    simp_all [bounds]
  case custom.custom a b =>
    cases a; cases b
    simp_all [properties]
  all_goals exact hframe

/-- A view with its values replaced is the view that has the new values and all else as before. -/
theorem eq_mapEach_iff {f g : Bound → Bound} {kind other : ViewKind} :
    other = kind.mapEach f g ↔
      other.bounds = kind.bounds.map f ∧ other.overlooked = kind.overlooked.map g ∧
        other.frame = kind.frame ∧ other.properties = kind.properties := by
  constructor
  · rintro rfl
    exact ⟨bounds_mapEach f g kind, overlooked_mapEach f g kind, frame_mapEach f g kind,
      properties_mapEach f g kind⟩
  · rintro ⟨hbounds, hoverlooked, hframe, hproperties⟩
    apply eq_of_frame_eq
    · rw [hframe, frame_mapEach]
    · rw [hproperties, properties_mapEach]
    · rw [hbounds, bounds_mapEach]
    · rw [hoverlooked, overlooked_mapEach]

/-- Whether the overlooked values are replaced shows in these values. -/
theorem mapEach_eq_mapEach_iff {f g g' : Bound → Bound} {kind : ViewKind} :
    kind.mapEach f g = kind.mapEach f g' ↔ ∀ bound ∈ kind.overlooked, g bound = g' bound := by
  rw [eq_mapEach_iff, overlooked_mapEach, List.map_inj_left]
  exact ⟨fun h => h.2.1, fun h => ⟨bounds_mapEach f g kind, h, frame_mapEach f g kind,
    properties_mapEach f g kind⟩⟩

/-! ### The refresh of a view -/

/-- A refresh replaces the values that it reaches, and tells whether one of these changed. -/
theorem refresh_eq (store : Store) (kind : ViewKind) :
    kind.refresh store =
      (kind.mapEach (fun bound => (bound.refresh store).1) id,
        kind.bounds.any fun bound => (bound.refresh store).2) := by
  cases kind with
  | button view =>
    have himage : view.image.map (ImageOrigin.mapAddress id) = view.image := by
      rw [show ImageOrigin.mapAddress id = id from funext ImageOrigin.mapAddress_id, Option.map_id,
        id_eq]
    simp only [refresh, mapEach, bounds, Bound.refresh?_eq, himage, List.any_cons]
  | toggle view => simp only [refresh, mapEach, bounds, Bound.refresh?_eq, List.any_cons]
  | image view => simp only [refresh, mapEach, bounds, ImageOrigin.refresh_eq]
  | text | slider | textField =>
    simp only [refresh, mapEach, bounds, List.any_cons, List.any_nil, Bool.or_false]
  | _ => rfl

/-- A refresh brings the values up to date that it reaches, says whether one of them changed, and
leaves all else as it is. So the view is up to date with all its values exactly if each overlooked
value is what a refresh of it alone gives, and would count as changed only where a value does that
was reached. -/
theorem refreshesHeld_iff (store : Store) (kind : ViewKind) :
    ((kind.refresh store).1.bounds = kind.bounds.map (fun bound => (bound.refresh store).1) ∧
      (kind.refresh store).1.overlooked = kind.overlooked ∧
      (kind.refresh store).1.frame = kind.frame ∧
      (kind.refresh store).1.properties = kind.properties ∧
      ((kind.refresh store).2 = true ↔ ∃ bound ∈ kind.bounds, (bound.refresh store).2 = true)) ∧
    (kind.RefreshesHeld store ↔ ∀ bound ∈ kind.overlooked, (bound.refresh store).1 = bound ∧
      ((bound.refresh store).2 = true →
        ∃ reached ∈ kind.bounds, (reached.refresh store).2 = true)) := by
  have hchanged : (kind.refresh store).2 = true ↔
      ∃ bound ∈ kind.bounds, (bound.refresh store).2 = true := by
    rw [refresh_eq, List.any_eq_true]
  refine ⟨⟨bounds_refresh store kind, overlooked_refresh store kind, frame_refresh store kind,
    properties_refresh store kind, hchanged⟩, ?_⟩
  have hvalues : (kind.refresh store).1 = kind.mapHeld (fun bound => (bound.refresh store).1) ↔
      ∀ bound ∈ kind.overlooked, (bound.refresh store).1 = bound := by
    rw [refresh_eq, mapHeld, mapEach_eq_mapEach_iff]
    exact forall₂_congr fun bound _ => eq_comm
  rw [RefreshesHeld, hvalues, hchanged]
  simp only [held, List.mem_append, or_and_right, exists_or, iff_self_or, forall_exists_index,
    and_imp, forall_and]

/-- A button with an image, of which the address follows the state. -/
def pictureButton : ViewKind :=
  .button ⟨.literal (.string ""), .plain, none, none, none,
    some (.url (.template "${pic}" "a.png" .empty)), none⟩

/-- The image of a button goes on to be the one that was shown when the tree was made. -/
theorem not_refreshesHeld_pictureButton :
    ¬ pictureButton.RefreshesHeld (Store.ofValues [("pic", .string "b.png")]) := by
  rintro ⟨hvalues, -⟩
  have haddress := congrArg (fun kind => kind.overlooked.map Bound.text) hvalues
  revert haddress
  decide +kernel

end ViewKind

end ScreenDoc
