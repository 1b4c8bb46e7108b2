import ScreenDoc.Proofs.Store.Subscription
import ScreenDoc.Proofs.Store.Write
import ScreenDoc.Proofs.Value.Held

/-!
# Writing the fields of an object

The fields of an object are written to the top level of the state one after the other, and only
those that differ. Since no two of them have the same name, no write concerns what another one finds
or leaves, and all of it can be read off the state before.

## Main definitions

- `Store.changesBy` — the changes that writing some fields makes
- `Store.Merges` — a state after some fields were written to another one

## Main results

- `Store.setFields_eq` — writing fields in order makes these changes and ends in such a state
- `Store.respond_setAll` — the same of the command
-/

namespace ScreenDoc

@[simp] theorem Path.text_ofKey (name : String) : (ofKey name).text = name := by
  show name ++ "" = name
  exact String.append_empty

namespace Store

/-- The changes that writing some fields makes, one for each field that differs. -/
def changesBy (store : Store) (fields : List (String × Value)) : List Change :=
  (fields.filter fun field => store.differsAt field.1 field.2).map fun field =>
    ⟨field.1, Fields.get? store.values field.1, field.2⟩

/-- A state after some fields were written to another one. -/
structure Merges (store : Store) (fields : List (String × Value)) (last : Store) : Prop where
  field : ∀ field ∈ fields, Fields.get? last.values field.1 =
    if store.differsAt field.1 field.2 then some field.2 else Fields.get? store.values field.1
  /-- Other names stay as they are. -/
  other : ∀ name, (∀ field ∈ fields, field.1 ≠ name) →
    Fields.get? last.values name = Fields.get? store.values name
  subscribers : last.subscribers = store.subscribers
  nextSubscription : last.nextSubscription = store.nextSubscription

variable {store next last : Store} {fields : List (String × Value)} {name : String} {value : Value}

@[simp] theorem get?_ofKey (store : Store) (name : String) :
    store.get? (Path.ofKey name) = Fields.get? store.values name := by
  show (Fields.get? store.values name).bind (Value.lookup · []) = _
  cases Fields.get? store.values name with
  | none => rfl
  | some value => exact Value.lookup_nil value

/-- What a state holds under a name decides whether it differs there. -/
theorem differsAt_congr (h : Fields.get? store.values name = Fields.get? next.values name) :
    store.differsAt name value = next.differsAt name value := by
  rw [differsAt, differsAt, h]

/-- A write at a top-level name. -/
theorem set_ofKey (store : Store) (name : String) (value : Value) :
    store.set (Path.ofKey name) value =
      .ok ⟨(), { store with values := Fields.insert store.values name value },
        [⟨name, Fields.get? store.values name, value⟩]⟩ := by
  have hset : store.set (Path.ofKey name) value =
      .ok ⟨(), { store with values := Fields.insert store.values name value },
        [⟨(Path.ofKey name).text, store.get? (Path.ofKey name), value⟩]⟩ := rfl
  rw [hset, Path.text_ofKey, get?_ofKey]

/-- Fields of other names differ as they did, and are changed from what they were. -/
theorem changesBy_congr
    (h : ∀ field ∈ fields, Fields.get? next.values field.1 = Fields.get? store.values field.1) :
    next.changesBy fields = store.changesBy fields := by
  have hfilter : (fields.filter fun field => next.differsAt field.1 field.2) =
      fields.filter fun field => store.differsAt field.1 field.2 :=
    List.filter_congr fun field hfield => differsAt_congr (h field hfield)
  rw [changesBy, changesBy, hfilter]
  apply List.map_congr_left
  intro field hfield
  rw [h field (List.mem_filter.mp hfield).1]

/-- One more field in front of those that are written. -/
theorem Merges.cons (hvalue : Fields.get? next.values name =
      if store.differsAt name value then some value else Fields.get? store.values name)
    (hsame : ∀ other, other ≠ name → Fields.get? next.values other = Fields.get? store.values other)
    (hsubscribers : next.subscribers = store.subscribers)
    (hnext : next.nextSubscription = store.nextSubscription)
    (hnew : ∀ field ∈ fields, field.1 ≠ name) (hrest : next.Merges fields last) :
    store.Merges ((name, value) :: fields) last where
  field field hfield := by
    rcases List.mem_cons.mp hfield with rfl | hfield
    · rw [hrest.other name hnew, hvalue]
    · have hget := hsame field.1 (hnew field hfield)
      rw [hrest.field field hfield, differsAt_congr hget, hget]
  other other hother := by
    have hne : name ≠ other := hother (name, value) List.mem_cons_self
    rw [hrest.other other fun field hfield => hother field (List.mem_cons_of_mem _ hfield),
      hsame other hne.symm]
  subscribers := hrest.subscribers.trans hsubscribers
  nextSubscription := hrest.nextSubscription.trans hnext

/-- Writing fields in order makes one change for each field that differs. -/
theorem setFields_eq (hsorted : Fields.Sorted fields) (store : Store) :
    ∃ last, store.setFields fields = .ok ⟨(), last, store.changesBy fields⟩ ∧
      store.Merges fields last := by
  induction fields generalizing store with
  | nil =>
    exact ⟨store, rfl, fun field hfield => absurd hfield List.not_mem_nil, fun _ _ => rfl, rfl, rfl⟩
  | cons first rest ih =>
    obtain ⟨name, value⟩ := first
    obtain ⟨hfirst, hrest⟩ := List.pairwise_cons.mp hsorted
    have hnew : ∀ field ∈ rest, field.1 ≠ name := by
      intro field hfield heq
      exact String.lt_irrefl name (heq ▸ hfirst field hfield)
    rw [setFields, changesBy, List.filter_cons]
    by_cases hdiffers : store.differsAt name value = true
    · rw [if_pos hdiffers, if_pos hdiffers, set_ofKey]
      let next : Store := { store with values := Fields.insert store.values name value }
      have hsame : ∀ other, other ≠ name →
          Fields.get? next.values other = Fields.get? store.values other := by
        intro other hother
        rw [Fields.get?_insert, if_neg hother.symm]
      obtain ⟨last, hset, hmerges⟩ := ih hrest next
      refine ⟨last, ?_, hmerges.cons ?_ hsame rfl rfl hnew⟩
      · have hchanges : next.changesBy rest = store.changesBy rest :=
          changesBy_congr fun field hfield => hsame field.1 (hnew field hfield)
        show (next.setFields rest).bind _ = _
        rw [hset, hchanges]
        rfl
      · rw [if_pos hdiffers, Fields.get?_insert, if_pos rfl]
    · rw [if_neg hdiffers, if_neg hdiffers]
      obtain ⟨last, hset, hmerges⟩ := ih hrest store
      exact ⟨last, hset, hmerges.cons (if_neg hdiffers).symm (fun _ _ => rfl) rfl rfl hnew⟩

/-- What comes of writing an object to the state. -/
theorem respond_setAll (store : Store) (hvalue : value.finite = .object fields)
    (hsorted : Fields.Sorted fields) :
    ∃ last, store.Merges fields last ∧
      store.respond (.setAll value) =
        ⟨store, .setAll value, .done, store.deliveries (store.changesBy fields), last⟩ := by
  obtain ⟨last, hset, hmerges⟩ := setFields_eq hsorted store
  refine ⟨last, hmerges, ?_⟩
  have houtcome : store.outcome (.setAll value) =
      .ok ⟨.done, last, store.changesBy fields⟩ := by
    rw [outcome, setAll, hvalue]
    dsimp only
    rw [hset]
    rfl
  rw [respond, houtcome]

/-- What is told of written fields are the fields that differ, to everyone. -/
theorem mem_deliveries_changesBy {delivery : Nat × Change} :
    delivery ∈ store.deliveries (store.changesBy fields) ↔
      delivery.1 ∈ store.subscribers ∧ ∃ field ∈ fields, store.differsAt field.1 field.2 ∧
        delivery.2 = ⟨field.1, Fields.get? store.values field.1, field.2⟩ := by
  obtain ⟨id, change⟩ := delivery
  simp only [deliveries, changesBy, List.mem_flatMap, List.mem_map, List.mem_filter,
    Prod.mk.injEq]
  constructor
  · rintro ⟨_, ⟨field, ⟨hfield, hdiffers⟩, rfl⟩, _, hid, rfl, rfl⟩
    exact ⟨hid, field, hfield, hdiffers, rfl⟩
  · rintro ⟨hid, field, hfield, hdiffers, rfl⟩
    exact ⟨_, ⟨field, ⟨hfield, hdiffers⟩, rfl⟩, id, hid, rfl, rfl⟩

end Store

end ScreenDoc
