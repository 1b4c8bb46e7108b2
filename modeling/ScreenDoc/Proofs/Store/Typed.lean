import ScreenDoc.Proofs.Store.Merge
import ScreenDoc.Proofs.Value.Datum

/-!
# Data written and read back

The state is written from JSON data and read as JSON data. What is written comes back, number by
number in the form that it had, and writing it once more finds nothing to do.

## Main definitions

- `Store.Moment.Keeps` — what comes of writing data to the state

## Main results

- `Store.setAll_eq`, `Store.typed_datum` — the state is written from data and read as data
- `Store.setFields_eq_self` — fields that are there already are not written
- `Store.keeps_setAll` — writing plain data, reading it, and writing it again
-/

namespace ScreenDoc

namespace Store

variable {store : Store} {name : String} {value : Value}

/-- A value is written as the fields of its data. -/
theorem setAll_eq (store : Store) (value : Value) :
    store.setAll value =
      match value.datum.value with
      | .object fields => store.setFields fields
      | other => .error (.notAnObject other.kind) := by
  cases hfinite : value.finite <;> simp only [setAll, Value.value_datum, hfinite]

/-- Read as data, the state is the data of its values. -/
theorem typed_datum (store : Store) :
    store.typed (fun value => some value.datum) =
      .ok (.object (store.values.map fun field => (field.1, field.2.datum))) := by
  rw [typed, Value.datum_finite, asObject, Value.datum_object]

/-- A state does not differ where it holds an equal value. -/
theorem differsAt_eq_false_iff :
    store.differsAt name value = false ↔
      ∃ old, Fields.get? store.values name = some old ∧ (old == value) = true := by
  rw [differsAt]
  cases Fields.get? store.values name with
  | none => simp
  | some old => simp

/-- Fields that are there already are not written. -/
theorem setFields_eq_self {fields : List (String × Value)}
    (h : ∀ field ∈ fields, store.differsAt field.1 field.2 = false) :
    store.setFields fields = .ok ⟨(), store, []⟩ := by
  induction fields with
  | nil => rfl
  | cons field rest ih =>
    obtain ⟨name, value⟩ := field
    have hsame : store.differsAt name value = false := h (name, value) List.mem_cons_self
    rw [setFields, hsame, if_neg Bool.false_ne_true]
    exact ih fun field hfield => h field (List.mem_cons_of_mem _ hfield)

/-- What comes of writing data to the state. -/
structure Moment.Keeps (moment : Moment) (fields : List (String × Datum)) : Prop where
  done : moment.reply = .done
  /-- Every field is there: its value was written, or an equal one was there already. -/
  held : ∀ field ∈ fields, ∃ value, Fields.get? moment.after.values field.1 = some value ∧
    (value == field.2.value) = true ∧
      if moment.before.differsAt field.1 field.2.value then value = field.2.value
      else Fields.get? moment.before.values field.1 = some value
  /-- Other names stay as they are. -/
  other : ∀ name, (∀ field ∈ fields, field.1 ≠ name) →
    Fields.get? moment.after.values name = Fields.get? moment.before.values name
  /-- All subscribers are told of the fields that were absent or different, in order. -/
  told : moment.told =
    (fields.filter fun field => moment.before.differsAt field.1 field.2.value).flatMap fun field =>
      moment.before.subscribers.map fun id =>
        (id, ⟨field.1, Fields.get? moment.before.values field.1, field.2.value⟩)
  /-- The state reads as an object that has the same data in every field. -/
  read : ∃ data, moment.after.typed (fun value => some value.datum) = .ok (.object data) ∧
    ∀ field ∈ fields, ∃ datum, Fields.get? data field.1 = some datum ∧ (datum == field.2) = true
  /-- Once more there is nothing to write and nothing to tell. -/
  again : moment.after.respond moment.command =
    ⟨moment.after, moment.command, .done, [], moment.after⟩

/-- The fields of plain data, as they are written. -/
theorem finite_value_object {fields : List (String × Datum)} (h : (Datum.object fields).IsPlain) :
    (Datum.object fields).value.finite =
      .object (fields.map fun field => (field.1, field.2.value)) := by
  rw [h.isHeld_value.finite_eq, Datum.value_object]

/-- Of a field that was written there is the value, or an equal one. -/
theorem Merges.exists_beq {last : Store} {fields : List (String × Value)}
    (h : store.Merges fields last) {field : String × Value} (hfield : field ∈ fields)
    (hheld : field.2.IsHeld) :
    ∃ value, Fields.get? last.values field.1 = some value ∧ (value == field.2) = true ∧
      if store.differsAt field.1 field.2 then value = field.2
      else Fields.get? store.values field.1 = some value := by
  have hget := h.field field hfield
  by_cases hdiffers : store.differsAt field.1 field.2 = true
  · rw [if_pos hdiffers] at hget
    refine ⟨field.2, hget, hheld.beq_self, ?_⟩
    rw [if_pos hdiffers]
  · rw [if_neg hdiffers] at hget
    obtain ⟨old, hold, heq⟩ := differsAt_eq_false_iff.mp (Bool.eq_false_iff.mpr hdiffers)
    refine ⟨old, hget.trans hold, heq, ?_⟩
    rw [if_neg hdiffers]
    exact hold

/-- What was merged does not differ any more. -/
theorem Merges.differsAt_eq_false {last : Store} {fields : List (String × Value)}
    (h : store.Merges fields last) (hheld : ∀ field ∈ fields, field.2.IsHeld) :
    ∀ field ∈ fields, last.differsAt field.1 field.2 = false := by
  intro field hfield
  obtain ⟨value, hget, heq, -⟩ := h.exists_beq hfield (hheld field hfield)
  exact differsAt_eq_false_iff.mpr ⟨value, hget, heq⟩

/-- Plain data that is written to the state is kept. -/
theorem keeps_setAll (store : Store) {fields : List (String × Datum)}
    (h : (Datum.object fields).IsPlain) :
    (store.respond (.setAll (Datum.object fields).value)).Keeps fields := by
  obtain _ | _ | _ | _ | _ | ⟨hsorted, hplain⟩ := h
  have hfinite := finite_value_object (.object hsorted hplain)
  let written : List (String × Value) := fields.map fun field => (field.1, field.2.value)
  have hmem : ∀ field ∈ fields, (field.1, field.2.value) ∈ written :=
    fun field hfield => List.mem_map_of_mem hfield
  have hheld : ∀ field ∈ written, field.2.IsHeld :=
    List.forall_mem_map.mpr fun field hfield => (hplain field hfield).isHeld_value
  obtain ⟨last, hmerges, hrespond⟩ :=
    respond_setAll store hfinite (hsorted.map Datum.value)
  rw [hrespond]
  have hkept : ∀ field ∈ fields, ∃ value, Fields.get? last.values field.1 = some value ∧
      (value == field.2.value) = true ∧
        if store.differsAt field.1 field.2.value then value = field.2.value
        else Fields.get? store.values field.1 = some value :=
    fun field hfield => hmerges.exists_beq (hmem field hfield) (hheld _ (hmem field hfield))
  refine ⟨rfl, hkept, fun name hname => ?_, ?_, ?_, ?_⟩
  · exact hmerges.other name (List.forall_mem_map.mpr hname)
  · show store.deliveries (store.changesBy written) = _
    rw [deliveries, changesBy, List.filter_map, List.map_map, List.flatMap_map]
    rfl
  · refine ⟨_, typed_datum last, fun field hfield => ?_⟩
    obtain ⟨value, hget, heq, -⟩ := hkept field hfield
    refine ⟨value.datum, ?_, ?_⟩
    · rw [Fields.get?_map, hget, Option.map_some]
    · have hdatum := (hheld _ (hmem field hfield)).beq_datum heq
      rwa [(hplain field hfield).datum_value] at hdatum
  · have hnothing : last.setAll (Datum.object fields).value = .ok ⟨(), last, []⟩ := by
      rw [setAll, hfinite]
      exact setFields_eq_self (hmerges.differsAt_eq_false hheld)
    show last.respond (.setAll (Datum.object fields).value) = _
    rw [respond, outcome, hnothing]
    rfl

/-- A state with two subscribers. -/
def shelf : Store := ⟨[("flag", .bool true), ("rows", .null), ("z", .int 7)], [3, 5], 6⟩

/-- An object with all forms of numbers and a field that the state has already. -/
def parcel : List (String × Datum) :=
  [("flag", .bool true),
    ("rows", .array [.number (.natural 1), .number (.negative (-2) (by decide)),
      .number (.double 0.5 (by decide +kernel))])]

theorem keeps_setAll_parcel :
    (Datum.object parcel).IsPlain ∧
    let moment := shelf.respond (.setAll (Datum.object parcel).value)
    moment.told.map (fun delivery => (delivery.1, delivery.2.path)) = [(3, "rows"), (5, "rows")] ∧
      Fields.get? moment.after.values "z" = some (.int 7) ∧
      (∃ data rows, moment.after.typed (fun value => some value.datum) = .ok (.object data) ∧
        Fields.get? data "rows" = some rows ∧
        (rows == .array [.number (.natural 1), .number (.negative (-2) (by decide)),
          .number (.double 0.5 (by decide +kernel))]) = true) ∧
      (moment.after.respond moment.command).told = [] := by
  have hplain : (Datum.object parcel).IsPlain := by
    refine .object ?_ ?_
    · simp only [Fields.Sorted, parcel, List.pairwise_pair]
      decide
    · simp only [parcel, List.forall_mem_cons]
      refine ⟨.bool true, .array ?_, fun field hfield => absurd hfield List.not_mem_nil⟩
      simp only [List.forall_mem_cons]
      refine ⟨.number ?_, .number trivial, .number trivial,
        fun item hitem => absurd hitem List.not_mem_nil⟩
      show (1 : UInt64).toNat < 9223372036854775808
      decide
  have hkeeps := keeps_setAll shelf hplain
  refine ⟨hplain, ?_, ?_, ?_, ?_⟩
  · rw [hkeeps.told]
    decide +kernel
  · exact hkeeps.other "z" (by decide +kernel)
  · obtain ⟨data, htyped, hdata⟩ := hkeeps.read
    obtain ⟨rows, hget, heq⟩ := hdata _ (List.mem_cons_of_mem _ List.mem_cons_self)
    exact ⟨data, rows, htyped, hget, heq⟩
  · rw [hkeeps.again]

end Store

end ScreenDoc
