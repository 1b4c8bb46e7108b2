import ScreenDoc.Proofs.Value.Held

/-!
# Values and JSON data

A value is made of JSON data, and JSON data of a value. JSON data keeps a number in the form that it
was written in: a natural number, a negative one or a floating point number. A value has integers of
64 bits and floating point numbers, and what is not finite becomes null in JSON data.

## Main definitions

- `Numeral`, `Datum` — numbers and all data of JSON
- `Datum.value`, `Value.datum` — the value of data, and the data of a value
- `Datum.IsPlain` — data with integers of 64 bits and finite floating point numbers only
- `Datum.beq` — equality of data: same forms, and floating point numbers compared as numbers

## Main results

- `Value.value_datum` — a value comes back as JSON can hold it
- `Datum.IsPlain.datum_value` — plain data comes back as it is
- `Value.IsHeld.beq_datum` — equal values have equal data
-/

namespace ScreenDoc

/-- A number of JSON in the form that it was written in. -/
inductive Numeral where
  | natural (n : UInt64)
  | negative (n : Int64) (h : n < 0)
  | double (d : Float) (h : d.isFinite)

/-- Data of JSON. The fields of an object are in ascending order of their names. -/
inductive Datum where
  | null
  | bool (b : Bool)
  | number (n : Numeral)
  | string (s : String)
  | array (items : List Datum)
  | object (fields : List (String × Datum))

/-! ### Numbers -/

namespace Numeral

/-- The value of a number: an integer if it is one of 64 bits, else a floating point number. -/
def value : Numeral → Value
  | natural n => .ofNat n.toNat
  | negative n _ => .int n
  | double d _ => .double d

/-- The form of an integer. -/
def ofInt (n : Int64) : Numeral :=
  if h : n < 0 then negative n h else natural (.ofNat n.toInt.toNat)

/-- Equality of numbers: same form and equal as numbers. -/
def beq : Numeral → Numeral → Bool
  | natural m, natural n => m == n
  | negative m _, negative n _ => m == n
  | double d _, double e _ => d == e
  | _, _ => false

instance : BEq Numeral := ⟨beq⟩

/-- Whether a number is an integer of 64 bits or a finite floating point number. -/
def IsPlain : Numeral → Prop
  | natural n => n.toNat < 9223372036854775808
  | _ => True

/-- An integer comes back from its form. -/
theorem value_ofInt (n : Int64) : (ofInt n).value = .int n := by
  rw [ofInt]
  by_cases hneg : n < 0
  · rw [dif_pos hneg]
    rfl
  · have hnonneg : 0 ≤ n.toInt := Int.not_lt.mp fun h => hneg (Int64.lt_iff_toInt_lt.mpr h)
    have hlt : n.toInt < 9223372036854775808 := Int64.toInt_lt n
    have hbound : n.toInt.toNat < 9223372036854775808 := by omega
    have hnat : (UInt64.ofNat n.toInt.toNat).toNat = n.toInt.toNat :=
      UInt64.toNat_ofNat_of_lt' (Nat.lt_trans hbound (by decide))
    have hback : Int64.ofInt (n.toInt.toNat : Int) = n := by
      rw [Int.toNat_of_nonneg hnonneg, Int64.ofInt_toInt]
    rw [dif_neg hneg, value, hnat, Value.ofNat, if_pos hbound, hback]

theorem beq_ofInt_self (n : Int64) : (ofInt n == ofInt n) = true := by
  rw [ofInt]
  by_cases hneg : n < 0
  · rw [dif_pos hneg]
    exact beq_self_eq_true n
  · rw [dif_neg hneg]
    exact beq_self_eq_true (UInt64.ofNat n.toInt.toNat)

/-- The value of a plain number is an integer of the same form, or the same finite number. -/
theorem IsPlain.value_cases {numeral : Numeral} (h : numeral.IsPlain) :
    (∃ n, numeral.value = .int n ∧ ofInt n = numeral) ∨
      ∃ d hfinite, numeral.value = .double d ∧ numeral = .double d hfinite := by
  cases numeral with
  | natural m =>
    have hlt : m.toNat < 9223372036854775808 := h
    have hint : (Int64.ofInt m.toNat).toInt = m.toNat :=
      Int64.toInt_ofInt_of_le (by omega) (by omega)
    have hneg : ¬Int64.ofInt m.toNat < 0 := by
      rw [Int64.lt_iff_toInt_lt, hint]
      exact Int.not_lt.mpr (Int.natCast_nonneg _)
    refine .inl ⟨Int64.ofInt m.toNat, ?_, ?_⟩
    · rw [value, Value.ofNat, if_pos hlt]
    · rw [ofInt, dif_neg hneg, hint, Int.toNat_natCast, UInt64.ofNat_toNat]
  | negative m hneg =>
    refine .inl ⟨m, rfl, ?_⟩
    rw [ofInt, dif_pos hneg]
  | double d hfinite => exact .inr ⟨d, hfinite, rfl, rfl⟩

end Numeral

/-! ### Conversions -/

namespace Datum

mutual

/-- The value of data. -/
def value : Datum → Value
  | .null => .null
  | .bool b => .bool b
  | .number n => n.value
  | .string s => .string s
  | .array items => .array (itemValues items)
  | .object fields => .object (fieldValues fields)

/-- The values of the items of an array. -/
def itemValues : List Datum → List Value
  | [] => []
  | item :: rest => value item :: itemValues rest

/-- The values of the fields of an object. -/
def fieldValues : List (String × Datum) → List (String × Value)
  | [] => []
  | (name, datum) :: rest => (name, value datum) :: fieldValues rest

end

mutual

/-- Equality of data: same kind and equal parts. -/
def beq : Datum → Datum → Bool
  | .null, .null => true
  | .bool a, .bool b => a == b
  | .number a, .number b => a == b
  | .string a, .string b => a == b
  | .array a, .array b => beqItems a b
  | .object a, .object b => beqFields a b
  | _, _ => false

/-- Equality of the items of two arrays, place by place. -/
def beqItems : List Datum → List Datum → Bool
  | [], [] => true
  | a :: as, b :: bs => beq a b && beqItems as bs
  | _, _ => false

/-- Equality of the fields of two objects: same names and equal data. -/
def beqFields : List (String × Datum) → List (String × Datum) → Bool
  | [], [] => true
  | (k, a) :: as, (l, b) :: bs => k == l && beq a b && beqFields as bs
  | _, _ => false

end

instance : BEq Datum := ⟨beq⟩

/-- Data whose numbers are integers of 64 bits or finite floating point numbers. -/
inductive IsPlain : Datum → Prop where
  | null : IsPlain .null
  | bool (b : Bool) : IsPlain (.bool b)
  | number {n : Numeral} (h : n.IsPlain) : IsPlain (.number n)
  | string (s : String) : IsPlain (.string s)
  | array {items : List Datum} (h : ∀ item ∈ items, item.IsPlain) : IsPlain (.array items)
  | object {fields : List (String × Datum)} (hsorted : Fields.Sorted fields)
    (h : ∀ field ∈ fields, field.2.IsPlain) : IsPlain (.object fields)

theorem itemValues_eq_map (items : List Datum) : itemValues items = items.map value := by
  induction items with
  | nil => rfl
  | cons item rest ih => rw [itemValues, ih, List.map_cons]

theorem fieldValues_eq_map (fields : List (String × Datum)) :
    fieldValues fields = fields.map fun field => (field.1, field.2.value) := by
  induction fields with
  | nil => rfl
  | cons field rest ih => rw [fieldValues, ih, List.map_cons]

theorem value_object (fields : List (String × Datum)) :
    (Datum.object fields).value = .object (fields.map fun field => (field.1, field.2.value)) := by
  rw [value, fieldValues_eq_map]

end Datum

namespace Value

mutual

/-- The data of a value: null in the place of a number that is not finite. -/
def datum : Value → Datum
  | .null => .null
  | .bool b => .bool b
  | .int n => .number (.ofInt n)
  | .double d => if h : d.isFinite then .number (.double d h) else .null
  | .string s => .string s
  | .array items => .array (itemData items)
  | .object fields => .object (fieldData fields)

/-- The data of the items of an array. -/
def itemData : List Value → List Datum
  | [] => []
  | item :: rest => datum item :: itemData rest

/-- The data of the fields of an object. -/
def fieldData : List (String × Value) → List (String × Datum)
  | [] => []
  | (name, value) :: rest => (name, datum value) :: fieldData rest

end

theorem itemData_eq_map (items : List Value) : itemData items = items.map datum := by
  induction items with
  | nil => rfl
  | cons item rest ih => rw [itemData, ih, List.map_cons]

theorem fieldData_eq_map (fields : List (String × Value)) :
    fieldData fields = fields.map fun field => (field.1, field.2.datum) := by
  induction fields with
  | nil => rfl
  | cons field rest ih => rw [fieldData, ih, List.map_cons]

theorem datum_object (fields : List (String × Value)) :
    (Value.object fields).datum = .object (fields.map fun field => (field.1, field.2.datum)) := by
  rw [datum, fieldData_eq_map]

/-! ### There and back -/

mutual

/-- A value comes back from its data as JSON can hold it. -/
theorem value_datum : (value : Value) → value.datum.value = value.finite
  | .null => rfl
  | .bool _ => rfl
  | .int n => Numeral.value_ofInt n
  | .double d => by
    rw [datum, finite]
    by_cases h : d.isFinite
    · rw [dif_pos h, if_pos h]
      rfl
    · rw [dif_neg h, if_neg h]
      rfl
  | .string _ => rfl
  | .array items => congrArg Value.array (itemValues_itemData items)
  | .object fields => congrArg Value.object (fieldValues_fieldData fields)

theorem itemValues_itemData : (items : List Value) →
    Datum.itemValues (itemData items) = finiteItems items
  | [] => rfl
  | item :: rest => congrArg₂ List.cons (value_datum item) (itemValues_itemData rest)

theorem fieldValues_fieldData : (fields : List (String × Value)) →
    Datum.fieldValues (fieldData fields) = finiteFields fields
  | [] => rfl
  | (name, value) :: rest =>
    congrArg₂ List.cons (congrArg (Prod.mk name) (value_datum value)) (fieldValues_fieldData rest)

end

mutual

/-- What JSON cannot hold of a value is not in its data. -/
theorem datum_finite : (value : Value) → value.finite.datum = value.datum
  | .null => rfl
  | .bool _ => rfl
  | .int _ => rfl
  | .double d => by
    rw [finite]
    by_cases h : d.isFinite
    · rw [if_pos h]
    · rw [if_neg h, datum, datum, dif_neg h]
  | .string _ => rfl
  | .array items => congrArg Datum.array (itemData_finiteItems items)
  | .object fields => congrArg Datum.object (fieldData_finiteFields fields)

theorem itemData_finiteItems : (items : List Value) →
    itemData (finiteItems items) = itemData items
  | [] => rfl
  | item :: rest => congrArg₂ List.cons (datum_finite item) (itemData_finiteItems rest)

theorem fieldData_finiteFields : (fields : List (String × Value)) →
    fieldData (finiteFields fields) = fieldData fields
  | [] => rfl
  | (name, value) :: rest =>
    congrArg₂ List.cons (congrArg (Prod.mk name) (datum_finite value)) (fieldData_finiteFields rest)

end

end Value

namespace Datum

/-- Plain data comes back from its value as it is. -/
theorem IsPlain.datum_value {datum : Datum} (h : datum.IsPlain) : datum.value.datum = datum := by
  induction h with
  | null => rfl
  | bool b => rfl
  | string s => rfl
  | @number n h =>
    rw [value]
    rcases h.value_cases with ⟨m, hvalue, hback⟩ | ⟨d, hfinite, hvalue, rfl⟩
    · rw [hvalue, Value.datum, hback]
    · rw [hvalue, Value.datum, dif_pos hfinite]
  | @array items _ ih =>
    rw [value, Value.datum, itemValues_eq_map, Value.itemData_eq_map, List.map_map]
    exact congrArg Datum.array ((List.map_congr_left ih).trans (List.map_id' items))
  | @object fields _ _ ih =>
    rw [value_object, Value.datum_object, List.map_map]
    refine congrArg Datum.object (Eq.trans (List.map_congr_left fun field hfield => ?_)
      (List.map_id' fields))
    exact Prod.ext rfl (ih field hfield)

/-- The value of plain data can be held by JSON. -/
theorem IsPlain.isHeld_value {datum : Datum} (h : datum.IsPlain) : datum.value.IsHeld := by
  induction h with
  | null => exact .null
  | bool b => exact .bool b
  | string s => exact .string s
  | @number n h =>
    rw [value]
    rcases h.value_cases with ⟨m, hvalue, -⟩ | ⟨d, hfinite, hvalue, -⟩
    · rw [hvalue]
      exact .int m
    · rw [hvalue]
      exact .double hfinite
  | @array items _ ih =>
    rw [value, itemValues_eq_map]
    exact .array (List.forall_mem_map.mpr ih)
  | @object fields hsorted _ ih =>
    rw [value_object]
    exact .object (hsorted.map value) (List.forall_mem_map.mpr ih)

theorem beqItems_iff {items others : List Datum} :
    beqItems items others = true ↔ List.Forall₂ (fun a b => (a == b) = true) items others := by
  induction items generalizing others with
  | nil => cases others <;> simp [beqItems]
  | cons item rest ih =>
    cases others with
    | nil => simp [beqItems]
    | cons other others =>
      rw [beqItems, Bool.and_eq_true, ih, List.forall₂_cons]
      rfl

theorem beqFields_iff {fields others : List (String × Datum)} :
    beqFields fields others = true ↔
      List.Forall₂ (fun a b => a.1 = b.1 ∧ (a.2 == b.2) = true) fields others := by
  induction fields generalizing others with
  | nil => cases others <;> simp [beqFields]
  | cons field rest ih =>
    cases others with
    | nil => simp [beqFields]
    | cons other others =>
      rw [beqFields, Bool.and_eq_true, Bool.and_eq_true, beq_iff_eq, ih, List.forall₂_cons]
      rfl

end Datum

namespace Value

/-- A value that equals one that JSON can hold has equal data. -/
theorem IsHeld.beq_datum {value other : Value} (h : other.IsHeld) (heq : (value == other) = true) :
    (value.datum == other.datum) = true := by
  induction h generalizing value with
  | null =>
    cases value with
    | null => rfl
    | _ => cases heq
  | bool b =>
    cases value with
    | bool a => exact heq
    | _ => cases heq
  | int n =>
    cases value with
    | int m =>
      obtain rfl : m = n := eq_of_beq heq
      exact Numeral.beq_ofInt_self m
    | _ => cases heq
  | @double e hfinite =>
    cases value with
    | double d =>
      rw [datum, datum, dif_pos (isFinite_of_beq heq hfinite), dif_pos hfinite]
      exact heq
    | _ => cases heq
  | string s =>
    cases value with
    | string t => exact heq
    | _ => cases heq
  | @array others _ ih =>
    cases value with
    | array items =>
      have hitems : List.Forall₂ (fun a b => (a == b) = true) items others := beqItems_iff.mp heq
      rw [datum, datum, itemData_eq_map, itemData_eq_map]
      refine Datum.beqItems_iff.mpr ?_
      rw [List.forall₂_map_left_iff, List.forall₂_map_right_iff]
      have hboth := (List.forall₂_and_left _ _).mpr ⟨ih, hitems.flip⟩
      exact (hboth.imp fun b a hab => hab.1 hab.2).flip
    | _ => cases heq
  | @object others _ _ ih =>
    cases value with
    | object fields =>
      have hfields : List.Forall₂ (fun a b => a.1 = b.1 ∧ (a.2 == b.2) = true) fields others :=
        beqFields_iff.mp heq
      rw [datum_object, datum_object]
      refine Datum.beqFields_iff.mpr ?_
      rw [List.forall₂_map_left_iff, List.forall₂_map_right_iff]
      have hboth := (List.forall₂_and_left _ _).mpr ⟨ih, hfields.flip⟩
      exact (hboth.imp fun b a hab => ⟨hab.2.1, hab.1 hab.2.2⟩).flip
    | _ => cases heq

end Value

end ScreenDoc
