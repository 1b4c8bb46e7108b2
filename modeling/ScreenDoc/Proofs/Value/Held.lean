import Mathlib.Data.List.Forall2
import ScreenDoc.Proofs.Value.Fields
import ScreenDoc.Value.Text

/-!
# Values that JSON can hold

Of the numbers, JSON holds those that are finite. A value with finite numbers only is held as it is,
and it equals itself, which a value with a number that is no number does not.

## Main definitions

- `Value.IsHeld` — a value that JSON can hold, with finite numbers and its fields in order

## Main results

- `Value.IsHeld.finite_eq` — JSON holds such a value as it is
- `Value.IsHeld.beq_self` — such a value equals itself
- `Value.isFinite_of_beq` — a number that equals a finite one is finite
-/

namespace ScreenDoc

namespace Value

/-- A value that JSON can hold: its numbers are finite and its fields are in order. -/
inductive IsHeld : Value → Prop where
  | null : IsHeld .null
  | bool (b : Bool) : IsHeld (.bool b)
  | int (n : Int64) : IsHeld (.int n)
  | double {d : Float} (h : d.isFinite) : IsHeld (.double d)
  | string (s : String) : IsHeld (.string s)
  | array {items : List Value} (h : ∀ item ∈ items, item.IsHeld) : IsHeld (.array items)
  | object {fields : List (String × Value)} (hsorted : Fields.Sorted fields)
    (h : ∀ field ∈ fields, field.2.IsHeld) : IsHeld (.object fields)

theorem finiteItems_eq_map (items : List Value) : finiteItems items = items.map finite := by
  induction items with
  | nil => rfl
  | cons item rest ih => rw [finiteItems, ih, List.map_cons]

theorem finiteFields_eq_map (fields : List (String × Value)) :
    finiteFields fields = fields.map fun field => (field.1, finite field.2) := by
  induction fields with
  | nil => rfl
  | cons field rest ih => rw [finiteFields, ih, List.map_cons]

theorem IsHeld.finite_eq {value : Value} (h : value.IsHeld) : value.finite = value := by
  induction h with
  | double h => rw [finite, if_pos h]
  | array _ ih =>
    rw [finite, finiteItems_eq_map, List.map_congr_left ih, List.map_id']
  | @object fields _ _ ih =>
    have hfields : ∀ field ∈ fields, (field.1, finite field.2) = field := fun field hfield => by
      rw [ih field hfield]
    rw [finite, finiteFields_eq_map, List.map_congr_left hfields, List.map_id']
  | _ => rfl

/-! ### Equality -/

section Numbers

open Float.Model (UnpackedFloat)

theorem compare_self {d : UnpackedFloat} (h : d.isFinite) : d.compare d = some .eq := by
  cases d with
  | infinity sign => cases h
  | notANumber => cases h
  | zero sign => rfl
  | finite sign mantissa exponent hpos =>
    have hself : (compare exponent exponent).then (compare mantissa mantissa) = .eq := by
      simp only [Std.ReflCmp.compare_self, Ordering.then_eq]
    cases sign with
    | negative => exact congrArg (fun order => some order.swap) hself
    | positive => exact congrArg some hself

/-- What compares equal to a finite number is no infinity. -/
theorem isFinite_of_compare {d e : UnpackedFloat} (h : d.compare e = some .eq) (he : e.isFinite) :
    d.isFinite := by
  cases d with
  | notANumber => cases h
  | zero sign => rfl
  | finite sign mantissa exponent hpos => rfl
  | infinity sign =>
    exfalso
    cases e with
    | infinity other => cases he
    | notANumber => cases he
    | zero other => cases sign <;> cases h
    | finite other mantissa exponent hpos => cases sign <;> cases h

/-- A finite number equals itself. -/
theorem beq_self_of_isFinite {d : Float} (h : d.isFinite) : (d == d) = true := by
  show (d.toModel.unpack.compare d.toModel.unpack == some .eq) = true
  rw [compare_self h]
  rfl

/-- A number that equals a finite one is finite. -/
theorem isFinite_of_beq {d e : Float} (h : (d == e) = true) (he : e.isFinite) : d.isFinite :=
  isFinite_of_compare (eq_of_beq h) he

end Numbers

theorem beqItems_iff {items others : List Value} :
    beqItems items others = true ↔ List.Forall₂ (fun a b => (a == b) = true) items others := by
  induction items generalizing others with
  | nil => cases others <;> simp [beqItems]
  | cons item rest ih =>
    cases others with
    | nil => simp [beqItems]
    | cons other others =>
      rw [beqItems, Bool.and_eq_true, ih, List.forall₂_cons]
      rfl

theorem beqFields_iff {fields others : List (String × Value)} :
    beqFields fields others = true ↔
      List.Forall₂ (fun a b => a.1 = b.1 ∧ (a.2 == b.2) = true) fields others := by
  induction fields generalizing others with
  | nil => cases others <;> simp [beqFields]
  | cons field rest ih =>
    cases others with
    | nil => simp [beqFields]
    | cons other others =>
      rw [beqFields, Bool.and_eq_true, Bool.and_eq_true, beq_iff_eq, ih, List.forall₂_cons]
      rfl

/-- A value that JSON can hold equals itself. -/
theorem IsHeld.beq_self {value : Value} (h : value.IsHeld) : (value == value) = true := by
  induction h with
  | null => rfl
  | bool b => exact beq_self_eq_true b
  | int n => exact beq_self_eq_true n
  | double h => exact beq_self_of_isFinite h
  | string s => exact beq_self_eq_true s
  | array _ ih => exact beqItems_iff.mpr (List.forall₂_same.mpr ih)
  | object _ _ ih =>
    exact beqFields_iff.mpr (List.forall₂_same.mpr fun field hfield => ⟨rfl, ih field hfield⟩)

end Value

end ScreenDoc
