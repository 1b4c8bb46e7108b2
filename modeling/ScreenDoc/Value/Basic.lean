/-!
# Values

The values that the state of a screen, its documents and its actions are made of.

## Main definitions

- `Value` — null, booleans, integers of 64 bits, floating point numbers, texts, arrays and objects
- `Value.Kind` — the kind of a value, as messages name it
- `Fields` — the operations on the named fields of an object

## Design notes

The fields of an object are a list of pairs in ascending order of their names. `Fields.insert` keeps
that order; `Fields.get?` and the other look-ups do not depend on it.

Integers and floating point numbers are different values, also where they are equal as numbers. The
comparison of two values is that of their parts, so a value that holds a number that is no number
differs from itself.
-/

namespace ScreenDoc

/-- A value. -/
inductive Value where
  | null
  | bool (b : Bool)
  | int (n : Int64)
  | double (d : Float)
  | string (s : String)
  | array (items : List Value)
  | object (fields : List (String × Value))

/-- The kinds of values. -/
inductive Value.Kind where
  | null
  | bool
  | int
  | double
  | string
  | array
  | object
deriving DecidableEq, Repr

/-- The name of a kind. -/
def Value.Kind.name : Value.Kind → String
  | .null => "null"
  | .bool => "bool"
  | .int => "int"
  | .double => "double"
  | .string => "string"
  | .array => "array"
  | .object => "object"

namespace Fields

variable {α : Type}

/-- The value of the field of this name. -/
def get? : List (String × α) → String → Option α
  | [], _ => none
  | (k, v) :: rest, name => if k = name then some v else get? rest name

/-- Writes a field, in the place of the one of this name or in the order of names. -/
def insert : List (String × α) → String → α → List (String × α)
  | [], name, value => [(name, value)]
  | (k, v) :: rest, name, value =>
    if k = name then (name, value) :: rest
    else if name < k then (name, value) :: (k, v) :: rest
    else (k, v) :: insert rest name value

/-- Removes the field of this name. -/
def erase (fields : List (String × α)) (name : String) : List (String × α) :=
  fields.filter fun field => field.1 ≠ name

/-- Whether there is a field of this name. -/
def contains (fields : List (String × α)) (name : String) : Bool :=
  (get? fields name).isSome

/-- Fields from pairs in any order; of several pairs of one name the last counts. -/
def ofList (pairs : List (String × α)) : List (String × α) :=
  pairs.foldl (fun fields pair => insert fields pair.1 pair.2) []

@[simp] theorem get?_nil (name : String) : get? ([] : List (String × α)) name = none := rfl

theorem get?_insert (fields : List (String × α)) (name other : String) (value : α) :
    get? (insert fields name value) other =
      if name = other then some value else get? fields other := by
  induction fields with
  | nil => simp [insert, get?]
  | cons field rest ih =>
    obtain ⟨k, v⟩ := field
    unfold insert
    split
    · next h => subst h; by_cases h' : k = other <;> simp [get?, h']
    · next h =>
      split
      · by_cases h' : name = other <;> simp [get?, h']
      · by_cases h' : name = other
        · subst h'
          simp [get?, h, ih]
        · by_cases hk : k = other <;> simp [get?, hk, ih, h']

theorem get?_erase (fields : List (String × α)) (name other : String) :
    get? (erase fields name) other = if name = other then none else get? fields other := by
  induction fields with
  | nil => simp [erase, get?]
  | cons field rest ih =>
    obtain ⟨k, v⟩ := field
    unfold erase at ih ⊢
    by_cases hk : k = name
    · subst hk
      by_cases h : k = other <;> simp_all [get?]
    · by_cases h : name = other
      · subst h
        simp_all [get?]
      · by_cases hko : k = other <;> simp_all [get?]

theorem mem_of_get? {fields : List (String × α)} {name : String} {value : α}
    (h : get? fields name = some value) : (name, value) ∈ fields := by
  induction fields with
  | nil => cases h
  | cons field rest ih =>
    obtain ⟨k, v⟩ := field
    rw [get?] at h
    by_cases hk : k = name
    · rw [if_pos hk, Option.some.injEq] at h
      rw [← hk, ← h]
      exact List.mem_cons_self
    · rw [if_neg hk] at h
      exact List.mem_cons_of_mem _ (ih h)

theorem mem_insert {fields : List (String × α)} {name : String} {value : α} {field : String × α}
    (h : field ∈ insert fields name value) : field = (name, value) ∨ field ∈ fields := by
  induction fields with
  | nil => exact Or.inl (List.mem_singleton.1 h)
  | cons first rest ih =>
    rw [insert] at h
    split at h
    · rcases List.mem_cons.1 h with h | h
      · exact Or.inl h
      · exact Or.inr (List.mem_cons_of_mem _ h)
    · split at h
      · exact List.mem_cons.1 h
      · rcases List.mem_cons.1 h with h | h
        · exact Or.inr (h ▸ List.mem_cons_self)
        · exact (ih h).imp_right (List.mem_cons_of_mem _)

/-- Fields in ascending order of their names. -/
def Sorted (fields : List (String × α)) : Prop :=
  fields.Pairwise fun a b => a.1 < b.1

theorem get?_eq_none {fields : List (String × α)} {name : String}
    (h : ∀ field ∈ fields, field.1 ≠ name) : get? fields name = none := by
  cases hget : get? fields name with
  | none => rfl
  | some value => exact absurd rfl (h _ (mem_of_get? hget))

theorem Sorted.insert {fields : List (String × α)} (h : Sorted fields) (name : String) (value : α) :
    Sorted (insert fields name value) := by
  induction fields with
  | nil => exact List.pairwise_singleton _ _
  | cons first rest ih =>
    obtain ⟨k, v⟩ := first
    obtain ⟨hfirst, hrest⟩ := List.pairwise_cons.mp h
    rw [Fields.insert]
    split
    · next heq => exact List.pairwise_cons.mpr ⟨heq ▸ hfirst, hrest⟩
    · next hne =>
      split
      · next hlt =>
        refine List.pairwise_cons.mpr ⟨fun field hfield => ?_, h⟩
        rcases List.mem_cons.mp hfield with rfl | hfield
        · exact hlt
        · exact String.lt_trans hlt (hfirst field hfield)
      · next hge =>
        refine List.pairwise_cons.mpr ⟨fun field hfield => ?_, ih hrest⟩
        rcases mem_insert hfield with rfl | hfield
        · -- Neither the same name nor a smaller one.
          refine String.not_le.mp fun hle => hne ?_
          exact String.le_antisymm (String.not_lt.mp hge) hle
        · exact hfirst field hfield

theorem Sorted.get?_of_mem {fields : List (String × α)} (h : Sorted fields) {field : String × α}
    (hfield : field ∈ fields) : get? fields field.1 = some field.2 := by
  induction fields with
  | nil => cases hfield
  | cons first rest ih =>
    obtain ⟨hfirst, hrest⟩ := List.pairwise_cons.mp h
    obtain ⟨k, v⟩ := first
    rw [get?]
    rcases List.mem_cons.mp hfield with rfl | hfield
    · exact if_pos rfl
    · have hlt : k < field.1 := hfirst field hfield
      have hne : k ≠ field.1 := fun heq => String.lt_irrefl k (heq ▸ hlt)
      rw [if_neg hne]
      exact ih hrest hfield

/-- Of fields in order, those that pass a test are found as before. -/
theorem Sorted.get?_filter {fields : List (String × α)} (h : Sorted fields)
    (keep : String × α → Bool) (name : String) :
    get? (fields.filter keep) name = (get? fields name).filter fun value => keep (name, value) := by
  induction fields with
  | nil => rfl
  | cons first rest ih =>
    obtain ⟨k, v⟩ := first
    obtain ⟨hfirst, hrest⟩ := List.pairwise_cons.mp h
    rw [get?]
    by_cases hname : k = name
    · subst hname
      -- No other field has this name.
      have hnone : get? (rest.filter keep) k = none := get?_eq_none fun field hfield heq =>
        String.lt_irrefl k (heq ▸ hfirst field (List.mem_filter.mp hfield).1)
      rw [if_pos rfl]
      cases hkeep : keep (k, v) with
      | true =>
        rw [List.filter_cons_of_pos hkeep, get?, if_pos rfl, Option.filter_some, if_pos hkeep]
      | false =>
        rw [List.filter_cons_of_neg (by simp [hkeep]), hnone, Option.filter_some, hkeep]
        rfl
    · rw [if_neg hname, ← ih hrest]
      cases hkeep : keep (k, v) with
      | true => rw [List.filter_cons_of_pos hkeep, get?, if_neg hname]
      | false => rw [List.filter_cons_of_neg (by simp [hkeep])]

end Fields

namespace Value

/-- An object without fields. -/
def emptyObject : Value := .object []

/-- The kind of a value. -/
def kind : Value → Kind
  | .null => .null
  | .bool _ => .bool
  | .int _ => .int
  | .double _ => .double
  | .string _ => .string
  | .array _ => .array
  | .object _ => .object

mutual

/-- Equality of values: same kind and equal parts, numbers compared as numbers. -/
def beq : Value → Value → Bool
  | .null, .null => true
  | .bool a, .bool b => a == b
  | .int a, .int b => a == b
  | .double a, .double b => a == b
  | .string a, .string b => a == b
  | .array a, .array b => beqItems a b
  | .object a, .object b => beqFields a b
  | _, _ => false

/-- Equality of the items of two arrays, place by place. -/
def beqItems : List Value → List Value → Bool
  | [], [] => true
  | a :: as, b :: bs => beq a b && beqItems as bs
  | _, _ => false

/-- Equality of the fields of two objects: same names and equal values. -/
def beqFields : List (String × Value) → List (String × Value) → Bool
  | [], [] => true
  | (k, a) :: as, (l, b) :: bs => k == l && beq a b && beqFields as bs
  | _, _ => false

end

instance : BEq Value := ⟨beq⟩

instance : Inhabited Value := ⟨.null⟩

/-- A count as a value: an integer, and a floating point number beyond 64 bits. -/
def ofNat (n : Nat) : Value :=
  if n < 9223372036854775808 then .int (Int64.ofInt n) else .double (Float.ofNat n)

end Value

end ScreenDoc
