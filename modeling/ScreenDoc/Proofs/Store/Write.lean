import ScreenDoc.Store.Basic
import ScreenDoc.Proofs.Store.Fork

/-!
# Reading after a write

What a path leads to after a value was written at another one.

## Main results

- `Value.lookup_write_append` — under shared steps, a write is a write into what lies there
- `Value.lookup_write_mixed`, `Value.lookup_write_key`, `Value.lookup_write_index` — what a path
  leads to where it parts from the written one
- `Store.asObject_set` — a write to the state is a write into its values
- `Store.get?_set_of_fork` — a path that parts from the written one
-/

namespace ScreenDoc

namespace Value

/-! ### One step into a value -/

@[simp] theorem fieldsOrNone_object (fields : List (String × Value)) :
    (Value.object fields).fieldsOrNone = fields := rfl

@[simp] theorem itemsOrNone_array (items : List Value) :
    (Value.array items).itemsOrNone = items := rfl

@[simp] theorem lookup_nil (value : Value) : value.lookup [] = some value := by
  cases value <;> rfl

theorem lookup_key (value : Value) (name : String) (rest : List Segment) :
    value.lookup (.key name :: rest) =
      (Fields.get? value.fieldsOrNone name).bind (Value.lookup · rest) := by
  cases value <;> rfl

theorem lookup_index (value : Value) (i : Nat) (rest : List Segment) :
    value.lookup (.index i :: rest) = value.itemsOrNone[i]?.bind (Value.lookup · rest) := by
  cases value <;> rfl

/-- A value that is absent holds nothing, as does null. -/
theorem lookup_null_cons (segment : Segment) (rest : List Segment) :
    Value.null.lookup (segment :: rest) = none := by
  cases segment <;> rfl

/-- A path is followed step by step. -/
theorem lookup_append (value : Value) (first rest : List Segment) :
    value.lookup (first ++ rest) = (value.lookup first).bind (Value.lookup · rest) := by
  induction first generalizing value with
  | nil => simp
  | cons segment first ih =>
    cases segment with
    | key name =>
      rw [List.cons_append, lookup_key, lookup_key, Option.bind_assoc]
      exact congrArg _ (funext fun child => ih child)
    | index i =>
      rw [List.cons_append, lookup_index, lookup_index, Option.bind_assoc]
      exact congrArg _ (funext fun child => ih child)

/-- What lies at the end of some steps, null where there is nothing. -/
def placeAt (value : Value) (steps : List Segment) : Value :=
  (value.lookup steps).getD .null

@[simp] theorem placeAt_nil (value : Value) : value.placeAt [] = value := by
  simp [placeAt]

/-- Nothing lies below null. -/
@[simp] theorem placeAt_null (steps : List Segment) : Value.null.placeAt steps = .null := by
  cases steps with
  | nil => rfl
  | cons segment rest => simp [placeAt, lookup_null_cons]

theorem placeAt_cons (value : Value) (segment : Segment) (rest : List Segment) :
    value.placeAt (segment :: rest) = (value.placeAt [segment]).placeAt rest := by
  have hsplit : value.lookup (segment :: rest) = (value.lookup [segment]).bind (·.lookup rest) :=
    lookup_append value [segment] rest
  cases hchild : value.lookup [segment] with
  | none =>
    have hnull : value.placeAt [segment] = .null := by rw [placeAt, hchild, Option.getD_none]
    rw [hnull, placeAt_null, placeAt, hsplit, hchild, Option.bind_none, Option.getD_none]
  | some child =>
    have hsome : value.placeAt [segment] = child := by rw [placeAt, hchild, Option.getD_some]
    rw [hsome, placeAt, hsplit, hchild, Option.bind_some, placeAt]

/-- Past at least one step, a path goes through what lies at the end of its first steps. -/
theorem lookup_append_cons (value : Value) (first : List Segment) (segment : Segment)
    (rest : List Segment) :
    value.lookup (first ++ segment :: rest) = (value.placeAt first).lookup (segment :: rest) := by
  rw [lookup_append, placeAt]
  cases value.lookup first with
  | none => simp [lookup_null_cons]
  | some child => rfl

theorem write_key (value : Value) (name : String) (rest : List Segment) (new : Value) :
    value.write (.key name :: rest) new =
      .object (Fields.insert value.fieldsOrNone name
        ((value.placeAt [.key name]).write rest new)) := by
  simp [write, placeAt, lookup_key]

theorem write_index (value : Value) (i : Nat) (rest : List Segment) (new : Value) :
    value.write (.index i :: rest) new =
      .array (setItem value.itemsOrNone i ((value.placeAt [.index i]).write rest new)) := by
  simp [write, placeAt, lookup_index]

/-! ### The items of a padded array -/

@[simp] theorem length_setItem (items : List Value) (i : Nat) (value : Value) :
    (setItem items i value).length = max items.length (i + 1) := by
  rw [setItem, List.length_set, List.length_append, List.length_replicate]
  omega

/-- After an item was set, the items before and behind it are the old ones, and the gap to the old
end is filled with nulls. -/
theorem getElem?_setItem (items : List Value) (i j : Nat) (value : Value) :
    (setItem items i value)[j]? =
      if j = i then some value
      else if j < items.length then items[j]?
      else if j < i then some .null else none := by
  rw [setItem, List.getElem?_set]
  by_cases hj : i = j
  · subst hj
    rw [if_pos rfl, if_pos rfl, List.length_append, List.length_replicate, if_pos (by omega)]
  · rw [if_neg hj, if_neg (Ne.symm hj), List.getElem?_append, List.getElem?_replicate]
    by_cases hlen : j < items.length
    · rw [if_pos hlen, if_pos hlen]
    · rw [if_neg hlen, if_neg hlen]
      by_cases hgap : j < i
      · rw [if_pos hgap, if_pos (by omega)]
      · rw [if_neg hgap, if_neg (by omega)]

/-! ### Reading after a write -/

/-- A path that starts with the written step goes on in what was written there. -/
theorem lookup_write_cons (value : Value) (segment : Segment) (rest steps : List Segment)
    (new : Value) :
    (value.write (segment :: rest) new).lookup (segment :: steps) =
      ((value.placeAt [segment]).write rest new).lookup steps := by
  cases segment with
  | key name =>
    rw [write_key, lookup_key, fieldsOrNone_object, Fields.get?_insert, if_pos rfl,
      Option.bind_some]
  | index i =>
    rw [write_index, lookup_index, itemsOrNone_array, getElem?_setItem, if_pos rfl,
      Option.bind_some]

/-- Under shared steps, a write is a write into what lies there. -/
theorem lookup_write_append (value : Value) (shared rest steps : List Segment) (new : Value) :
    (value.write (shared ++ rest) new).lookup (shared ++ steps) =
      ((value.placeAt shared).write rest new).lookup steps := by
  induction shared generalizing value with
  | nil => simp
  | cons segment shared ih =>
    rw [List.cons_append, List.cons_append, lookup_write_cons, ih, ← placeAt_cons]

/-- Where a key parts from an index, the write leaves no room for the other path. -/
theorem lookup_write_mixed (value : Value) {here there : Segment} (after rest : List Segment)
    (new : Value) (h : here.isKey ≠ there.isKey) :
    (value.write (there :: rest) new).lookup (here :: after) = none := by
  cases here <;> cases there <;> simp [Segment.isKey] at h
  · rw [write_index]; rfl
  · rw [write_key]; rfl

/-- A field of another name stays as it is. -/
theorem lookup_write_key (value : Value) {name other : String} (after rest : List Segment)
    (new : Value) (h : other ≠ name) :
    (value.write (.key name :: rest) new).lookup (.key other :: after) =
      value.lookup (.key other :: after) := by
  rw [write_key, lookup_key, lookup_key, fieldsOrNone_object, Fields.get?_insert,
    if_neg (Ne.symm h)]

/-- Another item stays as it is, save one in the gap that the write fills with nulls. -/
theorem lookup_write_index (value : Value) {i j : Nat} (after rest : List Segment) (new : Value)
    (h : j ≠ i) :
    (value.write (.index i :: rest) new).lookup (.index j :: after) =
      if value.itemsOrNone.length ≤ j ∧ j < i then Value.null.lookup after
      else value.lookup (.index j :: after) := by
  rw [write_index, lookup_index, lookup_index, itemsOrNone_array, getElem?_setItem, if_neg h]
  by_cases hlen : j < value.itemsOrNone.length
  · rw [if_pos hlen, if_neg (by omega)]
  · rw [if_neg hlen, List.getElem?_eq_none (Nat.le_of_not_lt hlen)]
    by_cases hgap : j < i
    · rw [if_pos hgap, if_pos ⟨Nat.le_of_not_lt hlen, hgap⟩, Option.bind_some]
    · rw [if_neg hgap, if_neg (fun hle => hgap hle.2)]

end Value

namespace Store

/-! ### Writes to the state -/

theorem get?_eq_lookup {store : Store} {path : Path} (h : path.segments ≠ []) :
    store.get? path = store.asObject.lookup path.segments := by
  obtain ⟨segments⟩ := path
  match segments with
  | [] => exact absurd rfl h
  | .key name :: rest => rw [asObject, Value.lookup_key]; rfl
  | .index i :: rest => rfl

/-- A write to the state is a write into its values. -/
theorem asObject_set {store : Store} {written : Path} {value : Value} {update : Update Unit}
    (h : store.set written value = .ok update) :
    update.store.asObject = store.asObject.write written.segments value := by
  obtain ⟨segments⟩ := written
  unfold set at h
  split at h
  · cases h
  · split at h
    · next name rest heq =>
      obtain rfl : segments = .key name :: rest := heq
      cases h
      rw [Value.write_key]
      simp [asObject, Value.placeAt, Value.lookup_key]
    · cases h

/-- A write whose indices are all near enough succeeds. -/
theorem exists_set_of_tooFar?_eq_none {store : Store} {written : Path} (value : Value)
    {name : String} {rest : List Segment} (hnear : store.tooFar? written = none)
    (hkey : written.segments = .key name :: rest) :
    ∃ update, store.set written value = .ok update := by
  rw [set, hnear, hkey]
  exact ⟨_, rfl⟩

/-- A path that is written starts with a key. -/
theorem exists_key_of_set {store : Store} {written : Path} {value : Value}
    {update : Update Unit} (h : store.set written value = .ok update) :
    ∃ name rest, written.segments = .key name :: rest := by
  unfold set at h
  split at h
  · cases h
  · split at h
    · next name rest heq => exact ⟨name, rest, heq⟩
    · cases h

theorem arrayLength_eq (store : Store) (path : Path) (h : path.segments ≠ []) :
    store.arrayLength path = (store.asObject.placeAt path.segments).itemsOrNone.length := by
  rw [arrayLength, get?_eq_lookup h, Value.placeAt, Value.itemsOrNone]
  cases store.asObject.lookup path.segments with
  | none => rfl
  | some value => cases value <;> rfl

/-- What the two paths of a fork lead to after a write at the one of them. -/
theorem get?_set_of_fork {store : Store} {path written : Path} {value : Value}
    {update : Update Unit} {fork : Fork} (h : store.set written value = .ok update)
    (hfork : path.fork? written = some fork) :
    update.store.get? path =
        ((store.asObject.placeAt fork.shared).write (fork.there :: fork.thereAfter) value).lookup
          (fork.here :: fork.hereAfter) ∧
      store.get? path =
        (store.asObject.placeAt fork.shared).lookup (fork.here :: fork.hereAfter) := by
  obtain ⟨hpath, hwritten, -⟩ := Path.fork?_eq_some_iff.1 hfork
  have hne : path.segments ≠ [] := by simp [hpath]
  constructor
  · rw [get?_eq_lookup hne, asObject_set h, hpath, hwritten, Value.lookup_write_append]
  · rw [get?_eq_lookup hne, hpath, Value.lookup_append_cons]

end Store

end ScreenDoc
