import ScreenDoc.Proofs.Store.Unseen

/-!
# The law of reading after a write

What a path leads to after a write follows from where the path stands to the written one. It goes on
from the written place, or it ends above that place, or the two paths part, at two keys, at two
indices, or at a key and an index. `Path.exists_fork?` says that there is no other way.

## Main definitions

- `Store.ReadLaw` — what is found at a path after a write, by where it stands to the written one

## Main results

- `Store.readLaw_set` — every write obeys the law, for every path
-/

namespace ScreenDoc

theorem Value.lookup_null (steps : List Segment) :
    Value.null.lookup steps = if steps = [] then some .null else none := by
  cases steps with
  | nil => rw [lookup_nil, if_pos rfl]
  | cons segment rest => rw [lookup_null_cons, if_neg (List.cons_ne_nil _ _)]

theorem Fields.contains_insert {α : Type} (fields : List (String × α)) (name other : String)
    (value : α) :
    contains (insert fields name value) other ↔ other = name ∨ contains fields other := by
  rw [contains, contains, get?_insert]
  by_cases h : name = other
  · simp [h]
  · simp [h, Ne.symm h]

namespace Store

/-- The fields of the object at a path, none where there is no object. -/
def fieldsAt (store : Store) (path : Path) : List (String × Value) :=
  ((store.get? path).bind Value.object?).getD []

theorem fieldsAt_eq (store : Store) (path : Path) (h : path.segments ≠ []) :
    store.fieldsAt path = (store.asObject.placeAt path.segments).fieldsOrNone := by
  rw [fieldsAt, get?_eq_lookup h, Value.placeAt, Value.fieldsOrNone]
  cases store.asObject.lookup path.segments with
  | none => rfl
  | some value => rfl

/-- What is found at a path after a value was written to a state at another path. -/
structure ReadLaw (store : Store) (written : Path) (value : Value) (path : Path)
    (found : Option Value) : Prop where
  /-- At the written place and below it lies what was written. -/
  within : ∀ rest, path.segments = written.segments ++ rest → found = value.lookup rest
  /-- A path that takes another key finds what it found before. -/
  otherKey : ∀ shared name after other otherAfter,
    path.fork? written = some ⟨shared, .key name, after, .key other, otherAfter⟩ →
      found = store.get? path
  /-- A path that takes another index finds what it found before, or the null that fills the gap
  between the old end of the array and the written item. -/
  otherIndex : ∀ shared j after i otherAfter,
    path.fork? written = some ⟨shared, .index j, after, .index i, otherAfter⟩ →
      found = if store.arrayLength ⟨shared⟩ ≤ j ∧ j < i then
          if after = [] then some .null else none
        else store.get? path
  /-- A path that parts at a key from an index, or at an index from a key, finds nothing. -/
  otherKind : path.mixesWith written = true → found = none
  /-- Above the written place lies an object if the write goes on with a key. It has one field more
  than before, unless there was a field of this name. -/
  aboveKey : ∀ name rest, written.segments = path.segments ++ .key name :: rest →
    ∃ fields, found = some (.object fields) ∧
      ∀ other, Fields.contains fields other ↔
        other = name ∨ Fields.contains (store.fieldsAt path) other
  /-- Above the written place lies an array if the write goes on with an index. It is as long as
  before, or just long enough for the written item. -/
  aboveIndex : ∀ i rest, written.segments = path.segments ++ .index i :: rest →
    ∃ items, found = some (.array items) ∧
      items.length = max (store.arrayLength path) (i + 1)

variable {store : Store} {path written : Path} {value : Value} {update : Update Unit}

theorem get?_set_within {rest : List Segment} (h : store.set written value = .ok update)
    (hpath : path.segments = written.segments ++ rest) :
    update.store.get? path = value.lookup rest := by
  obtain ⟨name, steps, hkey⟩ := exists_key_of_set h
  have hne : path.segments ≠ [] := by simp [hpath, hkey]
  -- All steps of the written path are shared, so what is left of the write is the value itself.
  have hlookup := Value.lookup_write_append store.asObject written.segments [] rest value
  rw [List.append_nil, Value.write] at hlookup
  rw [get?_eq_lookup hne, asObject_set h, hpath, hlookup]

theorem get?_set_otherKey {shared after otherAfter : List Segment} {name other : String}
    (h : store.set written value = .ok update)
    (hfork : path.fork? written = some ⟨shared, .key name, after, .key other, otherAfter⟩) :
    update.store.get? path = store.get? path := by
  obtain ⟨hafter, hbefore⟩ := get?_set_of_fork h hfork
  have hname : name ≠ other := fun heq =>
    (Path.fork?_eq_some_iff.1 hfork).2.2 (congrArg Segment.key heq)
  rw [hafter, hbefore, Value.lookup_write_key _ _ _ _ hname]

theorem get?_set_otherIndex {shared after otherAfter : List Segment} {i j : Nat}
    (h : store.set written value = .ok update)
    (hfork : path.fork? written = some ⟨shared, .index j, after, .index i, otherAfter⟩) :
    update.store.get? path =
      if store.arrayLength ⟨shared⟩ ≤ j ∧ j < i then if after = [] then some .null else none
      else store.get? path := by
  obtain ⟨hafter, hbefore⟩ := get?_set_of_fork h hfork
  have hindex : j ≠ i := fun heq =>
    (Path.fork?_eq_some_iff.1 hfork).2.2 (congrArg Segment.index heq)
  have hlength := arrayLength_eq store ⟨shared⟩ (shared_ne_nil_of_set h hfork rfl)
  rw [hafter, hbefore, Value.lookup_write_index _ _ _ _ hindex, hlength, Value.lookup_null]

theorem get?_set_aboveKey {name : String} {rest : List Segment}
    (h : store.set written value = .ok update) (hpath : path.segments ≠ [])
    (hwritten : written.segments = path.segments ++ .key name :: rest) :
    ∃ fields, update.store.get? path = some (.object fields) ∧
      ∀ other, Fields.contains fields other ↔
        other = name ∨ Fields.contains (store.fieldsAt path) other := by
  have hget := get?_set_of_append h hwritten hpath
  rw [Value.write_key, ← fieldsAt_eq store path hpath] at hget
  exact ⟨_, hget, fun other => Fields.contains_insert _ _ _ _⟩

theorem get?_set_aboveIndex {i : Nat} {rest : List Segment}
    (h : store.set written value = .ok update) (hpath : path.segments ≠ [])
    (hwritten : written.segments = path.segments ++ .index i :: rest) :
    ∃ items, update.store.get? path = some (.array items) ∧
      items.length = max (store.arrayLength path) (i + 1) := by
  have hget := get?_set_of_append h hwritten hpath
  rw [Value.write_index] at hget
  refine ⟨_, hget, ?_⟩
  rw [Value.length_setItem, arrayLength_eq store path hpath]

/-- Every write obeys the law, for every path. A path that a text writes has at least one step. -/
theorem readLaw_set (h : store.set written value = .ok update) (hpath : path.segments ≠ []) :
    store.ReadLaw written value path (update.store.get? path) where
  within _ := get?_set_within h
  otherKey _ _ _ _ _ := get?_set_otherKey h
  otherIndex _ _ _ _ _ := get?_set_otherIndex h
  otherKind := get?_set_of_mixesWith h
  aboveKey _ _ := get?_set_aboveKey h hpath
  aboveIndex _ _ := get?_set_aboveIndex h hpath

/-- A write at `rows[3].title`, behind the end of the array of two items at `rows`: the array grows
to four items, of which the third one is null, and what lay elsewhere stays. -/
theorem readLaw_set_rows :
    ∃ update, boxAndRows.set ⟨[.key "rows", .index 3, .key "title"]⟩ (.bool true) = .ok update ∧
      update.store.get? ⟨[.key "rows", .index 3, .key "title"]⟩ = some (.bool true) ∧
      update.store.get? ⟨[.key "rows", .index 2]⟩ = some .null ∧
      update.store.get? ⟨[.key "rows", .key "first"]⟩ = none ∧
      update.store.get? ⟨[.key "box", .key "lid"]⟩ =
        boxAndRows.get? ⟨[.key "box", .key "lid"]⟩ ∧
      ∃ items, update.store.get? ⟨[.key "rows"]⟩ = some (.array items) ∧ items.length = 4 := by
  have hnear : boxAndRows.tooFar? ⟨[.key "rows", .index 3, .key "title"]⟩ = none := by
    decide +kernel
  obtain ⟨update, hset⟩ := exists_set_of_tooFar?_eq_none (.bool true) hnear rfl
  have law : ∀ path : Path, path.segments ≠ [] →
      boxAndRows.ReadLaw ⟨[.key "rows", .index 3, .key "title"]⟩ (.bool true) path
        (update.store.get? path) := fun _ => readLaw_set hset
  refine ⟨update, hset, ?_, ?_, ?_, ?_, ?_⟩
  · exact (law _ (List.cons_ne_nil _ _)).within [] rfl
  · exact (law ⟨[.key "rows", .index 2]⟩ (List.cons_ne_nil _ _)).otherIndex _ _ _ _ _ rfl
  · exact (law _ (List.cons_ne_nil _ _)).otherKind rfl
  · exact (law _ (List.cons_ne_nil _ _)).otherKey _ _ _ _ _ rfl
  · exact (law ⟨[.key "rows"]⟩ (List.cons_ne_nil _ _)).aboveIndex 3 [.key "title"] rfl

end Store

end ScreenDoc
