import ScreenDoc.Proofs.Store.ReadLaw
import ScreenDoc.Proofs.Store.Subscription
import ScreenDoc.Proofs.Store.Written

/-!
# Writes that are refused

Before anything is written, the indices of the path are held against the lengths of the arrays they
lead into. The write itself enters one container after the other, and would have to stop where an
array had to be made longer than an array can be.

## Main definitions

- `Store.IsTooFar`, `Store.IsFirstTooFar` — an index that lies too far behind the end of its array
- `Value.writeWithin?` — a write that stops at an array that would get too long

## Main results

- `Store.find?_indexed_eq_some_iff`, `Store.find?_indexed_eq_none_iff` — the first array on a path
  that passes a test
- `Store.tooFar?_eq_some_iff`, `Store.tooFar?_eq_none_iff` — the check before a write
- `Value.writeWithin?_eq_write` — a write never stops on the way if its indices are near enough
- `Store.respond_setAt_of_ofText?` — when a write is refused, and what comes of it in either case
-/

namespace ScreenDoc

namespace Store

/-! ### The first array that passes a test -/

/-- The arrays that a path enters are tested from the outermost one inwards. -/
theorem find?_indexed_eq_some_iff (test : Path → Nat → Bool) (path array : Path) (i : Nat) :
    ((indexed path).find? fun entered => test entered.1 entered.2) = some (array, i) ↔
      ∃ depth, path.segments[depth]? = some (.index i) ∧ path.take depth = array ∧
        test array i = true ∧
        ∀ outer < depth, ∀ j, path.segments[outer]? = some (.index j) →
          test (path.take outer) j = false := by
  rw [indexed, List.find?_filterMap, Option.bind_eq_some_iff]
  simp only [List.find?_eq_some_iff_getElem, Prod.exists]
  constructor
  · rintro ⟨step, depth, ⟨htest, n, hn, hstep, hbefore⟩, hentered⟩
    rw [List.getElem_zipIdx, Nat.zero_add, Prod.mk.injEq] at hstep
    obtain ⟨hstep, rfl⟩ := hstep
    cases step with
    | key name => cases hentered
    | index j =>
      cases hentered
      refine ⟨n, ?_, rfl, htest, fun outer houter j hj => ?_⟩
      · rw [List.length_zipIdx] at hn
        rw [List.getElem?_eq_getElem hn, hstep]
      · have hpast := hbefore outer houter
        obtain ⟨hlt, hj⟩ := List.getElem?_eq_some_iff.1 hj
        rw [List.getElem_zipIdx, Nat.zero_add, hj] at hpast
        simpa using hpast
  · rintro ⟨depth, hstep, rfl, htest, hbefore⟩
    obtain ⟨hlt, hstep⟩ := List.getElem?_eq_some_iff.1 hstep
    refine ⟨.index i, depth, ⟨htest, depth, by rwa [List.length_zipIdx], ?_, ?_⟩, rfl⟩
    · rw [List.getElem_zipIdx, Nat.zero_add, hstep]
    · intro outer houter
      rw [List.getElem_zipIdx, Nat.zero_add]
      cases hj : path.segments[outer] with
      | key name => rfl
      | index j =>
        have hpast := hbefore outer houter j
          (by rw [List.getElem?_eq_getElem (Nat.lt_trans houter hlt), hj])
        simpa using hpast

/-- No array on a path passes a test if none does at any of its indices. -/
theorem find?_indexed_eq_none_iff (test : Path → Nat → Bool) (path : Path) :
    ((indexed path).find? fun entered => test entered.1 entered.2) = none ↔
      ∀ depth i, path.segments[depth]? = some (.index i) → test (path.take depth) i = false := by
  simp only [List.find?_eq_none, Prod.forall, mem_indexed_iff, Bool.not_eq_true]
  constructor
  · intro h depth i hstep
    exact h _ i ⟨depth, hstep, rfl⟩
  · rintro h array i ⟨depth, hstep, rfl⟩
    exact h depth i hstep

/-! ### The check before a write -/

/-- An index that lies too far behind the end of the array at the steps before it. -/
structure IsTooFar (store : Store) (path : Path) (depth i : Nat) : Prop where
  step : path.segments[depth]? = some (.index i)
  far : store.arrayLength (path.take depth) + maxIndexGap < i

/-- The first index of a path that lies too far behind the end of its array. -/
structure IsFirstTooFar (store : Store) (path : Path) (depth i : Nat) : Prop
    extends store.IsTooFar path depth i where
  first : ∀ outer < depth, ∀ j, ¬ store.IsTooFar path outer j

/-- The error that names an index of a path and the length of its array. -/
def indexError (store : Store) (path : Path) (depth i : Nat) : AccessError :=
  .indexOutOfRange path.text i (store.arrayLength (path.take depth))

variable {store : Store} {path : Path} {value : Value}

theorem tooFar?_eq_none_iff :
    store.tooFar? path = none ↔ ∀ depth i, ¬ store.IsTooFar path depth i := by
  rw [tooFar?, Option.map_eq_none_iff]
  refine (find?_indexed_eq_none_iff
    (fun array i => store.arrayLength array + maxIndexGap < i) path).trans ?_
  simp only [decide_eq_false_iff_not]
  exact ⟨fun h depth i hfar => h depth i hfar.step hfar.far,
    fun h depth i hstep hfar => h depth i ⟨hstep, hfar⟩⟩

/-- The check finds the first index that lies too far, and names it. -/
theorem tooFar?_eq_some_iff {error : AccessError} :
    store.tooFar? path = some error ↔
      ∃ depth i, store.IsFirstTooFar path depth i ∧ error = store.indexError path depth i := by
  rw [tooFar?, Option.map_eq_some_iff]
  have hfind := find?_indexed_eq_some_iff
    (fun array i => store.arrayLength array + maxIndexGap < i) path
  simp only [Prod.exists, hfind, decide_eq_true_eq, decide_eq_false_iff_not]
  constructor
  · rintro ⟨array, i, ⟨depth, hstep, rfl, hfar, hfirst⟩, rfl⟩
    refine ⟨depth, i, ⟨⟨hstep, hfar⟩, fun outer houter j hj => ?_⟩, rfl⟩
    exact hfirst outer houter j hj.step hj.far
  · rintro ⟨depth, i, hfirst, rfl⟩
    refine ⟨_, i, ⟨depth, hfirst.step, rfl, hfirst.far, fun outer houter j hj hfar => ?_⟩, rfl⟩
    exact hfirst.first outer houter j ⟨hj, hfar⟩

/-- A write whose indices are all near enough goes through, and makes one change. -/
theorem exists_set_of_near (value : Value) (hnear : ∀ depth i, ¬ store.IsTooFar path depth i)
    (hrooted : path.firstKey?.isSome) :
    ∃ after, store.set path value =
      .ok ⟨(), after, [⟨path.text, store.get? path, value⟩]⟩ := by
  obtain ⟨segments⟩ := path
  match segments, hrooted with
  | .key name :: rest, _ =>
    rw [set, tooFar?_eq_none_iff.2 hnear]
    exact ⟨_, rfl⟩

end Store

/-! ### The way of a write -/

namespace Value

/-- Writes a value at the end of a path, like `Value.write`, and stops at an index for which an
array would have to be made longer than an array can be. -/
def writeWithin? (limit : Nat) : Value → List Segment → Value → Option Value
  | _, [], new => some new
  | value, .key name :: rest, new =>
    let fields := value.fieldsOrNone
    (writeWithin? limit ((Fields.get? fields name).getD .null) rest new).map fun child =>
      .object (Fields.insert fields name child)
  | value, .index i :: rest, new =>
    let items := value.itemsOrNone
    if items.length ≤ i ∧ limit ≤ i then none
    else (writeWithin? limit (items[i]?.getD .null) rest new).map fun child =>
      .array (setItem items i child)

/-- A write does not stop if every index behind the end of its array is one that an array can have.
The arrays that count are those that are there before the write. -/
theorem writeWithin?_eq_write {limit : Nat} {steps : List Segment} (value new : Value)
    (hroom : ∀ depth i, steps[depth]? = some (.index i) →
      (value.placeAt (steps.take depth)).itemsOrNone.length ≤ i → i < limit) :
    value.writeWithin? limit steps new = some (value.write steps new) := by
  induction steps generalizing value with
  | nil => rfl
  | cons step rest ih =>
    have hrest := ih (value.placeAt [step]) fun depth i hstep hlength =>
      hroom (depth + 1) i hstep (by rwa [List.take_succ_cons, placeAt_cons])
    cases step with
    | key name =>
      rw [write_key, writeWithin?]
      simp only [placeAt, lookup_key, lookup_nil, Option.bind_fun_some] at hrest ⊢
      rw [hrest, Option.map_some]
    | index i =>
      -- The array at this index is the one that the value holds before the write.
      have hnear : ¬ (value.itemsOrNone.length ≤ i ∧ limit ≤ i) := by
        rintro ⟨hlength, hlimit⟩
        exact absurd (hroom 0 i rfl (by rwa [List.take_zero, placeAt_nil])) (Nat.not_lt.2 hlimit)
      rw [write_index, writeWithin?]
      simp only [placeAt, lookup_index, lookup_nil, Option.bind_fun_some] at hrest ⊢
      rw [if_neg hnear, hrest, Option.map_some]

end Value

namespace Store

variable {store : Store} {path : Path}

/-- After the check, a write never stops on its way, if arrays can be longer than those that it
enters by more than the gap that the check allows. -/
theorem writeWithin?_asObject_of_near {limit : Nat} (value : Value)
    (hnear : ∀ depth i, ¬ store.IsTooFar path depth i)
    (hlimit : ∀ depth, store.arrayLength (path.take depth) + maxIndexGap < limit) :
    store.asObject.writeWithin? limit path.segments value =
      some (store.asObject.write path.segments value) := by
  apply Value.writeWithin?_eq_write
  intro depth i hstep _
  have hgap : i ≤ store.arrayLength (path.take depth) + maxIndexGap :=
    Nat.not_lt.1 fun hfar => hnear depth i ⟨hstep, hfar⟩
  exact Nat.lt_of_le_of_lt hgap (hlimit depth)

/-- What comes of a write whose first index too far is known. -/
theorem respond_setAt_of_isFirstTooFar {depth i : Nat} (value : Value)
    (h : store.IsFirstTooFar path depth i) :
    store.respond (.setAt path value) =
      ⟨store, .setAt path value, .failed (store.indexError path depth i), [], store⟩ := by
  have hcheck := tooFar?_eq_some_iff.2 ⟨depth, i, h, rfl⟩
  rw [respond, outcome, set, hcheck]
  rfl

/-- What comes of a write with no index too far. -/
theorem respond_setAt_of_near (value : Value) (hnear : ∀ depth i, ¬ store.IsTooFar path depth i)
    (hrooted : path.firstKey?.isSome) :
    ∃ after, store.respond (.setAt path value) =
        ⟨store, .setAt path value, .done,
          store.subscribers.map fun id => (id, ⟨path.text, store.get? path, value⟩), after⟩ ∧
      after.get? path = some value ∧
      after.asObject = store.asObject.write path.segments value := by
  obtain ⟨after, hset⟩ := exists_set_of_near value hnear hrooted
  refine ⟨after, ?_, ?_, asObject_set hset⟩
  · rw [respond, outcome, hset]
    exact congrArg (Moment.mk _ _ _ · _) (List.append_nil _)
  · rw [get?_set_within hset (List.append_nil _).symm, Value.lookup_nil]

/-- A write to a path is refused if an index lies too far behind the end of the array that it leads
into, and only then. The first such index is named, the state stays as it is, and nobody is told.
Otherwise the value is written without a stop on the way, and everybody is told. -/
theorem respond_setAt_of_ofText? (store : Store) {text : String} {path : Path} (value : Value)
    (hpath : Path.ofText? text = some path) :
    ((∃ error, (store.respond (.setAt path value)).reply = .failed error) ↔
      ∃ depth i, store.IsTooFar path depth i) ∧
    ((∃ depth i, store.IsTooFar path depth i) →
      ∃ depth i, store.IsFirstTooFar path depth i ∧
        store.respond (.setAt path value) =
          ⟨store, .setAt path value,
            .failed (.indexOutOfRange path.text i (store.arrayLength (path.take depth))), [],
            store⟩) ∧
    ((∀ depth i, ¬ store.IsTooFar path depth i) →
      ∃ after, store.respond (.setAt path value) =
          ⟨store, .setAt path value, .done,
            store.subscribers.map fun id => (id, ⟨path.text, store.get? path, value⟩), after⟩ ∧
        after.get? path = some value ∧
        ∀ limit, (∀ depth, store.arrayLength (path.take depth) + maxIndexGap < limit) →
          store.asObject.writeWithin? limit path.segments value = some after.asObject) := by
  have hrooted : path.firstKey?.isSome := (Path.written_of_ofChars? hpath).1.rooted
  have hrefused (hfar : ∃ depth i, store.IsTooFar path depth i) :
      ∃ depth i, store.IsFirstTooFar path depth i ∧ store.respond (.setAt path value) =
        ⟨store, .setAt path value, .failed (store.indexError path depth i), [], store⟩ := by
    cases hcheck : store.tooFar? path with
    | none =>
      obtain ⟨depth, i, hfar⟩ := hfar
      exact absurd hfar (tooFar?_eq_none_iff.1 hcheck depth i)
    | some error =>
      obtain ⟨depth, i, hfirst, -⟩ := tooFar?_eq_some_iff.1 hcheck
      exact ⟨depth, i, hfirst, respond_setAt_of_isFirstTooFar value hfirst⟩
  refine ⟨⟨?_, ?_⟩, hrefused, ?_⟩
  · -- A write with no index too far is done, so it has not failed.
    rintro ⟨error, hreply⟩
    by_contra hnear
    simp only [not_exists] at hnear
    obtain ⟨after, hrespond, -⟩ := respond_setAt_of_near value hnear hrooted
    rw [hrespond] at hreply
    cases hreply
  · intro hfar
    obtain ⟨depth, i, -, hrespond⟩ := hrefused hfar
    exact ⟨_, congrArg Moment.reply hrespond⟩
  · intro hnear
    obtain ⟨after, hrespond, hread, hwrite⟩ := respond_setAt_of_near value hnear hrooted
    refine ⟨after, hrespond, hread, fun limit hlimit => ?_⟩
    rw [hwrite, writeWithin?_asObject_of_near value hnear hlimit]

/-- One subscriber watches an array of two items at `rows`. A write at `rows[1027]` is refused, and
one at `rows[3]` goes through and is told. -/
theorem respond_setAt_rows :
    boxAndRows.subscribe.store.respond (.setAt ⟨[.key "rows", .index 1027]⟩ .null) =
        ⟨boxAndRows.subscribe.store, .setAt ⟨[.key "rows", .index 1027]⟩ .null,
          .failed (.indexOutOfRange "rows[1027]" 1027 2), [], boxAndRows.subscribe.store⟩ ∧
      ∃ after, boxAndRows.subscribe.store.respond
          (.setAt ⟨[.key "rows", .index 3]⟩ (.bool true)) =
        ⟨boxAndRows.subscribe.store, .setAt ⟨[.key "rows", .index 3]⟩ (.bool true), .done,
          [(0, ⟨"rows[3]", none, .bool true⟩)], after⟩ ∧
        after.get? ⟨[.key "rows", .index 3]⟩ = some (.bool true) := by
  constructor
  · have hpath : Path.ofText? "rows[1027]" = some ⟨[.key "rows", .index 1027]⟩ := by
      decide +kernel
    obtain ⟨depth, i, hfirst, hrespond⟩ :=
      (respond_setAt_of_ofText? boxAndRows.subscribe.store .null hpath).2.1
        ⟨1, 1027, rfl, by decide +kernel⟩
    have hstep := hfirst.step
    match depth, hstep with
    | 0, hstep => cases hstep
    | 1, hstep =>
      cases hstep
      exact hrespond
  · have hpath : Path.ofText? " rows[3]" = some ⟨[.key "rows", .index 3]⟩ := by decide +kernel
    have hnear : boxAndRows.subscribe.store.tooFar? ⟨[.key "rows", .index 3]⟩ = none := by
      decide +kernel
    obtain ⟨after, hrespond, hread, -⟩ :=
      (respond_setAt_of_ofText? boxAndRows.subscribe.store (.bool true) hpath).2.2
        (tooFar?_eq_none_iff.1 hnear)
    exact ⟨after, hrespond, hread⟩

end Store

end ScreenDoc
