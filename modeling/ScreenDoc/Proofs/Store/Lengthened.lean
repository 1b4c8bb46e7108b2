import ScreenDoc.Proofs.Store.Refusal

/-!
# The array that a write lengthens

Which array a write is going to lengthen is read off the lengths before it. The write turns into
arrays and objects whatever it enters, so the lengths after it follow from the steps of the path.

## Main results

- `Store.arrayLength_set_beforeIndex`, `Store.arrayLength_set_beforeKey` — the length of an array
  on the way of a write, after it
- `Store.growth?_eq_some_iff`, `Store.growth?_eq_none_iff` — what is read off before a write
- `Store.growth?_predicts_set` — it is what the write does
- `Store.exists_set_of_get?` — what is there can be replaced
-/

namespace ScreenDoc

/-- A path is its steps before a step, the step, and the steps after it. -/
theorem Path.segments_eq_take_append {path : Path} {depth : Nat} {step : Segment}
    (hstep : path.segments[depth]? = some step) :
    path.segments = (path.take depth).segments ++ step :: path.segments.drop (depth + 1) := by
  obtain ⟨hlt, rfl⟩ := List.getElem?_eq_some_iff.1 hstep
  rw [List.getElem_cons_drop]
  exact (List.take_append_drop depth path.segments).symm

namespace Store

variable {store : Store} {path : Path} {value : Value} {update : Update Unit} {depth : Nat}

theorem arrayLength_nil (store : Store) : store.arrayLength ⟨[]⟩ = 0 := rfl

/-! ### Lengths after a write -/

/-- An array that a write enters at an index is afterwards as long as before, or just long enough
for the index. -/
theorem arrayLength_set_beforeIndex {i : Nat} (h : store.set path value = .ok update)
    (hstep : path.segments[depth]? = some (.index i)) :
    update.store.arrayLength (path.take depth) =
      max (store.arrayLength (path.take depth)) (i + 1) := by
  have hwritten := Path.segments_eq_take_append hstep
  have hne : (path.take depth).segments ≠ [] := by
    -- The first step of the path is a key.
    intro hnil
    obtain ⟨name, rest, hkey⟩ := exists_key_of_set h
    rw [hnil, hkey] at hwritten
    cases hwritten
  obtain ⟨items, hitems, hlength⟩ := get?_set_aboveIndex h hne hwritten
  rw [← hlength, arrayLength, hitems]
  rfl

/-- Where a write goes on with a key, there is no array afterwards. -/
theorem arrayLength_set_beforeKey {name : String} (h : store.set path value = .ok update)
    (hstep : path.segments[depth]? = some (.key name)) :
    update.store.arrayLength (path.take depth) = 0 := by
  by_cases hnil : (path.take depth).segments = []
  · exact (congrArg (fun segments => update.store.arrayLength ⟨segments⟩) hnil).trans
      (arrayLength_nil _)
  · obtain ⟨fields, hfields, -⟩ :=
      get?_set_aboveKey h hnil (Path.segments_eq_take_append hstep)
    rw [arrayLength, hfields]
    rfl

/-! ### Values that are replaced -/

/-- Where a path leads to a value, the arrays on its way reach past its indices. -/
theorem lt_arrayLength_of_get? {i : Nat} (hvalue : (store.get? path).isSome)
    (hstep : path.segments[depth]? = some (.index i)) :
    i < store.arrayLength (path.take depth) := by
  have hsplit := Path.segments_eq_take_append hstep
  have hne : path.segments ≠ [] := by
    rw [hsplit]
    exact List.append_ne_nil_of_right_ne_nil _ (List.cons_ne_nil _ _)
  rw [get?_eq_lookup hne, hsplit, Value.lookup_append_cons, Value.lookup_index] at hvalue
  by_cases hnil : (path.take depth).segments = []
  · -- Above all keys there is no array.
    rw [hnil, Value.placeAt_nil] at hvalue
    cases hvalue
  · obtain ⟨value, hbind⟩ := Option.isSome_iff_exists.1 hvalue
    obtain ⟨item, hitem, -⟩ := Option.bind_eq_some_iff.1 hbind
    rw [arrayLength_eq _ _ hnil]
    exact (List.getElem?_eq_some_iff.1 hitem).1

/-- What is there can be replaced. -/
theorem exists_set_of_get? (hvalue : (store.get? path).isSome) (new : Value) :
    ∃ update, store.set path new = .ok update := by
  have hrooted : path.firstKey?.isSome := by
    by_contra hnot
    rw [get?_eq_none_of_not_rooted store hnot] at hvalue
    cases hvalue
  have hnear : ∀ depth i, ¬ store.IsTooFar path depth i := by
    intro depth i hfar
    have hinside := lt_arrayLength_of_get? hvalue hfar.step
    have hbehind := hfar.far
    omega
  obtain ⟨after, hset⟩ := exists_set_of_near new hnear hrooted
  exact ⟨_, hset⟩

/-! ### What is read off before a write -/

theorem growth?_eq_none_iff :
    store.growth? path = none ↔
      ∀ depth i, path.segments[depth]? = some (.index i) →
        i < store.arrayLength (path.take depth) := by
  rw [growth?, Option.map_eq_none_iff]
  refine (find?_indexed_eq_none_iff (fun array i => store.arrayLength array ≤ i) path).trans ?_
  simp only [decide_eq_false_iff_not, Nat.not_le]

theorem growth?_eq_some_iff {grown : Path} :
    store.growth? path = some grown ↔
      ∃ depth i, path.segments[depth]? = some (.index i) ∧ path.take depth = grown ∧
        store.arrayLength grown ≤ i ∧
        ∀ outer < depth, ∀ j, path.segments[outer]? = some (.index j) →
          j < store.arrayLength (path.take outer) := by
  rw [growth?, Option.map_eq_some_iff]
  have hfind := find?_indexed_eq_some_iff (fun array i => store.arrayLength array ≤ i) path
  simp only [Prod.exists, hfind, decide_eq_true_eq, decide_eq_false_iff_not, Nat.not_le]
  constructor
  · rintro ⟨array, i, ⟨depth, hfound⟩, rfl⟩
    exact ⟨depth, i, hfound⟩
  · rintro ⟨depth, i, hfound⟩
    exact ⟨grown, i, ⟨depth, hfound⟩, rfl⟩

/-! ### The prediction -/

/-- What is read off before a write is what the write does. Nothing is read off if the write leaves
the arrays that it enters at their lengths. Otherwise it is the outermost array that the write
lengthens, and the write makes it just long enough for its index. -/
theorem growth?_predicts_set (h : store.set path value = .ok update) :
    (store.growth? path = none ↔
      ∀ depth i, path.segments[depth]? = some (.index i) →
        update.store.arrayLength (path.take depth) = store.arrayLength (path.take depth)) ∧
    ∀ grown, store.growth? path = some grown →
      ∃ depth i, grown = path.take depth ∧ path.segments[depth]? = some (.index i) ∧
        store.arrayLength grown < update.store.arrayLength grown ∧
        update.store.arraySize? grown = some (i + 1) ∧
        ∀ shorter < depth, update.store.arrayLength (path.take shorter) ≤
          store.arrayLength (path.take shorter) := by
  constructor
  · rw [growth?_eq_none_iff]
    refine forall_congr' fun depth => forall_congr' fun i => forall_congr' fun hstep => ?_
    rw [arrayLength_set_beforeIndex h hstep]
    omega
  · intro grown hgrown
    obtain ⟨depth, i, hstep, rfl, hbehind, houter⟩ := growth?_eq_some_iff.1 hgrown
    have hlength := arrayLength_set_beforeIndex h hstep
    rw [Nat.max_eq_right (Nat.le_succ_of_le hbehind)] at hlength
    refine ⟨depth, i, rfl, hstep, by omega, ?_, fun shorter hshorter => ?_⟩
    · rw [arraySize?_eq_of_lt (i := i) (by omega), hlength]
    · have hlt : depth < path.segments.length := (List.getElem?_eq_some_iff.1 hstep).1
      have hthere := List.getElem?_eq_getElem (Nat.lt_trans hshorter hlt)
      cases hkind : path.segments[shorter] with
      | key name =>
        rw [hkind] at hthere
        rw [arrayLength_set_beforeKey h hthere]
        exact Nat.zero_le _
      | index j =>
        rw [hkind] at hthere
        rw [arrayLength_set_beforeIndex h hthere]
        have hinside := houter shorter hshorter j hthere
        omega

/-- A write at `rows[3].cells[0]` is going to lengthen the array of two items at `rows`, and it
makes it four items long. A write at `rows[1]` lengthens nothing. -/
theorem growth?_predicts_set_rows :
    (∃ update, boxAndRows.set ⟨[.key "rows", .index 3, .key "cells", .index 0]⟩ .null = .ok update ∧
      boxAndRows.growth? ⟨[.key "rows", .index 3, .key "cells", .index 0]⟩ =
        some ⟨[.key "rows"]⟩ ∧
      update.store.arraySize? ⟨[.key "rows"]⟩ = some 4) ∧
    ∃ update, boxAndRows.set ⟨[.key "rows", .index 1]⟩ .null = .ok update ∧
      boxAndRows.growth? ⟨[.key "rows", .index 1]⟩ = none ∧
      update.store.arrayLength ⟨[.key "rows"]⟩ = 2 := by
  constructor
  · have hnear :
        boxAndRows.tooFar? ⟨[.key "rows", .index 3, .key "cells", .index 0]⟩ = none := by
      decide +kernel
    obtain ⟨update, hset⟩ := exists_set_of_tooFar?_eq_none .null hnear rfl
    obtain ⟨depth, i, hgrown, hstep, -, hsize, -⟩ := (growth?_predicts_set hset).2 _ rfl
    refine ⟨update, hset, rfl, ?_⟩
    match depth, hgrown, hstep with
    | 1, _, hstep =>
      cases hstep
      exact hsize
  · have hnear : boxAndRows.tooFar? ⟨[.key "rows", .index 1]⟩ = none := by decide +kernel
    obtain ⟨update, hset⟩ := exists_set_of_tooFar?_eq_none .null hnear rfl
    have hnone : boxAndRows.growth? ⟨[.key "rows", .index 1]⟩ = none := rfl
    exact ⟨update, hset, hnone, (growth?_predicts_set hset).1.1 hnone 1 1 rfl⟩

end Store

end ScreenDoc
