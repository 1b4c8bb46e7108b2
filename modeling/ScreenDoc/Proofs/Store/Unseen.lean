import ScreenDoc.Proofs.Store.Write
import ScreenDoc.View.Dependency

/-!
# Writes that a dependency does not see

Whether a write concerns a dependency is decided by the two paths alone. What the write does to the
dependency also depends on what the state holds: on its way, a write replaces what is no container
of the kind that it needs, and fills arrays up with nulls.

## Main definitions

- `Store.displaces` — the write takes away the value at a path
- `Store.pads` — the write puts a null at a path
- `Store.reshapes` — the write takes away the array at a path

## Main results

- `Store.get?_set_eq_iff` — when a write that does not overlap a path leaves its value as it is
- `Store.arraySize?_set_eq_iff` — when a write that does not reach an array leaves its length as it
  is
- `Store.unconcerned_write_unseen_iff` — both, in the words of dependencies
-/

namespace ScreenDoc

namespace Path

/-- Whether two paths part at a key and an index. -/
def mixesWith (path other : Path) : Bool :=
  (path.fork? other).any Fork.isMixed

/-- Whether a path leads on from another one with a key. -/
def entersByKey (path start : Path) : Bool :=
  path.startsWith start && (path.segments.drop start.length).head?.any Segment.isKey

end Path

namespace Store

/-- The length of the array at a path, if there is one. -/
def arraySize? (store : Store) (path : Path) : Option Nat :=
  ((store.get? path).bind Value.array?).map List.length

/-- Whether a write takes away the value at a path, because it needs a container of the other kind
where the two part. -/
def displaces (store : Store) (written path : Path) : Bool :=
  (store.get? path).isSome && path.mixesWith written

/-- Whether a write puts a null at a path, in the gap between the end of an array and the written
index. -/
def pads (store : Store) (written path : Path) : Bool :=
  match path.fork? written with
  | some ⟨shared, .index j, [], .index i, _⟩ => store.arrayLength ⟨shared⟩ ≤ j && j < i
  | _ => false

/-- Whether a write takes away the array at a path, because it needs an object there or further
above. -/
def reshapes (store : Store) (written path : Path) : Bool :=
  (store.arraySize? path).isSome && (path.mixesWith written || written.entersByKey path)

/-! ### Values -/

/-- A write takes away whatever parts from it at a key and an index. -/
theorem get?_set_of_mixesWith {store : Store} {path written : Path} {value : Value}
    {update : Update Unit} (h : store.set written value = .ok update)
    (hmix : path.mixesWith written = true) : update.store.get? path = none := by
  rw [Path.mixesWith, Option.any_eq_true] at hmix
  obtain ⟨fork, hfork, hkinds⟩ := hmix
  rw [(get?_set_of_fork h hfork).1]
  apply Value.lookup_write_mixed
  simpa [Fork.isMixed] using hkinds

/-- A slot that is padded lies in an array, so its path does not part from the written one at a key
and an index. -/
theorem pads_eq_false_of_mixesWith {store : Store} {path written : Path}
    (h : path.mixesWith written = true) : store.pads written path = false := by
  unfold pads
  split
  · next hfork => simp [Path.mixesWith, hfork, Fork.isMixed, Segment.isKey] at h
  · rfl

/-- Paths that part at an index share a step, since the written one starts with a key. -/
theorem shared_ne_nil_of_set {store : Store} {path written : Path} {value : Value}
    {update : Update Unit} {fork : Fork} {i : Nat} (h : store.set written value = .ok update)
    (hfork : path.fork? written = some fork) (hthere : fork.there = .index i) :
    fork.shared ≠ [] := by
  intro hnil
  obtain ⟨-, hwritten, -⟩ := Path.fork?_eq_some_iff.1 hfork
  obtain ⟨name, rest, hkey⟩ := exists_key_of_set h
  rw [hwritten, hnil, hthere] at hkey
  cases hkey

/-- A write at a path that parts from another one at two indices leaves the value there as it is,
unless it pads it. -/
theorem get?_set_eq_iff_of_indices {store : Store} {path written : Path} {value : Value}
    {update : Update Unit} {shared after thereAfter : List Segment} {i j : Nat}
    (h : store.set written value = .ok update)
    (hfork : path.fork? written = some ⟨shared, .index j, after, .index i, thereAfter⟩) :
    update.store.get? path = store.get? path ↔ store.pads written path = false := by
  obtain ⟨hafter, hbefore⟩ := get?_set_of_fork h hfork
  have hij : j ≠ i := fun heq => (Path.fork?_eq_some_iff.1 hfork).2.2 (congrArg _ heq)
  have hlen := arrayLength_eq store ⟨shared⟩ (shared_ne_nil_of_set h hfork rfl)
  have hpads : store.pads written path =
      (after.isEmpty && (store.arrayLength ⟨shared⟩ ≤ j && j < i)) := by
    cases after <;> simp [pads, hfork]
  rw [hafter, hbefore, Value.lookup_write_index _ _ _ _ hij, hpads, hlen]
  by_cases hgap : (store.asObject.placeAt shared).itemsOrNone.length ≤ j ∧ j < i
  · -- There was nothing before. Now there is null, and still nothing below it.
    rw [if_pos hgap, Value.lookup_index, List.getElem?_eq_none hgap.1, Option.bind_none]
    cases after with
    | nil => simp [hgap.1, hgap.2]
    | cons segment after => simp [Value.lookup_null_cons]
  · rw [if_neg hgap]
    simp only [not_and, Nat.not_lt] at hgap
    simpa using fun _ => hgap

/-- A write at a path that does not overlap another one leaves the value there as it is, unless it
takes it away or pads it. -/
theorem get?_set_eq_iff {store : Store} {path written : Path} {value : Value}
    {update : Update Unit} (h : store.set written value = .ok update)
    (hdisjoint : path.overlaps written = false) :
    update.store.get? path = store.get? path ↔
      store.displaces written path = false ∧ store.pads written path = false := by
  by_cases hmix : path.mixesWith written = true
  · rw [get?_set_of_mixesWith h hmix, displaces, hmix, Bool.and_true,
      pads_eq_false_of_mixesWith hmix]
    cases store.get? path <;> simp
  · rw [Bool.not_eq_true] at hmix
    rw [displaces, hmix, Bool.and_false]
    obtain ⟨⟨shared, here, after, there, thereAfter⟩, hfork⟩ := Path.exists_fork? hdisjoint
    simp only [Path.mixesWith, hfork, Option.any_some, Fork.isMixed] at hmix
    cases here with
    | key name =>
      cases there with
      | key other =>
        obtain ⟨hafter, hbefore⟩ := get?_set_of_fork h hfork
        have hname : name ≠ other :=
          fun heq => (Path.fork?_eq_some_iff.1 hfork).2.2 (congrArg _ heq)
        rw [hafter, hbefore, Value.lookup_write_key _ _ _ _ hname]
        simp [pads, hfork]
      | index i => simp [Segment.isKey] at hmix
    | index j =>
      cases there with
      | key other => simp [Segment.isKey] at hmix
      | index i =>
        rw [get?_set_eq_iff_of_indices h hfork]
        simp

/-- A slot that is padded held nothing before and holds null afterwards. -/
theorem get?_set_of_pads {store : Store} {path written : Path} {value : Value}
    {update : Update Unit} (h : store.set written value = .ok update)
    (hpads : store.pads written path = true) :
    store.get? path = none ∧ update.store.get? path = some .null := by
  unfold pads at hpads
  split at hpads
  · next shared j i thereAfter hfork =>
    rw [Bool.and_eq_true, decide_eq_true_eq, decide_eq_true_eq] at hpads
    obtain ⟨hafter, hbefore⟩ := get?_set_of_fork h hfork
    rw [arrayLength_eq store ⟨shared⟩ (shared_ne_nil_of_set h hfork rfl)] at hpads
    constructor
    · rw [hbefore, Value.lookup_index, List.getElem?_eq_none hpads.1, Option.bind_none]
    · rw [hafter, Value.lookup_write_index _ _ _ _ (Nat.ne_of_lt hpads.2), if_pos hpads,
        Value.lookup_nil]
  · cases hpads

/-! ### Arrays -/

/-- The arrays that a path enters are those at its beginnings in front of an index. -/
theorem mem_indexed_iff {path array : Path} {i : Nat} :
    (array, i) ∈ indexed path ↔
      ∃ depth, path.segments[depth]? = some (.index i) ∧ path.take depth = array := by
  simp only [indexed, List.mem_filterMap, Prod.exists, List.mem_zipIdx_iff_getElem?]
  constructor
  · rintro ⟨segment, depth, hsegment, heq⟩
    cases segment with
    | key name => cases heq
    | index j =>
      simp only [Option.some.injEq, Prod.mk.injEq] at heq
      obtain ⟨harray, rfl⟩ := heq
      exact ⟨depth, hsegment, harray⟩
  · rintro ⟨depth, hsegment, rfl⟩
    exact ⟨.index i, depth, hsegment, rfl⟩

/-- The arrays that a path enters lie below each other. -/
theorem pairwise_indexed (path : Path) :
    (indexed path).Pairwise fun outer inner => outer.1.segments <+: inner.1.segments := by
  rw [indexed, List.pairwise_filterMap]
  have hdepths : path.segments.zipIdx.Pairwise fun a b => a.2 < b.2 := by
    rw [← List.pairwise_map (f := Prod.snd) (R := (· < ·)), List.zipIdx_map_snd]
    exact List.pairwise_lt_range'
  refine hdepths.imp fun {a b} hab outer houter inner hinner => ?_
  obtain ⟨segment, depth⟩ := a
  obtain ⟨other, deeper⟩ := b
  cases segment with
  | key name => cases houter
  | index i =>
    cases other with
    | key name => cases hinner
    | index j =>
      cases houter
      cases hinner
      exact List.take_prefix_take_left (Nat.le_of_lt hab)

/-- A write that lengthens no array at the path or above it finds its index in the array there. -/
theorem lt_arrayLength_of_growth? {store : Store} {path written : Path} {i : Nat}
    {rest : List Segment} (hwritten : written.segments = path.segments ++ .index i :: rest)
    (hgrowth : ∀ grown, store.growth? written = some grown → path.startsWith grown = false) :
    i < store.arrayLength path := by
  have hmem : (path, i) ∈ indexed written := by
    rw [mem_indexed_iff]
    refine ⟨path.segments.length, ?_, ?_⟩
    · rw [hwritten]; simp
    · rw [Path.take, hwritten, List.take_left']; rfl
  rcases Nat.lt_or_ge i (store.arrayLength path) with hlt | hge
  · exact hlt
  · -- The outermost array that is lengthened lies at the path or above it.
    obtain ⟨⟨outer, j⟩, hfind⟩ : ∃ found, (indexed written).find?
        (fun entered => store.arrayLength entered.1 ≤ entered.2) = some found := by
      rw [← Option.isSome_iff_exists, List.find?_isSome]
      exact ⟨(path, i), hmem, decide_eq_true hge⟩
    have hstart := hgrowth outer (congrArg (Option.map Prod.fst) hfind)
    rw [Path.startsWith_eq_false_iff] at hstart
    obtain ⟨-, before, after, hsplit, hbefore⟩ := List.find?_eq_some_iff_append.1 hfind
    have hpairs := pairwise_indexed written
    rw [hsplit] at hmem hpairs
    rcases List.mem_append.1 hmem with hearly | hlate
    · exact absurd hge (by simpa using hbefore _ hearly)
    · rcases List.mem_cons.1 hlate with heq | hafter
      · cases heq
        exact absurd (List.prefix_refl _) hstart
      · have houter := (List.pairwise_cons.1 (List.pairwise_append.1 hpairs).2.1).1
        exact absurd (houter _ hafter) hstart

theorem arraySize?_eq_none_of_get? {store : Store} {path : Path} {found : Option Value}
    (h : store.get? path = found) (harray : found.bind Value.array? = none) :
    store.arraySize? path = none := by
  rw [arraySize?, h, harray, Option.map_none]

/-- An array that is not empty has its length for its size. -/
theorem arraySize?_eq_of_lt {store : Store} {path : Path} {i : Nat}
    (h : i < store.arrayLength path) :
    store.arraySize? path = some (store.arrayLength path) := by
  cases harray : (store.get? path).bind Value.array? with
  | none =>
    rw [arrayLength, harray] at h
    exact absurd h (Nat.not_lt_zero i)
  | some items =>
    rw [arraySize?, arrayLength, harray]
    rfl

/-- What lies on the way of a write is afterwards what it makes of it. -/
theorem get?_set_of_append {store : Store} {path written : Path} {value : Value}
    {update : Update Unit} {rest : List Segment} (h : store.set written value = .ok update)
    (hwritten : written.segments = path.segments ++ rest) (hne : path.segments ≠ []) :
    update.store.get? path =
      some ((store.asObject.placeAt path.segments).write rest value) := by
  have hlookup := Value.lookup_write_append store.asObject path.segments rest [] value
  rw [List.append_nil, Value.lookup_nil] at hlookup
  rw [get?_eq_lookup hne, asObject_set h, hwritten, hlookup]

/-- A write below a path leaves an array there at its length, if it finds its index in it, and takes
it away if it needs an object. -/
theorem arraySize?_set_of_append {store : Store} {path written : Path} {value : Value}
    {update : Update Unit} {step : Segment} {rest : List Segment}
    (h : store.set written value = .ok update)
    (hwritten : written.segments = path.segments ++ step :: rest) (hne : path.segments ≠ [])
    (hgrowth : ∀ grown, store.growth? written = some grown → path.startsWith grown = false) :
    update.store.arraySize? path = if step.isKey then none else store.arraySize? path := by
  have hget := get?_set_of_append h hwritten hne
  cases step with
  | key name =>
    rw [Value.write_key] at hget
    exact arraySize?_eq_none_of_get? hget rfl
  | index i =>
    have hlt := lt_arrayLength_of_growth? hwritten hgrowth
    have hsize := arraySize?_eq_of_lt hlt
    rw [arrayLength_eq store path hne] at hlt hsize
    rw [Value.write_index] at hget
    rw [if_neg (by simp [Segment.isKey]), hsize, arraySize?, hget]
    simp only [Option.bind_some, Value.array?, Option.map_some, Value.length_setItem]
    exact congrArg some (Nat.max_eq_left hlt)

theorem mixesWith_eq_false_of_prefix {path written : Path}
    (h : path.segments <+: written.segments) : path.mixesWith written = false := by
  cases hfork : path.fork? written with
  | none => rw [Path.mixesWith, hfork, Option.any_none]
  | some fork =>
    -- A path that parts from another one is no beginning of it.
    obtain ⟨hpath, hwritten, hne⟩ := Path.fork?_eq_some_iff.1 hfork
    rw [hpath, hwritten, List.prefix_append_right_inj, List.cons_prefix_cons] at h
    exact absurd h.1 hne

/-- A write that does not reach an array, and lengthens none at its path or above, leaves it and its
length as they are, unless it takes the array away. -/
theorem arraySize?_set_eq_iff {store : Store} {path written : Path} {value : Value}
    {update : Update Unit} (h : store.set written value = .ok update)
    (hreach : path.startsWith written = false)
    (hgrowth : ∀ grown, store.growth? written = some grown → path.startsWith grown = false) :
    update.store.arraySize? path = store.arraySize? path ↔
      store.reshapes written path = false := by
  by_cases hnil : path.segments = []
  · have hnone (store : Store) : store.arraySize? path = none :=
      arraySize?_eq_none_of_get? (show store.get? path = none by rw [get?, hnil]) rfl
    rw [hnone, hnone, reshapes, hnone]
    simp
  by_cases hprefix : path.segments <+: written.segments
  · obtain ⟨rest, hwritten⟩ := hprefix
    cases rest with
    | nil =>
      rw [Path.startsWith_eq_false_iff, ← hwritten, List.append_nil] at hreach
      exact absurd (List.prefix_refl _) hreach
    | cons step rest =>
      have henters : written.entersByKey path = step.isKey := by
        have hstart : written.startsWith path = true :=
          Path.startsWith_iff.2 ⟨step :: rest, hwritten⟩
        rw [Path.entersByKey, hstart, ← hwritten, Path.length, List.drop_left]
        simp
      rw [arraySize?_set_of_append h hwritten.symm hnil hgrowth, reshapes, henters,
        mixesWith_eq_false_of_prefix ⟨_, hwritten⟩, Bool.false_or]
      cases step.isKey <;> cases store.arraySize? path <;> simp
  · have henters : written.entersByKey path = false := by
      rw [Path.entersByKey, Path.startsWith_eq_false_iff.2 hprefix, Bool.false_and]
    rw [reshapes, henters, Bool.or_false]
    rw [Path.startsWith_eq_false_iff] at hreach
    have hdisjoint : path.overlaps written = false :=
      Path.overlaps_eq_false_iff.2 ⟨hreach, hprefix⟩
    cases hmix : path.mixesWith written with
    | true =>
      rw [arraySize?_eq_none_of_get? (get?_set_of_mixesWith h hmix) rfl, Bool.and_true]
      cases store.arraySize? path <;> simp
    | false =>
      rw [Bool.and_false]
      cases hpads : store.pads written path with
      | true =>
        obtain ⟨hbefore, hafter⟩ := get?_set_of_pads h hpads
        rw [arraySize?_eq_none_of_get? hbefore rfl, arraySize?_eq_none_of_get? hafter rfl]
        simp
      | false =>
        have hsame := (get?_set_eq_iff h hdisjoint).2
          ⟨by rw [displaces, hmix, Bool.and_false], hpads⟩
        rw [arraySize?, arraySize?, hsame]
        simp

/-! ### Dependencies -/

/-- A write that does not concern a dependency leaves what it stands for as it is, apart from the
containers that the write replaces and the gaps that it fills on its way. A value stays unless it is
displaced or padded; an array that is not lengthened stays, at its length, unless it is replaced. -/
theorem unconcerned_write_unseen_iff {store : Store} {path written : Path} {value : Value}
    {update : Update Unit} (h : store.set written value = .ok update) :
    (DependencyKind.value.isConcernedBy path written = false →
      (update.store.get? path = store.get? path ↔
        store.displaces written path = false ∧ store.pads written path = false)) ∧
    (DependencyKind.shape.isConcernedBy path written = false →
      (∀ grown, store.growth? written = some grown →
        DependencyKind.shape.isConcernedBy path grown = false) →
      (update.store.arraySize? path = store.arraySize? path ↔
        store.reshapes written path = false)) :=
  ⟨get?_set_eq_iff h, arraySize?_set_eq_iff h⟩

/-- A state that holds an object at `box` and an array at `rows`. -/
def boxAndRows : Store :=
  .ofValues [("box", .object [("lid", .bool true)]), ("rows", .array [.null, .null])]

/-- A write at `rows[1]` is unseen at `rows[0]`, and by what is shaped by `rows`. -/
theorem unconcerned_write_unseen_rows :
    ∃ update, boxAndRows.set ⟨[.key "rows", .index 1]⟩ (.bool true) = .ok update ∧
      update.store.get? ⟨[.key "rows", .index 0]⟩ =
        boxAndRows.get? ⟨[.key "rows", .index 0]⟩ ∧
      update.store.arraySize? ⟨[.key "rows"]⟩ = boxAndRows.arraySize? ⟨[.key "rows"]⟩ := by
  have hnear : boxAndRows.tooFar? ⟨[.key "rows", .index 1]⟩ = none := by decide +kernel
  have hgrowth : ∀ grown, boxAndRows.growth? ⟨[.key "rows", .index 1]⟩ = some grown →
      DependencyKind.shape.isConcernedBy ⟨[.key "rows"]⟩ grown = false := by
    rintro grown ⟨⟩
  obtain ⟨update, hset⟩ := exists_set_of_tooFar?_eq_none (.bool true) hnear rfl
  refine ⟨update, hset, ?_, ?_⟩
  · exact ((unconcerned_write_unseen_iff hset).1 (by decide)).2 ⟨by decide, by decide⟩
  · exact ((unconcerned_write_unseen_iff hset).2 (by decide) hgrowth).2 (by decide)

/-- A write at `box[0]` does not concern a view of `box.lid`, but takes away what it shows. A write
at `rows.first` does not concern a view that is shaped by `rows`, and lengthens no array, but puts
an object in the place of that one. -/
theorem unconcerned_write_seen :
    (¬ ∀ (store : Store) (pathText writtenText : String) (path written : Path) (value : Value)
        (update : Update Unit), Path.ofText? pathText = some path →
      Path.ofText? writtenText = some written → store.set written value = .ok update →
      DependencyKind.value.isConcernedBy path written = false →
      update.store.get? path = store.get? path) ∧
    (¬ ∀ (store : Store) (pathText writtenText : String) (path written : Path) (value : Value)
        (update : Update Unit), Path.ofText? pathText = some path →
      Path.ofText? writtenText = some written → store.set written value = .ok update →
      DependencyKind.shape.isConcernedBy path written = false →
      (∀ grown, store.growth? written = some grown →
        DependencyKind.shape.isConcernedBy path grown = false) →
      update.store.arraySize? path = store.arraySize? path) := by
  constructor
  · intro hunseen
    have hnear : boxAndRows.tooFar? ⟨[.key "box", .index 0]⟩ = none := by decide +kernel
    obtain ⟨update, hset⟩ := exists_set_of_tooFar?_eq_none .null hnear rfl
    have hsame := hunseen boxAndRows "box.lid" "box[0]" ⟨[.key "box", .key "lid"]⟩
      ⟨[.key "box", .index 0]⟩ .null update (by decide +kernel) (by decide +kernel) hset (by decide)
    exact absurd ((get?_set_eq_iff hset (by decide)).1 hsame).1 (by decide)
  · intro hunseen
    have hnear : boxAndRows.tooFar? ⟨[.key "rows", .key "first"]⟩ = none := by decide +kernel
    have hgrowth : ∀ grown, boxAndRows.growth? ⟨[.key "rows", .key "first"]⟩ = some grown →
        DependencyKind.shape.isConcernedBy ⟨[.key "rows"]⟩ grown = false := by
      rintro grown ⟨⟩
    obtain ⟨update, hset⟩ := exists_set_of_tooFar?_eq_none .null hnear rfl
    have hsame := hunseen boxAndRows "rows" "rows.first" ⟨[.key "rows"]⟩
      ⟨[.key "rows", .key "first"]⟩ .null update (by decide +kernel) (by decide +kernel) hset
      (by decide) hgrowth
    exact absurd ((arraySize?_set_eq_iff hset (by decide) hgrowth).1 hsame) (by decide)

end Store

end ScreenDoc
