import ScreenDoc.Proofs.Store.Refusal

/-!
# Membership in arrays

A value is put into an array if it is not there, and taken out in all its places if it is. Either
way this is one write, of all items that differ from the value, with the value after them if it was
not there. So it is refused where any other write is refused.

## Main definitions

- `Store.itemsAt` — the items of the array at a path, none where there is no array
- `Store.switched` — items with a value put in or taken out
- `Store.Moment.Switches` — what has to come of a command that puts a value in or takes it out

## Main results

- `Store.toggleIn_eq` — a value is put in or taken out by one write
- `Store.respond_toggleIn` — what comes of it for values that equal themselves
-/

namespace ScreenDoc

namespace Store

/-! ### Items put in and taken out -/

/-- The items of the array at the path that a text writes; what is no array counts as an array
without items. -/
def itemsAt (store : Store) (text : String) : List Value :=
  (store.array? text).getD []

/-- The items that differ from a value. -/
def others (items : List Value) (value : Value) : List Value :=
  items.filter fun item => !(item == value)

/-- Items with a value taken out in all its places, or put in at the end if it was not there. -/
def switched (items : List Value) (value : Value) : List Value :=
  others items value ++ if items.any (· == value) then [] else [value]

theorem others_eq_self {items : List Value} {value : Value} (h : items.any (· == value) = false) :
    others items value = items := by
  rw [others, List.filter_eq_self]
  intro item hitem
  have hne := List.any_eq_false.mp h item hitem
  simpa using hne

/-- A value that equals itself is among the items afterwards just if it was not before. -/
theorem any_switched (items : List Value) {value : Value} (hself : (value == value) = true) :
    (switched items value).any (· == value) = !(items.any (· == value)) := by
  have hothers : (others items value).any (· == value) = false := by
    simp [others, List.any_eq_false]
  rw [switched, List.any_append, hothers, Bool.false_or]
  cases items.any (· == value) with
  | true => rfl
  | false => simp [hself]

variable {store : Store} {text : String} {value : Value}

theorem containsItem_eq_any (store : Store) (text : String) (value : Value) :
    store.containsItem text value = (store.itemsAt text).any (· == value) := by
  rw [containsItem, itemsAt]
  cases store.array? text <;> rfl

/-! ### One write -/

/-- A value is put in or taken out by one write. -/
theorem toggleIn_eq (store : Store) (text : String) (value : Value) :
    store.toggleIn text value =
      (store.setText text (.array (switched (store.itemsAt text) value))).map fun update =>
        { update with result := !store.containsItem text value } := by
  have hitems := containsItem_eq_any store text value
  cases hcontains : store.containsItem text value with
  | true =>
    -- There is such an item, so there is an array, and it gets shorter.
    obtain ⟨items, harray⟩ : ∃ items, store.array? text = some items := by
      cases harray : store.array? text with
      | none =>
        rw [containsItem, harray] at hcontains
        cases hcontains
      | some items => exact ⟨items, rfl⟩
    have hshorter := containsItem_eq value harray
    rw [hcontains, eq_comm, decide_eq_true_eq] at hshorter
    rw [hcontains] at hitems
    rw [toggleIn, remove, harray]
    simp only [if_neg hshorter]
    rw [switched, ← hitems, if_pos rfl, List.append_nil, others, itemsAt, harray, Option.getD_some]
    cases store.setText text (.array (items.filter fun item => !(item == value))) <;> rfl
  | false =>
    have hremove : store.remove text value = .ok ⟨false, store, []⟩ := by
      rw [remove]
      cases harray : store.array? text with
      | none => rfl
      | some items =>
        have hsame := containsItem_eq value harray
        rw [hcontains, eq_comm, decide_eq_false_iff_not, not_not] at hsame
        exact if_pos hsame
    rw [hcontains] at hitems
    rw [toggleIn, hremove, switched, ← hitems, others_eq_self hitems.symm]
    simp only [bind, Except.bind, Bool.false_eq_true, if_false, append, itemsAt]
    cases store.setText text (.array ((store.array? text).getD [] ++ [value])) <;> rfl

/-- What is read at a text after a write at it is what was written. -/
theorem read_setText {new : Value} {update : Update Unit}
    (h : store.setText text new = .ok update) : update.store.read text = some new := by
  obtain ⟨path, hpath, hset⟩ := exists_set_of_setText h
  rw [read, hpath, Option.bind_some, get?_set_within hset (List.append_nil _).symm,
    Value.lookup_nil]

/-! ### What comes of it -/

/-- What has to come of a command that puts a value into the array at a text or takes it out of
there, and answers whether it is there now. -/
structure Moment.Switches (moment : Moment) (text : String) (value : Value) (present : Bool) :
    Prop where
  /-- The value is there now as the answer says. -/
  after : moment.after.containsItem text value = present
  /-- It was there before if it is not there now. -/
  before : moment.before.containsItem text value = !present
  /-- All items that differ from the value are left, in their order, and behind them the value if it
  is there now. -/
  items : moment.after.array? text =
    some (others (moment.before.itemsAt text) value ++ if present then [value] else [])
  /-- One change is told, once to each subscriber. -/
  told : ∃ change, Wrote moment.before [change] moment.after ∧
    moment.told = moment.before.subscribers.map fun id => (id, change)

theorem switches_of_setText {update : Update Unit} (hself : (value == value) = true)
    (h : store.setText text (.array (switched (store.itemsAt text) value)) = .ok update)
    (command : Command) (reply : Reply) :
    Moment.Switches ⟨store, command, reply, store.deliveries update.changes, update.store⟩
      text value (!store.containsItem text value) := by
  have harray : update.store.array? text = some (switched (store.itemsAt text) value) := by
    rw [array?, read_setText h]
    rfl
  have hitems := containsItem_eq_any store text value
  refine ⟨?_, (Bool.not_not _).symm, ?_, ?_⟩
  · rw [containsItem, harray, hitems]
    exact any_switched _ hself
  · rw [harray, hitems, switched]
    cases (store.itemsAt text).any (· == value) <;> rfl
  · obtain ⟨path, -, hset⟩ := exists_set_of_setText h
    have hchanges := changes_set hset
    refine ⟨_, hchanges ▸ (wrote_set hset).1, ?_⟩
    rw [hchanges]
    exact List.append_nil _

/-- What comes of putting a value into the array at a text, or of taking it out of there, if the
value equals itself. It is answered whether the value is there now, which it is if it was not there
before; all other items stay, and one change is told. It fails just if the text is no path, or an
index of the path lies too far behind the end of its array. Then the state stays as it is, and
nobody is told. -/
theorem respond_toggleIn (store : Store) (text : String) {value : Value}
    (hself : (value == value) = true) :
    (∀ present, (store.respond (.toggleIn text value)).reply = .told present →
      (store.respond (.toggleIn text value)).Switches text value present) ∧
    (∀ error, (store.respond (.toggleIn text value)).reply = .failed error →
      (store.respond (.toggleIn text value)).after = store ∧
        (store.respond (.toggleIn text value)).told = []) ∧
    ((∃ path, Path.ofText? text = some path ∧ ∀ depth i, ¬ store.IsTooFar path depth i) →
      (store.respond (.toggleIn text value)).reply = .told (!store.containsItem text value)) ∧
    ((¬ ∃ path, Path.ofText? text = some path ∧ ∀ depth i, ¬ store.IsTooFar path depth i) →
      ∃ error, (store.respond (.toggleIn text value)).reply = .failed error) := by
  rw [respond, outcome, toggleIn_eq]
  cases hset : store.setText text (.array (switched (store.itemsAt text) value)) with
  | ok update =>
    refine ⟨fun present hpresent => ?_, fun error herror => ?_, fun _ => rfl, fun hnot => ?_⟩
    · cases hpresent
      exact switches_of_setText hself hset _ _
    · cases herror
    · obtain ⟨path, hpath, hwritten⟩ := exists_set_of_setText hset
      refine absurd ⟨path, hpath, tooFar?_eq_none_iff.mp ?_⟩ hnot
      rw [set] at hwritten
      split at hwritten
      · cases hwritten
      · assumption
  | error error =>
    refine ⟨fun present hpresent => ?_, fun _ _ => ⟨rfl, rfl⟩, ?_, fun _ => ⟨error, rfl⟩⟩
    · cases hpresent
    · rintro ⟨path, hpath, hnear⟩
      have hrooted : path.firstKey?.isSome := (Path.written_of_ofChars? hpath).1.rooted
      obtain ⟨after, hwritten⟩ := exists_set_of_near
        (.array (switched (store.itemsAt text) value)) hnear hrooted
      rw [setText, Path.parse, hpath] at hset
      have hboth := hset.symm.trans hwritten
      cases hboth

/-- Two subscribers watch tags that stand twice in an array within another one. -/
def tagged : Store :=
  ⟨[("rows", .array [.object [("tags", .array [.string "a", .string "b", .string "a"])]])],
    [3, 5], 6⟩

/-- A tag is taken out in both places, and another one is put in behind the rest. Tags of a row that
is too far away cannot be changed. -/
theorem respond_toggleIn_tagged :
    (Value.string "a" == Value.string "a") = true ∧ (Value.int 1 == Value.int 1) = true ∧
    ((tagged.respond (.toggleIn " rows[0].tags" (.string "a"))).reply = .told false ∧
      (tagged.respond (.toggleIn " rows[0].tags" (.string "a"))).after.array? "rows[0].tags" =
        some [.string "b"] ∧
      (tagged.respond (.toggleIn " rows[0].tags" (.string "a"))).told.map Prod.fst = [3, 5]) ∧
    ((tagged.respond (.toggleIn "rows[2].tags" (.int 1))).reply = .told true ∧
      (tagged.respond (.toggleIn "rows[2].tags" (.int 1))).after.array? "rows[2].tags" =
        some [.int 1]) ∧
    ((tagged.respond (.toggleIn "rows[1026].tags" (.int 1))).after = tagged ∧
      (tagged.respond (.toggleIn "rows[1026].tags" (.int 1))).told = []) := by
  have ha : (Value.string "a" == Value.string "a") = true := by decide
  have hone : (Value.int 1 == Value.int 1) = true := by decide
  have hremoved :
      (tagged.respond (.toggleIn " rows[0].tags" (.string "a"))).reply = .told false := by
    decide +kernel
  have hadded : (tagged.respond (.toggleIn "rows[2].tags" (.int 1))).reply = .told true := by
    decide +kernel
  have hout := (respond_toggleIn tagged " rows[0].tags" ha).1 false hremoved
  have hin := (respond_toggleIn tagged "rows[2].tags" hone).1 true hadded
  have hfar := (respond_toggleIn tagged "rows[1026].tags" hone).2.1
    (.indexOutOfRange "rows[1026].tags" 1026 1) (by decide +kernel)
  obtain ⟨change, -, htold⟩ := hout.told
  exact ⟨ha, hone, ⟨hremoved, hout.items, congrArg (List.map Prod.fst) htold⟩,
    ⟨hadded, hin.items⟩, hfar⟩

end Store

end ScreenDoc
