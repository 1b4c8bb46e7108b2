import ScreenDoc.Proofs.Store.Merge
import ScreenDoc.Proofs.Store.ReadLaw
import ScreenDoc.Proofs.Store.Written

/-!
# What a notification points at

A subscriber learns the text of the path that was written, and can read the state there. A path that
was read from a text is found again by its canonical text. The name of a field, however, becomes a
path as it is, and the text of that path may write another path or none.

## Main definitions

- `Store.Moment.Points` — a change is what a reader of its path would see
- `Store.Command.text?` — the text at which a command writes
- `Store.WritesAt` — one write at the path that a text writes, or none

## Main results

- `Store.WritesAt.points` — the change of such a write points at what was written
- `Path.written_ofKey_iff` — the names that are found again as they are
- `Store.points_told` — which notifications point at what changed
-/

namespace ScreenDoc

namespace Path

/-- A name is found again as it is if it is a key without blanks around it. -/
theorem written_ofKey_iff {name : String} :
    (ofKey name).Written ↔ IsKey name.toList ∧ Text.Trimmed name.toList := by
  constructor
  · intro h
    have htrimmed := h.trimmed
    rw [text_ofKey] at htrimmed
    exact ⟨h.writable _ List.mem_cons_self, htrimmed⟩
  · rintro ⟨hkey, htrimmed⟩
    refine ⟨rfl, List.forall_mem_singleton.mpr hkey, ?_⟩
    rwa [text_ofKey]

theorem ofText?_eq_ofKey_iff {name : String} :
    ofText? name = some (ofKey name) ↔ (ofKey name).Written := by
  constructor
  · intro h
    exact (written_of_ofChars? h).1
  · intro h
    have htext := ofText?_text h
    rw [text_ofKey] at htext
    exact htext.trans (if_pos rfl)

end Path

namespace Store

/-- Whether a change is what a reader of its path would see: the new value after the command, and
the old value, or nothing, before. -/
structure Moment.Points (moment : Moment) (change : Change) : Prop where
  after : moment.after.read change.path = some change.new
  before : moment.before.read change.path = change.old

variable {store last : Store} {text : String} {path : Path} {value : Value} {changes : List Change}

/-! ### Writes at a text -/

/-- The text at which a command writes. -/
def Command.text? : Command → Option String
  | .set text _ => some text
  | .toggle text => some text
  | .append text _ => some text
  | .remove text _ => some text
  | .toggleIn text _ => some text
  | _ => none

/-- One write at a text, or none. -/
inductive WritesAt (store : Store) (text : String) : List Change → Store → Prop where
  | nothing : WritesAt store text [] store
  | value {value : Value} {update : Update Unit} (hset : store.setText text value = .ok update) :
      WritesAt store text update.changes update.store

/-- What is told of a write at a text points at what was written. -/
theorem WritesAt.points (h : store.WritesAt text changes last) {change : Change}
    (hchange : change ∈ changes) :
    last.read change.path = some change.new ∧ store.read change.path = change.old := by
  cases h with
  | nothing => cases hchange
  | @value value update hset =>
    obtain ⟨path, hpath, hset⟩ := exists_set_of_setText hset
    rw [changes_set hset, List.mem_singleton] at hchange
    subst hchange
    -- The canonical text of the path is read as the path that was written.
    have hback : Path.ofText? path.text = some path := Path.ofText?_text_of_ofChars? hpath
    have hwithin : path.segments = path.segments ++ [] := (List.append_nil _).symm
    constructor
    · rw [read, hback, Option.bind_some, get?_set_within hset hwithin, Value.lookup_nil]
    · rw [read, hback, Option.bind_some]

theorem writesAt_toggle {update : Update Bool} (h : store.toggle text = .ok update) :
    store.WritesAt text update.changes update.store := by
  obtain ⟨_, hset⟩ := exists_setText_of_toggle h
  exact .value hset

theorem writesAt_remove {update : Update Bool} (h : store.remove text value = .ok update) :
    store.WritesAt text update.changes update.store := by
  rcases remove_cases h with ⟨-, rfl⟩ | ⟨-, -, _, hset⟩
  · exact .nothing
  · exact .value hset

theorem writesAt_toggleIn {update : Update Bool} (h : store.toggleIn text value = .ok update) :
    store.WritesAt text update.changes update.store := by
  obtain ⟨_, hset⟩ := exists_setText_of_toggleIn h
  exact .value hset

theorem writesAt_of_map {α : Type} {reply : α → Reply} {outcome : Except AccessError (Update α)}
    {update : Update Reply} (h : outcome.map (answering reply) = .ok update)
    (hwrites : ∀ written, outcome = .ok written →
      store.WritesAt text written.changes written.store) :
    store.WritesAt text update.changes update.store := by
  cases outcome with
  | error error => cases h
  | ok written =>
    cases h
    exact hwrites written rfl

/-- A command that writes at a text makes one write there, or none. -/
theorem writesAt_of_outcome {command : Command} {update : Update Reply}
    (htext : command.text? = some text) (h : store.outcome command = .ok update) :
    store.WritesAt text update.changes update.store := by
  cases command with
  | set other value =>
    cases htext
    exact writesAt_of_map h fun _ => .value
  | toggle other =>
    cases htext
    exact writesAt_of_map h fun _ => writesAt_toggle
  | append other value =>
    cases htext
    exact writesAt_of_map h fun _ => .value
  | remove other value =>
    cases htext
    exact writesAt_of_map h fun _ => writesAt_remove
  | toggleIn other value =>
    cases htext
    exact writesAt_of_map h fun _ => writesAt_toggleIn
  | _ => cases htext

/-- What is told of a command that writes at a text points at what changed. -/
theorem points_of_text? (store : Store) {command : Command} (htext : command.text? = some text)
    {delivery : Nat × Change} (hdelivery : delivery ∈ (store.respond command).told) :
    (store.respond command).Points delivery.2 := by
  rw [respond] at hdelivery ⊢
  cases houtcome : store.outcome command with
  | error error =>
    rw [houtcome] at hdelivery
    cases hdelivery
  | ok update =>
    rw [houtcome] at hdelivery
    obtain ⟨change, hchange, hmem⟩ := List.mem_flatMap.mp hdelivery
    obtain ⟨id, -, rfl⟩ := List.mem_map.mp hmem
    obtain ⟨hafter, hbefore⟩ := (writesAt_of_outcome htext houtcome).points hchange
    exact ⟨hafter, hbefore⟩

/-! ### Fields -/

theorem read_of_written {name : String} (h : (Path.ofKey name).Written) (store : Store) :
    store.read name = Fields.get? store.values name := by
  rw [read, Path.ofText?_eq_ofKey_iff.mpr h, Option.bind_some, get?_ofKey]

/-- What is told of a field whose name is found again points at the field. -/
theorem points_of_written (store : Store) {fields : List (String × Value)}
    (hvalue : value.finite = .object fields) (hsorted : Fields.Sorted fields)
    {delivery : Nat × Change} (hdelivery : delivery ∈ (store.respond (.setAll value)).told)
    (hname : (Path.ofKey delivery.2.path).Written) :
    (store.respond (.setAll value)).Points delivery.2 := by
  obtain ⟨last, hmerges, hrespond⟩ := respond_setAll store hvalue hsorted
  rw [hrespond] at hdelivery ⊢
  obtain ⟨-, field, hfield, hdiffers, hchange⟩ := mem_deliveries_changesBy.mp hdelivery
  rw [hchange] at hname ⊢
  constructor
  · show last.read field.1 = some field.2
    rw [read_of_written hname, hmerges.field field hfield, if_pos hdiffers]
  · exact read_of_written hname store

/-- The state whose one subscriber is told of the first field that is written. -/
def listening : Store := (empty.subscribe).store

theorem read_eq_none_of_not_written {name : String} (hname : ¬(Path.ofKey name).Written)
    (hvalue : Fields.get? store.values name = some (.bool true))
    (hothers : ∀ other, other ≠ name → Fields.get? store.values other = none) :
    store.read name = none := by
  rw [read]
  cases hpath : Path.ofText? name with
  | none => rfl
  | some path =>
    obtain ⟨key, rest, rfl, -, -⟩ := (Path.written_of_ofChars? hpath).1.exists_key
    show (Fields.get? store.values key).bind (Value.lookup · rest) = none
    by_cases hkey : key = name
    · subst hkey
      rw [hvalue, Option.bind_some]
      cases rest with
      | nil => exact absurd (Path.ofText?_eq_ofKey_iff.mp hpath) hname
      | cons segment rest => cases segment <;> rfl
    · rw [hothers key hkey, Option.bind_none]

/-- A field whose name is not found again is not found where it is told of. -/
theorem not_points_of_not_written {name : String} (hname : ¬(Path.ofKey name).Written) :
    ∃ delivery ∈ (listening.respond (.setAll (.object [(name, .bool true)]))).told,
      delivery.2.path = name ∧
        ¬(listening.respond (.setAll (.object [(name, .bool true)]))).Points delivery.2 := by
  have hfinite : (Value.object [(name, .bool true)]).finite = .object [(name, .bool true)] := rfl
  obtain ⟨last, hmerges, hrespond⟩ :=
    respond_setAll listening hfinite (List.pairwise_singleton _ _)
  rw [hrespond]
  have htold : (0, ⟨name, none, .bool true⟩) ∈
      listening.deliveries (listening.changesBy [(name, .bool true)]) :=
    mem_deliveries_changesBy.mpr
      ⟨List.mem_cons_self, (name, .bool true), List.mem_cons_self, rfl, rfl⟩
  refine ⟨_, htold, rfl, fun hpoints => ?_⟩
  have hnone : last.read name = none := by
    apply read_eq_none_of_not_written hname
    · exact hmerges.field (name, .bool true) List.mem_cons_self
    · intro other hother
      refine hmerges.other other fun field hfield => ?_
      rw [List.mem_singleton.mp hfield]
      exact hother.symm
  cases hnone.symm.trans hpoints.after

/-- What is told of a command that writes at a text points at what changed. What is told of a field
of this name points at the field, whatever the state and the other fields are, if and only if the
name is a key without blanks around it. -/
theorem points_told (store : Store) (command : Command) (name : String) :
    (command.text?.isSome →
      ∀ delivery ∈ (store.respond command).told, (store.respond command).Points delivery.2) ∧
    ((∀ (state : Store) (fields : List (String × Value)), Fields.Sorted fields →
      ∀ delivery ∈ (state.respond (.setAll (.object fields))).told, delivery.2.path = name →
        (state.respond (.setAll (.object fields))).Points delivery.2) ↔
      Path.IsKey name.toList ∧ Text.Trimmed name.toList) := by
  constructor
  · intro htext delivery hdelivery
    obtain ⟨text, htext⟩ := Option.isSome_iff_exists.mp htext
    exact points_of_text? store htext hdelivery
  · rw [← Path.written_ofKey_iff]
    constructor
    · intro hpoints
      by_contra hname
      obtain ⟨delivery, hdelivery, hpath, hnot⟩ := not_points_of_not_written hname
      exact hnot (hpoints listening _ (List.pairwise_singleton _ _) delivery hdelivery hpath)
    · intro hname state fields hsorted delivery hdelivery hpath
      have hfinite : (Value.object fields).finite =
          .object (fields.map fun field => (field.1, field.2.finite)) := by
        rw [Value.finite, Value.finiteFields_eq_map]
      exact points_of_written state hfinite (hsorted.map Value.finite) hdelivery (hpath ▸ hname)

/-- A state that holds an object, with one subscriber. -/
def nested : Store :=
  { listening with values := [("a", .object [("b", .int 1)])] }

/-- An item that is appended at `a.c` is told of there, and two fields by their names. -/
theorem points_told_nested :
    (∃ delivery ∈ (nested.respond (.append " a.c " .null)).told,
      delivery.2.path = "a.c" ∧ (nested.respond (.append " a.c " .null)).Points delivery.2) ∧
    Fields.Sorted [("a", Value.int 2), ("b c", .int 3)] ∧
    ∃ delivery ∈ (nested.respond (.setAll (.object [("a", .int 2), ("b c", .int 3)]))).told,
      delivery.2.path = "b c" ∧
        (nested.respond (.setAll (.object [("a", .int 2), ("b c", .int 3)]))).Points delivery.2 := by
  have happended : (nested.respond (.append " a.c " .null)).told =
      [(0, ⟨"a.c", none, .array [.null]⟩)] := rfl
  have hfields : (nested.respond (.setAll (.object [("a", .int 2), ("b c", .int 3)]))).told =
      [(0, ⟨"a", some (.object [("b", .int 1)]), .int 2⟩), (0, ⟨"b c", none, .int 3⟩)] := rfl
  have hsorted : Fields.Sorted [("a", Value.int 2), ("b c", .int 3)] := by
    simp only [Fields.Sorted, List.pairwise_pair]
    decide
  have hkey : Path.IsKey "b c".toList ∧ Text.Trimmed "b c".toList := by
    have hchars : "b c".toList.all Path.isKeyChar := by decide
    refine ⟨⟨by decide, List.all_eq_true.mp hchars⟩, fun c hc => ?_, fun c hc => ?_⟩ <;>
      cases hc <;> rfl
  refine ⟨⟨_, happended ▸ List.mem_singleton_self _, rfl, ?_⟩, hsorted,
    _, hfields ▸ List.mem_cons_of_mem _ (List.mem_singleton_self _), rfl, ?_⟩
  · exact (points_told nested _ "a.c").1 rfl _ (happended ▸ List.mem_singleton_self _)
  · exact (points_told nested .subscribe "b c").2.mpr hkey nested _ hsorted _
      (hfields ▸ List.mem_cons_of_mem _ (List.mem_singleton_self _)) rfl

/-- A dotted name is told as the path of another place, where nothing has changed: the value that is
found there is neither the old one, which is told to be absent, nor the new one. -/
theorem not_points_told_dotted :
    let moment := nested.respond (.setAll (.object [("a.b", .int 2)]))
    moment.told = [(0, ⟨"a.b", none, .int 2⟩)] ∧
      moment.before.read "a.b" = some (.int 1) ∧ moment.after.read "a.b" = some (.int 1) ∧
      ¬moment.Points ⟨"a.b", none, .int 2⟩ := by
  intro moment
  have hafter : moment.after.read "a.b" = some (.int 1) := rfl
  refine ⟨rfl, rfl, hafter, fun hpoints => ?_⟩
  have hnew : (1 : Int64) = 2 := Value.int.inj (Option.some.inj (hafter.symm.trans hpoints.after))
  exact absurd hnew (by decide)

end Store

end ScreenDoc
