import ScreenDoc.Store.Path
import ScreenDoc.Value.Kind
import ScreenDoc.Value.Text

/-!
# The state store

The live state of a screen: a tree of values that is read and written by paths, and its subscribers.

## Main definitions

- `Store` — the values by their top-level names, and the subscriptions
- `Store.get?`, `Store.read` — the value at a path
- `Store.set` — writes a value, creating objects and arrays on the way
- `Store.toggle`, `Store.append`, `Store.remove`, `Store.toggleIn`, `Store.setAll` — writes that
  depend on what is there
- `Store.growth?` — the array that a write would lengthen
- `Store.deliveries` — which subscriber learns of which change, in order

## Design notes

A write is a value: it has a result, the store after it and the changes that it made. Every change
reaches every subscription that is there at the time of the write, in the order of subscription, so
the deliveries of a write follow from its changes.
-/

namespace ScreenDoc

/-- Why the state cannot be accessed. -/
inductive AccessError where
  /-- The text is no path. -/
  | invalidPath (text : String)
  /-- The index lies too far behind the end of its array. -/
  | indexOutOfRange (path : String) (index len : Nat)
  /-- The values to write are no object. -/
  | notAnObject (kind : Value.Kind)
  /-- The state has not the form that was asked for. -/
  | conversion
deriving DecidableEq, Repr

/-- The message of an error. -/
def AccessError.message : AccessError → String
  | .invalidPath text => "invalid state path: " ++ Text.quote text
  | .indexOutOfRange path index len =>
    "index " ++ toString index ++ " in " ++ Text.quote path ++
      " is too far past the end of an array of " ++ toString len
  | .notAnObject kind => "typed state must serialize to an object, got " ++ kind.name
  | .conversion => "typed state conversion failed"

/-- A change at a path. -/
structure Change where
  /-- The canonical text of the path that was written. -/
  path : String
  /-- The value before, if there was one. -/
  old : Option Value
  /-- The value after. -/
  new : Value

/-- The live state. -/
structure Store where
  /-- The values, in ascending order of their names. -/
  values : List (String × Value)
  /-- The subscriptions, in the order in which they were made. -/
  subscribers : List Nat
  /-- The number of the next subscription. -/
  nextSubscription : Nat

/-- What an operation on a store did. -/
structure Update (α : Type) where
  /-- The answer of the operation. -/
  result : α
  /-- The store after it. -/
  store : Store
  /-- The writes, in order. -/
  changes : List Change

/-- The path that a text writes, or the error that it is none. -/
def Path.parse (text : String) : Except AccessError Path :=
  match Path.ofText? text with
  | some path => .ok path
  | none => .error (.invalidPath text)

/-! ### Writing into a value -/

namespace Value

/-- The fields of an object; any other value counts as an object without fields. -/
def fieldsOrNone (value : Value) : List (String × Value) :=
  value.object?.getD []

/-- The items of an array; any other value counts as an array without items. -/
def itemsOrNone (value : Value) : List Value :=
  value.array?.getD []

/-- Items with one of them replaced, after the array is filled up with nulls to hold it. -/
def setItem (items : List Value) (i : Nat) (value : Value) : List Value :=
  (items ++ List.replicate (i + 1 - items.length) Value.null).set i value

/-- Writes a value at the end of a path. What lies on the way and is no container of the kind that
the path needs is replaced by one. -/
def write : Value → List Segment → Value → Value
  | _, [], new => new
  | value, .key name :: rest, new =>
    let fields := value.fieldsOrNone
    .object (Fields.insert fields name (write ((Fields.get? fields name).getD .null) rest new))
  | value, .index i :: rest, new =>
    let items := value.itemsOrNone
    .array (setItem items i (write (items[i]?.getD .null) rest new))

end Value

namespace Store

/-! ### Reading -/

/-- A store without values. -/
def empty : Store := ⟨[], [], 0⟩

instance : Inhabited Store := ⟨empty⟩

/-- A store of these values, without subscribers. -/
def ofValues (values : List (String × Value)) : Store := ⟨values, [], 0⟩

/-- The whole state as one object. -/
def asObject (store : Store) : Value :=
  .object store.values

/-- The value at a path. A path that does not start with a key leads nowhere. -/
def get? (store : Store) (path : Path) : Option Value :=
  match path.segments with
  | .key name :: rest => (Fields.get? store.values name).bind (Value.lookup · rest)
  | _ => none

/-- The value at the path that a text writes. -/
def read (store : Store) (text : String) : Option Value :=
  (Path.ofText? text).bind store.get?

/-- The array at the path that a text writes. -/
def array? (store : Store) (text : String) : Option (List Value) :=
  (store.read text).bind Value.array?

/-- Whether the array at a path contains a value. -/
def containsItem (store : Store) (text : String) (value : Value) : Bool :=
  match store.array? text with
  | some items => items.any (· == value)
  | none => false

/-- The number of items of the array at a path, 0 where there is none. -/
def itemCount (store : Store) (text : String) : Nat :=
  match store.array? text with
  | some items => items.length
  | none => 0

/-- The length of the array at a path, 0 where there is none. -/
def arrayLength (store : Store) (path : Path) : Nat :=
  match (store.get? path).bind Value.array? with
  | some items => items.length
  | none => 0

/-- The paths of the arrays that a path enters, outermost first, each with the index. -/
def indexed (path : Path) : List (Path × Nat) :=
  path.segments.zipIdx.filterMap fun
    | (.index i, depth) => some (path.take depth, i)
    | (.key _, _) => none

/-- The outermost array that a write to the path would create or lengthen. -/
def growth? (store : Store) (path : Path) : Option Path :=
  ((indexed path).find? fun (array, i) => store.arrayLength array ≤ i).map Prod.fst

/-- The whole state, read by a reader of typed values. -/
def typed {α : Type} (store : Store) (reader : Value → Option α) : Except AccessError α :=
  match reader store.asObject.finite with
  | some value => .ok value
  | none => .error .conversion

/-! ### Writing -/

/-- How far behind the end of an array a write may be. -/
def maxIndexGap : Nat := 1024

/-- The first index of a path that lies too far behind the end of its array. -/
def tooFar? (store : Store) (path : Path) : Option AccessError :=
  ((indexed path).find? fun (array, i) => store.arrayLength array + maxIndexGap < i).map
    fun (array, i) => .indexOutOfRange path.text i (store.arrayLength array)

/-- Writes a value at a path. -/
def set (store : Store) (path : Path) (value : Value) : Except AccessError (Update Unit) :=
  match store.tooFar? path with
  | some error => .error error
  | none =>
    match path.segments with
    | .key name :: rest =>
      let old := (Fields.get? store.values name).getD .null
      let values := Fields.insert store.values name (old.write rest value)
      .ok ⟨(), { store with values }, [⟨path.text, store.get? path, value⟩]⟩
    | _ => .error (.invalidPath path.text)

/-- Writes a value at the path that a text writes. -/
def setText (store : Store) (text : String) (value : Value) : Except AccessError (Update Unit) := do
  store.set (← Path.parse text) value

/-- Turns the boolean at a path; any other value counts as false. -/
def toggle (store : Store) (text : String) : Except AccessError (Update Bool) := do
  let next := !(((store.read text).bind Value.bool?).getD false)
  let update ← store.setText text (.bool next)
  return { update with result := next }

/-- Appends a value to the array at a path; where there is none, one is created. -/
def append (store : Store) (text : String) (value : Value) : Except AccessError (Update Unit) :=
  store.setText text (.array ((store.array? text).getD [] ++ [value]))

/-- Removes all items equal to a value from the array at a path, and tells whether there were
any. -/
def remove (store : Store) (text : String) (value : Value) : Except AccessError (Update Bool) :=
  match store.array? text with
  | none => .ok ⟨false, store, []⟩
  | some items =>
    let kept := items.filter fun item => !(item == value)
    if kept.length = items.length then .ok ⟨false, store, []⟩
    else do
      let update ← store.setText text (.array kept)
      return { update with result := true }

/-- Removes a value from the array at a path if it is there, and appends it otherwise. Tells whether
it is there now. -/
def toggleIn (store : Store) (text : String) (value : Value) :
    Except AccessError (Update Bool) := do
  let update ← store.remove text value
  if update.result then return { update with result := false }
  else
    let update ← store.append text value
    return { update with result := true }

/-- Whether the state holds another value than this one under a name. -/
def differsAt (store : Store) (name : String) (value : Value) : Bool :=
  match Fields.get? store.values name with
  | some old => !(old == value)
  | none => true

/-- Writes the fields that differ from the values of the state, in their order. -/
def setFields : Store → List (String × Value) → Except AccessError (Update Unit)
  | store, [] => .ok ⟨(), store, []⟩
  | store, (name, value) :: rest =>
    if store.differsAt name value then do
      let update ← store.set (Path.ofKey name) value
      let others ← setFields update.store rest
      return { others with changes := update.changes ++ others.changes }
    else setFields store rest

/-- Writes the fields of an object to the top level of the state. Other names stay as they are. -/
def setAll (store : Store) (value : Value) : Except AccessError (Update Unit) :=
  match value.finite with
  | .object fields => store.setFields fields
  | other => .error (.notAnObject other.kind)

/-! ### Subscriptions -/

/-- Adds a subscription, with a number that no other one has had. -/
def subscribe (store : Store) : Update Nat :=
  ⟨store.nextSubscription,
    { store with
      subscribers := store.subscribers ++ [store.nextSubscription]
      nextSubscription := store.nextSubscription + 1 }, []⟩

/-- Removes a subscription, and tells whether it was there. -/
def unsubscribe (store : Store) (id : Nat) : Update Bool :=
  let subscribers := store.subscribers.filter (· ≠ id)
  ⟨subscribers.length ≠ store.subscribers.length, { store with subscribers }, []⟩

/-- Which subscriber learns of which change, in order. -/
def deliveries (store : Store) (changes : List Change) : List (Nat × Change) :=
  changes.flatMap fun change => store.subscribers.map fun id => (id, change)

end Store

end ScreenDoc
