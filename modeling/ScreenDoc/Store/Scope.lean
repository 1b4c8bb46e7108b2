import ScreenDoc.Store.Reading

/-!
# Iteration scopes

The names that an iteration binds lie over the state: inner frames over outer ones, and all frames
over the values of the store.

## Main definitions

- `Scope` — the frames of bound names
- `Scope.lookup` — what a path leads to, if its root is bound
- `Scope.read` — a value by the text of its path, from the scope or else from the state
- `Scope.refreshed` — the scope with the present values of the state
-/

namespace ScreenDoc

/-- A bound name. -/
structure Scope.Entry where
  /-- The value it stands for. -/
  value : Value
  /-- Where in the state the value lives, if anywhere. -/
  source : Option Path

/-- The names that one iteration binds, in ascending order. -/
abbrev Scope.Frame := List (String × Scope.Entry)

/-- Frames of bound names. -/
structure Scope where
  /-- The frames, innermost first. -/
  frames : List Scope.Frame

/-- What a path with a bound root leads to. -/
structure Scope.Hit where
  /-- The value at the end of the path, if there is one. -/
  value : Option Value
  /-- The same place in the state, if the bound name has one. -/
  source : Option Path

namespace Scope

/-- The scope outside of all iterations. -/
def empty : Scope := ⟨[]⟩

instance : Inhabited Scope := ⟨empty⟩

/-- A scope with one more frame inside. -/
def push (scope : Scope) (frame : Frame) : Scope :=
  ⟨frame :: scope.frames⟩

/-- A scope without its innermost frame. -/
def pop (scope : Scope) : Scope :=
  ⟨scope.frames.tail⟩

/-- The number of frames. -/
def depth (scope : Scope) : Nat :=
  scope.frames.length

/-- The innermost binding of a name. -/
def innermost? (scope : Scope) (name : String) : Option Entry :=
  scope.frames.findSome? fun frame => Fields.get? frame name

/-- What a path leads to, if its first key is bound. -/
def lookup (scope : Scope) (path : Path) : Option Hit := do
  let entry ← scope.innermost? (← path.firstKey?)
  let rest := path.drop 1
  some ⟨entry.value.lookup rest.segments, entry.source.map fun source => source.append rest⟩

/-- The place in the state that a path stands for. There is none for a bound name that has none. -/
def sourcePath (scope : Scope) (path : Path) : Option Path :=
  match scope.lookup path with
  | some hit => hit.source
  | none => some path

/-- Asks for the value at a path. A path with a bound root is answered by the scope; the place that
it stands for counts as asked for. -/
def readPath (scope : Scope) (path : Path) : Reading (Option Value) :=
  match scope.lookup path with
  | none => .ask path .done
  | some ⟨value, none⟩ => .done value
  | some ⟨value, some source⟩ => .ask source fun _ => .done value

/-- Asks for the value at the path that a text writes. A text that is no path leads nowhere. -/
def read (scope : Scope) (text : List Char) : Reading (Option Value) :=
  match Path.ofChars? text with
  | some path => scope.readPath path
  | none => .done none

/-- A binding with the present value of the place that it stands for. -/
def Entry.refreshed (entry : Entry) (store : Store) : Entry :=
  match entry.source with
  | some source => ⟨(store.get? source).getD .null, some source⟩
  | none => entry

/-- A scope with the present values of the state. -/
def refreshed (scope : Scope) (store : Store) : Scope :=
  ⟨scope.frames.map fun frame => frame.map fun (name, entry) => (name, entry.refreshed store)⟩

end Scope

end ScreenDoc
