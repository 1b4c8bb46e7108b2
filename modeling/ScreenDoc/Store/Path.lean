import ScreenDoc.Text.Blank
import ScreenDoc.Text.Integer
import ScreenDoc.Text.Quoted
import ScreenDoc.Value.Basic

/-!
# State paths

A path names a place in the state: `user.name`, `items[2].title`.

## Main definitions

- `Segment` — one step of a path: the key of a field or the index of an item
- `Path` — a path
- `Path.Cursor` — the state of the reader of paths
- `Path.ofText?` — the path that a text writes
- `Path.text` — the canonical text of a path
- `Value.lookup` — the value at the end of a path

## Design notes

The grammar of a path, after the blanks around the text are trimmed, is a key followed by any
number of steps. A step is a dot and a key, or a bracketed index with an optional dot in front. A
key is one or more characters other than the dot and the square brackets, and an index may stand
between blanks and have a plus sign.
-/

namespace ScreenDoc

/-- One step of a path. -/
inductive Segment where
  | key (name : String)
  | index (i : Nat)
deriving DecidableEq, Repr

/-- The order of steps: keys by their characters, then indices by their value. -/
def Segment.compare : Segment → Segment → Ordering
  | .key a, .key b => Ord.compare a b
  | .key _, .index _ => .lt
  | .index _, .key _ => .gt
  | .index a, .index b => Ord.compare a b

/-- A path of steps from the top of the state. -/
structure Path where
  /-- The steps, outermost first. -/
  segments : List Segment
deriving DecidableEq, Repr

namespace Path

instance : Inhabited Path := ⟨⟨[]⟩⟩

/-! ### Reading a path -/

/-- Where the reader of a path stands. -/
inductive Cursor where
  /-- Outside of brackets, after some steps, with the key that is being read and whether an index
  has just ended. -/
  | outside (segments : List Segment) (name : List Char) (afterIndex : Bool)
  /-- Inside of brackets, after some steps, with the characters since the opening bracket. -/
  | inside (segments : List Segment) (digits : List Char)
deriving DecidableEq, Repr

namespace Cursor

/-- The steps with the key that has been read, if there is one. -/
def withKey (segments : List Segment) (name : List Char) : List Segment :=
  if name.isEmpty then segments else segments ++ [.key (String.ofList name)]

/-- Where the reader stands after one more character. -/
def next : Cursor → Char → Option Cursor
  | inside segments digits, ']' =>
    (Text.index? (Text.trim digits)).map fun i => outside (segments ++ [.index i]) [] true
  | inside segments digits, c => some (inside segments (digits ++ [c]))
  | outside segments name afterIndex, '.' =>
    -- The dot after an index has no key in front of it.
    if name.isEmpty && !afterIndex then none
    else some (outside (withKey segments name) [] false)
  | outside segments name _, '[' =>
    if name.isEmpty && segments.isEmpty then none
    else some (inside (withKey segments name) [])
  | outside _ _ _, ']' => none
  | outside segments name afterIndex, c =>
    if afterIndex then none else some (outside segments (name ++ [c]) false)

/-- Where the reader stands after the characters of a text. -/
def run (cursor : Cursor) (text : List Char) : Option Cursor :=
  text.foldlM next cursor

/-- The path that has been read when the text ends. -/
def finish? : Cursor → Option Path
  | outside segments name afterIndex =>
    if name.isEmpty && !afterIndex then none else some ⟨withKey segments name⟩
  | inside _ _ => none

end Cursor

/-- The path that a text writes, character by character. -/
def ofChars? (text : List Char) : Option Path :=
  (Cursor.run (.outside [] [] false) (Text.trim text)).bind Cursor.finish?

/-- The path that a text writes. -/
def ofText? (text : String) : Option Path :=
  ofChars? text.toList

/-! ### Writing a path -/

/-- The text of the steps after the first key. -/
def stepsText : List Segment → String
  | [] => ""
  | .key name :: rest => "." ++ name ++ stepsText rest
  | .index i :: rest => "[" ++ toString i ++ "]" ++ stepsText rest

/-- The canonical text of a path. -/
def text (path : Path) : String :=
  match path.segments with
  | .key name :: rest => name ++ stepsText rest
  | steps => stepsText steps

/-! ### Parts of a path -/

/-- The number of steps. -/
def length (path : Path) : Nat :=
  path.segments.length

/-- Whether a path has no steps. -/
def isEmpty (path : Path) : Bool :=
  path.segments.isEmpty

/-- The first step, if it is a key. -/
def firstKey? (path : Path) : Option String :=
  match path.segments with
  | .key name :: _ => some name
  | _ => none

/-- The path of one key. -/
def ofKey (name : String) : Path :=
  ⟨[.key name]⟩

/-- A path with a key after it. -/
def key (path : Path) (name : String) : Path :=
  ⟨path.segments ++ [.key name]⟩

/-- A path with an index after it. -/
def index (path : Path) (i : Nat) : Path :=
  ⟨path.segments ++ [.index i]⟩

/-- A path continued by another one. -/
def append (path other : Path) : Path :=
  ⟨path.segments ++ other.segments⟩

/-- A path without its first steps. -/
def drop (path : Path) (n : Nat) : Path :=
  ⟨path.segments.drop n⟩

/-- The first steps of a path. -/
def take (path : Path) (n : Nat) : Path :=
  ⟨path.segments.take n⟩

/-! ### Relations between paths -/

/-- Whether a path equals another one or extends it. -/
def startsWith (path start : Path) : Bool :=
  start.segments.isPrefixOf path.segments

/-- Whether one of two paths equals or extends the other. -/
def overlaps (path other : Path) : Bool :=
  path.startsWith other || other.startsWith path

/-- The order of paths, step by step; a path comes before its extensions. -/
def compare (path other : Path) : Ordering :=
  go path.segments other.segments
where
  /-- The first steps that differ decide. -/
  go : List Segment → List Segment → Ordering
    | [], [] => .eq
    | [], _ :: _ => .lt
    | _ :: _, [] => .gt
    | a :: as, b :: bs => (Segment.compare a b).then (go as bs)

end Path

/-- The value at the end of a path that starts at a value. -/
def Value.lookup : Value → List Segment → Option Value
  | value, [] => some value
  | .object fields, .key name :: rest => (Fields.get? fields name).bind (Value.lookup · rest)
  | .array items, .index i :: rest => items[i]?.bind (Value.lookup · rest)
  | _, _ :: _ => none

end ScreenDoc
