import ScreenDoc.Proofs.Store.Mirror
import ScreenDoc.Proofs.Text.Run

/-!
# Written paths

A path that was read from a text can be written and read again. Not every path is of that kind: a
key may be empty, or hold a dot, or begin with a blank that is trimmed away, and an index may be too
great. A path below a written one can be written, except that its index may be too great.

## Main definitions

- `Path.Written` — a path whose text writes this path and no other one
- `Path.isBounded` — a path without an index that is too great

## Main results

- `Path.ofText?_text` — reading the text of such a path gives the path, unless an index is too great
- `Path.written_of_ofChars?` — a path that was read is written and bounded
- `Path.Written.append_drop`, `Path.Written.index` — a path below a written one is written
- `Path.parse_eq_ok_iff_spelledBy` — exactly the spelled paths are read, and reading the canonical
  text of one gives it again
-/

namespace ScreenDoc

namespace Path

open Text (EndsRun Trimmed endsRun_nil endsRun_cons endsRun_append trim_eq_self trimmed_trim)

/-! ### Texts of steps -/

/-- The text of a step after the first key. -/
def stepChars : Segment → List Char
  | .key name => '.' :: name.toList
  | .index i => '[' :: (Nat.toDigits 10 i ++ [']'])

theorem toList_stepsText (steps : List Segment) :
    (stepsText steps).toList = steps.flatMap stepChars := by
  induction steps with
  | nil => rfl
  | cons segment rest ih =>
    cases segment with
    | key name => simp [stepsText, stepChars, ih]
    | index i => simp [stepsText, stepChars, ih, toString, Nat.toList_repr]

theorem toList_text (name : String) (rest : List Segment) :
    (text ⟨.key name :: rest⟩).toList = name.toList ++ rest.flatMap stepChars := by
  rw [text, String.toList_append, toList_stepsText]

/-- A step that can be written: an index, or a key of characters that a key may have. -/
def Writable : Segment → Prop
  | .key name => name.toList ≠ [] ∧ ∀ c ∈ name.toList, isKeyChar c
  | .index _ => True

/-- Whether a step is no index that is too great to be read. -/
def isBoundedStep : Segment → Bool
  | .key _ => true
  | .index i => i ≤ Text.maxIndex

/-- A path that starts with a key, of steps that can be written, with a text that has no blanks
around it. -/
structure Written (path : Path) : Prop where
  rooted : path.firstKey?.isSome
  writable : ∀ segment ∈ path.segments, Writable segment
  trimmed : Trimmed path.text.toList

theorem Written.exists_key {path : Path} (h : path.Written) :
    ∃ name rest, path = ⟨.key name :: rest⟩ ∧ Writable (.key name) ∧
      ∀ segment ∈ rest, Writable segment := by
  obtain ⟨segments⟩ := path
  match segments, h with
  | [], h => exact absurd h.rooted (by decide)
  | .index i :: rest, h => exact absurd h.rooted Bool.false_ne_true
  | .key name :: rest, h =>
    obtain ⟨hname, hrest⟩ := List.forall_mem_cons.mp h.writable
    exact ⟨name, rest, rfl, hname, hrest⟩

/-- Whether no index of a path is too great to be read. -/
def isBounded (path : Path) : Bool :=
  path.segments.all isBoundedStep

/-! ### Reading what was written -/

theorem index?_toDigits (i : Nat) :
    Text.index? (Nat.toDigits 10 i) = if i ≤ Text.maxIndex then some i else none := by
  have hall : ∀ c ∈ Nat.toDigits 10 i, c.isDigit := fun c hc =>
    Nat.isDigit_of_mem_toDigits (by decide) (by decide) hc
  have hdigits : Text.digits? (Nat.toDigits 10 i) = some i :=
    Text.digits?_eq_some_iff.mpr
      ⟨Nat.toDigits_ne_nil, hall, Nat.ofDigitChars_ten_toDigits⟩
  -- The first character is a digit, so it is no plus sign.
  have hplus : ∀ rest, Nat.toDigits 10 i = '+' :: rest → False := fun rest heq =>
    absurd (hall '+' (by rw [heq]; exact List.mem_cons_self)) (by decide)
  rw [Text.index?.eq_2 _ hplus, hdigits]
  rfl

/-- The reader of paths gets through the text of steps, unless an index is too great. -/
theorem run_flatMap_stepChars {steps : List Segment} (h : ∀ segment ∈ steps, Writable segment)
    {cursor : Cursor} {path : Path} (hpath : cursor.finish? = some path)
    (hne : path.segments ≠ []) :
    (cursor.run (steps.flatMap stepChars)).bind Cursor.finish? =
      if steps.all isBoundedStep then some ⟨path.segments ++ steps⟩ else none := by
  induction steps generalizing cursor path with
  | nil =>
    rw [List.append_nil]
    exact hpath
  | cons segment rest ih =>
    obtain ⟨hsegment, hrest⟩ := List.forall_mem_cons.mp h
    rw [List.flatMap_cons, Cursor.run_append, List.all_cons]
    cases segment with
    | key name =>
      obtain ⟨cursor', hrun, hkey⟩ := Cursor.run_dot_name hpath hsegment
      rw [String.ofList_toList] at hkey
      rw [stepChars, hrun, Option.bind_some, ih hrest hkey (by simp [Path.key])]
      rw [Path.key, List.append_assoc, isBoundedStep, Bool.true_and]
      rfl
    | index i =>
      have hall : ∀ c ∈ Nat.toDigits 10 i, c.isDigit := fun c hc =>
        Nat.isDigit_of_mem_toDigits (by decide) (by decide) hc
      have hclose : ∀ c ∈ Nat.toDigits 10 i, c ≠ ']' := by
        rintro c hc rfl
        exact absurd (hall _ hc) (by decide)
      rw [stepChars, Cursor.run_bracket_index hpath hne hclose,
        trim_eq_self (Text.trimmed_of_forall_isDigit hall), index?_toDigits, isBoundedStep]
      by_cases hi : i ≤ Text.maxIndex
      · have hindex : Cursor.finish? (.outside (path.index i).segments [] true) =
            some (path.index i) := rfl
        rw [if_pos hi, Option.map_some, Option.bind_some, ih hrest hindex (by simp [Path.index]),
          decide_eq_true hi, Bool.true_and, Path.index, List.append_assoc]
        rfl
      · rw [if_neg hi, decide_eq_false hi]
        rfl

/-- Reading the text of a path that can be written gives the path, unless an index is too great. -/
theorem ofText?_text {path : Path} (h : path.Written) :
    ofText? path.text = if path.isBounded then some path else none := by
  obtain ⟨name, rest, rfl, hname, hrest⟩ := h.exists_key
  obtain ⟨cursor, hrun, hfirst⟩ := Cursor.run_first hname
  rw [String.ofList_toList] at hfirst
  rw [ofText?, ofChars?, trim_eq_self h.trimmed, toList_text, Cursor.run_append, hrun,
    Option.bind_some, run_flatMap_stepChars hrest hfirst (List.cons_ne_nil _ _)]
  rfl

theorem Written.eq_of_ofText? {path other : Path} (h : path.Written)
    (htext : ofText? path.text = some other) : path = other := by
  rw [ofText?_text h] at htext
  exact Option.some.inj (Option.ite_none_right_eq_some.mp htext).2

/-! ### What is read -/

theorem StepText.writable {segment : Segment} {part : List Char} (h : StepText segment part) :
    Writable segment ∧ isBoundedStep segment := by
  cases h with
  | key hname =>
    rw [Writable, String.toList_ofList]
    exact ⟨hname, rfl⟩
  | index hi => exact ⟨trivial, decide_eq_true hi.le⟩
  | dotIndex hi => exact ⟨trivial, decide_eq_true hi.le⟩

/-- The canonical text of a step ends without blanks if another text of it does. -/
theorem StepText.endsRun_stepChars {segment : Segment} {part : List Char}
    (h : StepText segment part) (hends : EndsRun Text.isBlank part.reverse) :
    EndsRun Text.isBlank (stepChars segment).reverse := by
  cases h with
  | key hname =>
    rw [stepChars, String.toList_ofList]
    exact hends
  | index hi => simp [stepChars, endsRun_cons, Text.isBlank]
  | dotIndex hi => simp [stepChars, endsRun_cons, Text.isBlank]

theorem endsRun_flatMap_stepChars {steps : List Segment} {parts : List (List Char)}
    (h : List.Forall₂ StepText steps parts) (hends : EndsRun Text.isBlank parts.flatten.reverse) :
    EndsRun Text.isBlank (steps.flatMap stepChars).reverse := by
  induction h with
  | nil => exact endsRun_nil
  | @cons segment part steps parts hstep hsteps ih =>
    rw [List.flatten_cons, List.reverse_append] at hends
    rw [List.flatMap_cons, List.reverse_append]
    -- The last step decides.
    cases hsteps with
    | nil => exact hstep.endsRun_stepChars hends
    | @cons next _ _ _ _ _ =>
      refine (ih hends.left).append_of_ne_nil ?_
      cases next <;> simp [stepChars]

/-- A path that is spelled by a text without blanks around it can be written and read again. -/
theorem SpelledBy.written {path : Path} {text : List Char} (h : path.SpelledBy text)
    (htrimmed : Trimmed text) : path.Written ∧ path.isBounded := by
  obtain ⟨hname, hsteps⟩ := h
  rename_i name steps parts
  have hwritable : ∀ segment ∈ steps, Writable segment ∧ isBoundedStep segment :=
    ((List.forall₂_and_left _ _).mp (hsteps.imp fun _ _ h => ⟨h.writable, h⟩)).1
  obtain ⟨hstart, hfinish⟩ := htrimmed
  rw [List.reverse_append] at hfinish
  refine ⟨⟨rfl, List.forall_mem_cons.mpr ⟨?_, fun segment hsegment =>
    (hwritable segment hsegment).1⟩, ?_⟩, List.all_eq_true.mpr <|
    List.forall_mem_cons.mpr ⟨rfl, fun segment hsegment => (hwritable segment hsegment).2⟩⟩
  · rw [Writable, String.toList_ofList]
    exact hname
  · rw [toList_text, String.toList_ofList]
    refine ⟨hstart.left.append_of_ne_nil hname.1, ?_⟩
    rw [List.reverse_append]
    cases hsteps with
    | nil => exact hfinish
    | @cons next part rest parts hstep hrest =>
      have hends := endsRun_flatMap_stepChars (.cons hstep hrest) hfinish.left
      refine hends.append_of_ne_nil ?_
      cases next <;> simp [stepChars]

/-- A path that was read from a text can be written and read again. -/
theorem written_of_ofChars? {text : List Char} {path : Path} (h : ofChars? text = some path) :
    path.Written ∧ path.isBounded :=
  (ofChars?_eq_some_iff.mp h).written (trimmed_trim text)

/-- Reading a path, writing it and reading it again gives the path. -/
theorem ofText?_text_of_ofChars? {text : List Char} {path : Path}
    (h : ofChars? text = some path) : ofText? path.text = some path := by
  obtain ⟨hwritten, hbounded⟩ := written_of_ofChars? h
  exact (ofText?_text hwritten).trans (if_pos hbounded)

/-- A text is read as a path just if it spells one once the blanks around it are trimmed, and the
path is then the one that it spells. Such a path is the only one with its canonical text, and
reading this text gives it again. -/
theorem parse_eq_ok_iff_spelledBy (text : String) :
    (∀ path, parse text = .ok path ↔ path.SpelledBy (Text.trim text.toList)) ∧
      ((¬ ∃ path : Path, path.SpelledBy (Text.trim text.toList)) →
        parse text = .error (.invalidPath text)) ∧
      ∀ path, parse text = .ok path → parse path.text = .ok path ∧
        ∀ source other, parse source = .ok other → other.text = path.text → other = path := by
  have hparse (source : String) (path : Path) :
      parse source = .ok path ↔ ofText? source = some path := by
    rw [parse]
    cases ofText? source <;> simp
  have hspelled (path : Path) :
      parse text = .ok path ↔ path.SpelledBy (Text.trim text.toList) :=
    (hparse text path).trans ofChars?_eq_some_iff
  refine ⟨hspelled, fun hnone => ?_, fun path hpath => ?_⟩
  · cases htext : ofText? text with
    | none => rw [parse, htext]
    | some path => exact absurd ⟨path, ofChars?_eq_some_iff.mp htext⟩ hnone
  · have hback := ofText?_text_of_ofChars? ((hparse text path).mp hpath)
    refine ⟨(hparse path.text path).mpr hback, fun source other hother htext => ?_⟩
    have hagain := ofText?_text_of_ofChars? ((hparse source other).mp hother)
    rw [htext, hback] at hagain
    exact (Option.some.inj hagain).symm

example : ofText? " rows.[ +02 ].title\t" = some ⟨[.key "rows", .index 2, .key "title"]⟩ := by
  decide +kernel

/-! ### Paths below others -/

namespace Written

variable {path : Path}

/-- The text of further steps may follow that of a path if it does not end with a blank. -/
theorem append_steps (h : path.Written) {steps : List Segment}
    (hsteps : ∀ segment ∈ steps, Writable segment)
    (hends : EndsRun Text.isBlank (steps.flatMap stepChars).reverse) :
    (path.append ⟨steps⟩).Written := by
  obtain ⟨name, rest, rfl, hname, hrest⟩ := h.exists_key
  obtain ⟨hstart, hfinish⟩ := h.trimmed
  rw [toList_text] at hstart hfinish
  have htext : (Path.append ⟨.key name :: rest⟩ ⟨steps⟩).text.toList =
      (name.toList ++ rest.flatMap stepChars) ++ steps.flatMap stepChars := by
    rw [append, List.cons_append, toList_text, List.flatMap_append, List.append_assoc]
  refine ⟨rfl, List.forall_mem_cons.mpr ⟨hname, List.forall_mem_append.mpr ⟨hrest, hsteps⟩⟩, ?_⟩
  rw [Trimmed, htext, List.reverse_append]
  refine ⟨hstart.append_of_ne_nil ?_, endsRun_append hends hfinish⟩
  simp [hname.1]

/-- A path goes on with what follows the first key of another one. -/
theorem append_drop {other : Path} (h : path.Written) (hother : other.Written) :
    (path.append (other.drop 1)).Written := by
  obtain ⟨name, rest, rfl, -, hrest⟩ := hother.exists_key
  refine h.append_steps hrest ?_
  have hfinish := hother.trimmed.2
  rw [toList_text, List.reverse_append] at hfinish
  exact hfinish.left

/-- A path goes on with an index. -/
theorem index (h : path.Written) (i : Nat) : (path.index i).Written := by
  refine h.append_steps (List.forall_mem_singleton.mpr trivial) ?_
  simp [stepChars, endsRun_cons, Text.isBlank]

end Written

end Path

end ScreenDoc
