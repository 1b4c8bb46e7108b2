import ScreenDoc.Proofs.Expr.Forms
import ScreenDoc.Proofs.Expr.Indexing
import ScreenDoc.Proofs.Expr.Overlay
import ScreenDoc.Proofs.Expr.Placeholder

/-!
# Plain paths read through

A path of identifiers and indices is written like other forms of expressions. Its last key may be
that of an array property, and its last index is that of an indexing. If the path leads to a value,
the expression has this value all the same. An array property declines, since what has a field of
that name is an object. An indexing chooses the item that the path leads to.

## Main definitions

- `Expr.IsIdentifier`, `Expr.IsPlainPath` — the texts of identifiers and of plain paths
- `Store.HasBoundedArrays` — no array is longer than an index can say

## Main results

- `Expr.ofChars?_key`, `Expr.ofChars?_index` — a path and its last step
- `Expr.value_arrayForm_of_read` — the forms that a plain path has decline, or agree with the path
- `Expr.results_of_read` — a plain path that leads to a value is evaluated to it

## Design notes

A plain path is built from its first identifier by steps at the end, since the forms in question are
recognised by the last step. A letter is an ASCII letter or any character beyond ASCII that is not
blank.
-/

namespace ScreenDoc

/-! ### The lengths of arrays -/

/-- A state in which no array is longer than an integer of 64 bits can say, as no array is that fits
into a memory. A longer one could not be indexed up to its end. -/
def Store.HasBoundedArrays (store : Store) : Prop :=
  ∀ path items, store.get? path = some (.array items) → Text.fitsInt64 items.length

namespace Value

mutual

/-- The length of the longest array in a value. -/
def longest : Value → Nat
  | .array items => max items.length (longestItem items)
  | .object fields => longestField fields
  | _ => 0

/-- The length of the longest array in the items of an array. -/
def longestItem : List Value → Nat
  | [] => 0
  | item :: items => max item.longest (longestItem items)

/-- The length of the longest array in the fields of an object. -/
def longestField : List (String × Value) → Nat
  | [] => 0
  | (_, value) :: fields => max value.longest (longestField fields)

end

theorem longest_le_longestItem {items : List Value} {item : Value} (h : item ∈ items) :
    item.longest ≤ longestItem items := by
  induction items with
  | nil => exact absurd h List.not_mem_nil
  | cons first items ih =>
    rw [longestItem]
    rcases List.mem_cons.mp h with rfl | h
    · exact Nat.le_max_left _ _
    · exact (ih h).trans (Nat.le_max_right _ _)

theorem longest_le_longestField {fields : List (String × Value)} {field : String × Value}
    (h : field ∈ fields) : field.2.longest ≤ longestField fields := by
  induction fields with
  | nil => exact absurd h List.not_mem_nil
  | cons first fields ih =>
    rw [longestField]
    rcases List.mem_cons.mp h with rfl | h
    · exact Nat.le_max_left _ _
    · exact (ih h).trans (Nat.le_max_right _ _)

/-- Nothing in a value is longer than its longest array. -/
theorem length_le_longest {value : Value} {steps : List Segment} {items : List Value}
    (h : value.lookup steps = some (.array items)) : items.length ≤ value.longest := by
  induction steps generalizing value with
  | nil =>
    rw [lookup_nil] at h
    cases h
    rw [longest]
    exact Nat.le_max_left _ _
  | cons step steps ih =>
    cases step with
    | key name =>
      cases value with
      | object fields =>
        rw [lookup_key, fieldsOrNone_object, Option.bind_eq_some_iff] at h
        obtain ⟨child, hchild, hitems⟩ := h
        rw [longest]
        exact (ih hitems).trans (longest_le_longestField (Fields.mem_of_get? hchild))
      | _ => cases h
    | index i =>
      cases value with
      | array others =>
        rw [lookup_index, itemsOrNone_array, Option.bind_eq_some_iff] at h
        obtain ⟨child, hchild, hitems⟩ := h
        rw [longest]
        exact ((ih hitems).trans (longest_le_longestItem (List.mem_of_getElem? hchild))).trans
          (Nat.le_max_right _ _)
      | _ => cases h

end Value

/-- It is enough to look for the longest array in each value. -/
theorem Store.hasBoundedArrays_of_longest {store : Store}
    (h : ∀ field ∈ store.values, Text.fitsInt64 field.2.longest) : store.HasBoundedArrays := by
  rintro ⟨segments⟩ items hitems
  cases segments with
  | nil => cases hitems
  | cons segment rest =>
    cases segment with
    | index i => cases hitems
    | key name =>
      rw [get?_key, Option.bind_eq_some_iff] at hitems
      obtain ⟨value, hvalue, hlookup⟩ := hitems
      have hle := Value.length_le_longest hlookup
      have hfits := h _ (Fields.mem_of_get? hvalue)
      rw [Text.fitsInt64, Bool.and_eq_true, decide_eq_true_eq, decide_eq_true_eq, Text.minInt64,
        Text.maxInt64] at hfits ⊢
      simp only at hfits
      omega

namespace Expr

open Token (isNameStart isNameChar)
open ScreenDoc.Path (IsKey isKeyChar Cursor)

/-! ### Plain paths -/

/-- A letter, of ASCII or beyond. -/
def isLetter (c : Char) : Bool :=
  c.isAlpha || (128 ≤ c.toNat && !Text.isBlank c)

/-- A letter, a digit or an underscore. -/
def isWordChar (c : Char) : Bool :=
  isLetter c || c.isDigit || c = '_'

/-- A letter or an underscore, with letters, digits and underscores after it. -/
def IsIdentifier (text : List Char) : Prop :=
  ∃ start rest, text = start :: rest ∧ (isLetter start ∨ start = '_') ∧ ∀ c ∈ rest, isWordChar c

/-- An identifier with any number of identifiers after dots and of digits in brackets behind it. -/
inductive IsPlainPath : List Char → Prop where
  | name {name : List Char} (hname : IsIdentifier name) : IsPlainPath name
  | key {base name : List Char} (hbase : IsPlainPath base) (hname : IsIdentifier name) :
      IsPlainPath (base ++ '.' :: name)
  | index {base digits : List Char} (hbase : IsPlainPath base) (hne : digits ≠ [])
      (hdigits : ∀ c ∈ digits, c.isDigit) : IsPlainPath (base ++ '[' :: (digits ++ [']']))

/-- A character of ASCII that is neither a letter nor a digit nor the underscore is in no word. -/
theorem ne_of_isWordChar {c d : Char} (hc : isWordChar c) (hd : isWordChar d = false) : c ≠ d :=
  Text.ne_of_class hc hd

theorem isUnmarked_of_isWordChar {c : Char} (h : isWordChar c) : isUnmarked c := by
  have hmarks : "\"'()\x7b\x7d?$+-*/%".toList.all fun d => !isWordChar d := by decide
  have hblank : Text.isBlank c = false := by
    simp only [isWordChar, isLetter, Bool.or_eq_true, Bool.and_eq_true, Bool.not_eq_true',
      decide_eq_true_eq] at h
    rcases h with ((halpha | ⟨-, hblank⟩) | hdigit) | rfl
    · exact isBlank_eq_false_of_isNameChar (by simp [isNameChar, Char.isAlphanum, halpha])
    · exact hblank
    · exact Text.isBlank_eq_false_of_isDigit hdigit
    · decide
  rw [isUnmarked, hblank, Bool.not_false, Bool.true_and, Bool.not_eq_true', Bool.eq_false_iff,
    ne_eq, List.contains_iff_mem]
  intro hmem
  exact absurd h (by simpa using List.all_eq_true.mp hmarks c hmem)

theorem isWordChar_of_isDigit {c : Char} (h : c.isDigit) : isWordChar c := by
  simp [isWordChar, h]

namespace IsIdentifier

variable {name : List Char} (h : IsIdentifier name)

include h

theorem isWordChar : ∀ c ∈ name, isWordChar c := by
  obtain ⟨start, rest, rfl, hstart, hrest⟩ := h
  refine List.forall_mem_cons.mpr ⟨?_, hrest⟩
  rcases hstart with hletter | rfl
  · rw [Expr.isWordChar, hletter, Bool.true_or, Bool.true_or]
  · decide

theorem isKey : IsKey name := by
  refine ⟨?_, fun c hc => ?_⟩
  · obtain ⟨start, rest, rfl, -, -⟩ := h
    exact List.cons_ne_nil _ _
  · have hword := h.isWordChar c hc
    simp [isKeyChar, ne_of_isWordChar hword (d := '.') (by decide),
      ne_of_isWordChar hword (d := '[') (by decide), ne_of_isWordChar hword (d := ']') (by decide)]

end IsIdentifier

namespace IsPlainPath

variable {text : List Char}

theorem isUnmarked (h : IsPlainPath text) : ∀ c ∈ text, isUnmarked c := by
  have hword {name : List Char} (hname : IsIdentifier name) : ∀ c ∈ name, Expr.isUnmarked c :=
    fun c hc => isUnmarked_of_isWordChar (hname.isWordChar c hc)
  induction h with
  | name hname => exact hword hname
  | key _ hname ih =>
    exact List.forall_mem_append.mpr ⟨ih, List.forall_mem_cons.mpr ⟨by decide, hword hname⟩⟩
  | index _ _ hdigits ih =>
    have hinside {c : Char} (hc : c.isDigit) : Expr.isUnmarked c :=
      isUnmarked_of_isWordChar (isWordChar_of_isDigit hc)
    exact List.forall_mem_append.mpr ⟨ih, List.forall_mem_cons.mpr ⟨by decide,
      List.forall_mem_append.mpr ⟨fun c hc => hinside (hdigits c hc),
        List.forall_mem_singleton.mpr (by decide)⟩⟩⟩

theorem exists_start (h : IsPlainPath text) :
    ∃ start rest, text = start :: rest ∧ (isLetter start ∨ start = '_') := by
  induction h with
  | name hname =>
    obtain ⟨start, rest, rfl, hstart, -⟩ := hname
    exact ⟨start, rest, rfl, hstart⟩
  | key _ _ ih =>
    obtain ⟨start, rest, rfl, hstart⟩ := ih
    exact ⟨start, _, rfl, hstart⟩
  | index _ _ _ ih =>
    obtain ⟨start, rest, rfl, hstart⟩ := ih
    exact ⟨start, _, rfl, hstart⟩

theorem trimmed (h : IsPlainPath text) : Text.Trimmed text :=
  trimmed_of_unmarked h.isUnmarked

/-- A plain path begins like no number. -/
theorem literal?_eq_none (h : IsPlainPath text)
    (hwords : ∀ word ∈ ["true", "false", "null"], text ≠ word.toList) : literal? text = none := by
  obtain ⟨start, rest, rfl, hstart⟩ := h.exists_start
  have hdigit : start.isDigit = false := by
    rcases hstart with hletter | rfl
    · rw [Bool.eq_false_iff]
      intro hdigit
      have hrange : 48 ≤ start.toNat ∧ start.toNat ≤ 57 := by
        simpa [Char.isDigit, UInt32.le_iff_toNat_le] using hdigit
      simp only [isLetter, Bool.or_eq_true, Bool.and_eq_true, decide_eq_true_eq] at hletter
      rcases hletter with halpha | ⟨hbeyond, -⟩
      · have hname := Token.isDigit_eq_false_of_isNameStart (c := start)
          (by rw [isNameStart, halpha, Bool.true_or])
        rw [hdigit] at hname
        cases hname
      · omega
    · decide
  have hmark {d : Char} (hd : isLetter d = false ∧ d ≠ '_') : start ≠ d := by
    rintro rfl
    rcases hstart with hletter | hunderscore
    · rw [hd.1] at hletter
      cases hletter
    · exact hd.2 hunderscore
  refine literal?_eq_none_of_start hdigit ?_ hwords
  simp [hmark (d := '+') (by decide), hmark (d := '-') (by decide), hmark (d := '.') (by decide)]

/-! ### The path and its last step -/

/-- The reader of paths that gets through a plain path has read a path. -/
theorem exists_path_of_run (h : IsPlainPath text) {cursor : Cursor}
    (hrun : Cursor.run (.outside [] [] false) text = some cursor) :
    ∃ path, cursor.finish? = some path ∧ path.segments ≠ [] := by
  induction h generalizing cursor with
  | name hname =>
    obtain ⟨other, hother, hpath⟩ := Cursor.run_first hname.isKey
    rw [hrun] at hother
    cases hother
    exact ⟨_, hpath, List.cons_ne_nil _ _⟩
  | key _ hname ih =>
    rw [Cursor.run_append, Option.bind_eq_some_iff] at hrun
    obtain ⟨middle, hmiddle, hrun⟩ := hrun
    obtain ⟨path, hpath, -⟩ := ih hmiddle
    obtain ⟨other, hother, hkey⟩ := Cursor.run_dot_name hpath hname.isKey
    rw [hrun] at hother
    cases hother
    exact ⟨_, hkey, by simp [Path.key]⟩
  | index _ hne hdigits ih =>
    rw [Cursor.run_append, Option.bind_eq_some_iff] at hrun
    obtain ⟨middle, hmiddle, hrun⟩ := hrun
    obtain ⟨path, hpath, hsegments⟩ := ih hmiddle
    rw [Cursor.run_bracket_index hpath hsegments fun c hc =>
      Text.ne_of_class (hdigits c hc) (by decide)] at hrun
    obtain ⟨i, -, rfl⟩ := Option.map_eq_some_iff.mp hrun
    exact ⟨path.index i, rfl, by simp [Path.index]⟩

theorem exists_run (h : IsPlainPath text) {path : Path} (hpath : Path.ofChars? text = some path) :
    ∃ cursor, Cursor.run (.outside [] [] false) text = some cursor ∧
      cursor.finish? = some path := by
  rwa [Path.ofChars?, Text.trim_eq_self h.trimmed, Option.bind_eq_some_iff] at hpath

end IsPlainPath

variable {base : List Char}

/-- The path of a text in front of a last key, and the key. -/
theorem ofChars?_key (hbase : IsPlainPath base) {name : List Char} (hname : IsIdentifier name)
    {path : Path} (h : Path.ofChars? (base ++ '.' :: name) = some path) :
    ∃ front, Path.ofChars? base = some front ∧ path = front.key (String.ofList name) := by
  obtain ⟨cursor, hrun, hfinish⟩ := (IsPlainPath.key hbase hname).exists_run h
  rw [Cursor.run_append, Option.bind_eq_some_iff] at hrun
  obtain ⟨middle, hmiddle, hrun⟩ := hrun
  obtain ⟨front, hfront, -⟩ := hbase.exists_path_of_run hmiddle
  obtain ⟨other, hother, hkey⟩ := Cursor.run_dot_name hfront hname.isKey
  rw [hrun] at hother
  cases hother
  rw [hfinish] at hkey
  refine ⟨front, ?_, Option.some.inj hkey⟩
  rw [Path.ofChars?, Text.trim_eq_self hbase.trimmed, hmiddle, Option.bind_some, hfront]

/-- The path of a text in front of a last index, and the index. -/
theorem ofChars?_index (hbase : IsPlainPath base) {digits : List Char} (hne : digits ≠ [])
    (hdigits : ∀ c ∈ digits, c.isDigit) {path : Path}
    (h : Path.ofChars? (base ++ '[' :: (digits ++ [']'])) = some path) :
    ∃ front, Path.ofChars? base = some front ∧ path = front.index (Text.digitsValue digits) := by
  obtain ⟨cursor, hrun, hfinish⟩ := (IsPlainPath.index hbase hne hdigits).exists_run h
  rw [Cursor.run_append, Option.bind_eq_some_iff] at hrun
  obtain ⟨middle, hmiddle, hrun⟩ := hrun
  obtain ⟨front, hfront, hsegments⟩ := hbase.exists_path_of_run hmiddle
  rw [Cursor.run_bracket_index hfront hsegments fun c hc =>
    Text.ne_of_class (hdigits c hc) (by decide)] at hrun
  obtain ⟨i, hi, rfl⟩ := Option.map_eq_some_iff.mp hrun
  rw [Text.trim_eq_self (Text.trimmed_of_forall_isDigit hdigits)] at hi
  obtain ⟨sign, others, htext, hsign, hvalue, -⟩ := Text.index?_eq_some_iff.mp hi
  have hsame : others = digits := by
    rcases hsign with rfl | rfl
    · exact htext.symm
    · exact absurd (hdigits '+' (by simp [htext])) (by decide)
  obtain ⟨-, -, rfl⟩ := Text.digits?_eq_some_iff.mp hvalue
  refine ⟨front, ?_, ?_⟩
  · rw [Path.ofChars?, Text.trim_eq_self hbase.trimmed, hmiddle, Option.bind_some, hfront]
  · rw [hsame] at hfinish
    exact (Option.some.inj hfinish).symm

/-! ### The forms that a plain path has -/

/-- The base of an array property is all that stands in front of the last key. -/
theorem eq_of_helper?_key {name : List Char} (hname : IsIdentifier name) {helper : Helper}
    {front : List Char} (h : helper? (base ++ '.' :: name) = some (helper, front)) :
    front = base := by
  rw [helper?, List.findSome?_eq_some_iff] at h
  obtain ⟨-, other, -, -, h, -⟩ := h
  split at h
  · next front' hend =>
    obtain ⟨-, heq⟩ := Option.ite_none_right_eq_some.mp h
    cases heq
    have htext := Text.eq_append_of_withoutEnd? hend
    obtain ⟨start, key, hending, hkey⟩ := helper.exists_ending
    have hdot : '.' ∉ start :: key := fun hmem =>
      absurd (List.all_eq_true.mp hkey _ hmem) (by decide)
    have hnodot : '.' ∉ name := fun hmem => absurd (hname.isWordChar _ hmem) (by decide)
    rw [hending] at htext
    have hsame := eq_of_dot_suffix hdot hnodot ⟨front, htext.symm⟩
    rw [hsame] at htext
    exact (List.append_cancel_right htext).symm
  · cases h

variable {scope : Scope} {store : Store} {text : List Char} {v : Value}

/-- The value that is read at the path of a plain text. -/
theorem value_readPathText_of_ofChars? (sub : Evaluation) (h : IsPlainPath text) {path : Path}
    (hpath : Path.ofChars? text = some path) :
    (readPathText scope sub text).value store.get? = (store.under scope).get? path := by
  rw [readPathText_of_ofChars? sub h.trimmed hpath, Scope.value_readPath, Store.get?_under]

/-- What has a value under a key is an object, and an object has no array properties. -/
theorem apply_eq_none_of_key {front : Path} (hfront : front.firstKey?.isSome) {name : String}
    (h : store.get? (front.key name) = some v) (helper : Helper) :
    helper.apply (store.get? front) = none := by
  have hsplit : store.get? (front.append ⟨[.key name]⟩) =
      (store.get? front).bind (Value.lookup · [.key name]) := Store.get?_append _ hfront
  rw [show front.append ⟨[.key name]⟩ = front.key name from rfl, h] at hsplit
  obtain ⟨value, hvalue, hlookup⟩ := Option.bind_eq_some_iff.mp hsplit.symm
  rw [hvalue]
  cases value with
  | object fields => cases helper <;> rfl
  | _ => cases hlookup

/-- What has a value at an index is an array, and the value is an item of it. -/
theorem exists_items_of_index {front : Path} (hfront : front.firstKey?.isSome) {i : Nat}
    (h : store.get? (front.index i) = some v) :
    ∃ items, store.get? front = some (.array items) ∧ items[i]? = some v := by
  have hsplit : store.get? (front.append ⟨[.index i]⟩) =
      (store.get? front).bind (Value.lookup · [.index i]) := Store.get?_append _ hfront
  rw [show front.append ⟨[.index i]⟩ = front.index i from rfl, h] at hsplit
  obtain ⟨value, hvalue, hlookup⟩ := Option.bind_eq_some_iff.mp hsplit.symm
  cases value with
  | array items =>
    rw [Value.lookup_index] at hlookup
    obtain ⟨item, hitem, hlast⟩ := Option.bind_eq_some_iff.mp hlookup
    rw [Value.lookup_nil] at hlast
    exact ⟨items, hvalue, hlast ▸ hitem⟩
  | _ => cases hlookup

/-- Where a plain path leads to a value, the forms of arrays that it has decline or give this
value. -/
theorem value_arrayForm_of_read (h : IsPlainPath text)
    (hbounded : (store.under scope).HasBoundedArrays) {path : Path}
    (hpath : Path.ofChars? text = some path)
    (hvalue : (store.under scope).get? path = some v) :
    (arrayForm scope (below scope text) text).value store.get? = none ∨
      (arrayForm scope (below scope text) text).value store.get? = some v := by
  have hcontains : contains? text = none :=
    contains?_eq_none (Text.not_mem_of_class h.isUnmarked (by decide))
  rw [arrayForm, hcontains]
  cases h with
  | name hname =>
    have hword {c : Char} (hc : isWordChar c = false) : c ∉ text :=
      Text.not_mem_of_class hname.isWordChar hc
    rw [helper?_eq_none_of_no_dot (hword (by decide)), indexed?_eq_none fun hlast =>
      hword (by decide) (List.mem_of_getLast? hlast)]
    exact .inl rfl
  | @key base name hbase hname =>
    obtain ⟨front, hfront, rfl⟩ := ofChars?_key hbase hname hpath
    cases hhelper : helper? (base ++ '.' :: name) with
    | none =>
      have hlast : (base ++ '.' :: name).getLast? ≠ some ']' := by
        intro hlast
        rw [List.getLast?_append_of_ne_nil _ (List.cons_ne_nil _ _)] at hlast
        rcases List.mem_cons.mp (List.mem_of_getLast? hlast) with hdot | hmem
        · exact absurd hdot (by decide)
        · exact absurd (hname.isWordChar _ hmem) (by decide)
      simp only [indexed?_eq_none hlast]
      exact .inl rfl
    | some parts =>
      obtain ⟨helper, other⟩ := parts
      obtain rfl := eq_of_helper?_key hname hhelper
      have hnone := apply_eq_none_of_key (Path.firstKey?_ofChars? hfront) hvalue helper
      simp only [Reading.value_bind, value_readPathText_of_ofChars? _ hbase hfront, hnone]
      exact .inl rfl
  | @index base digits hbase hne hdigits =>
    obtain ⟨front, hfront, rfl⟩ := ofChars?_index hbase hne hdigits hpath
    obtain ⟨items, hitems, hitem⟩ :=
      exists_items_of_index (Path.firstKey?_ofChars? hfront) hvalue
    have hhelper : helper? (base ++ '[' :: (digits ++ [']'])) = none := by
      have hconcat := helper?_bracket (base ++ '[' :: digits)
      rwa [List.append_assoc, List.cons_append] at hconcat
    have hindexed : indexed? (base ++ '[' :: (digits ++ [']'])) = some (base, digits) :=
      indexed?_bracket fun c hc => ⟨Text.ne_of_class (hdigits c hc) (by decide),
        Text.ne_of_class (hdigits c hc) (by decide)⟩
    have hfits : Text.fitsInt64 (Text.digitsValue digits) := by
      have hlength := hbounded front items hitems
      have hlt := (List.getElem?_eq_some_iff.mp hitem).1
      rw [Text.fitsInt64, Bool.and_eq_true, decide_eq_true_eq, decide_eq_true_eq, Text.minInt64,
        Text.maxInt64] at hlength ⊢
      omega
    have hshorter : digits.length < (base ++ '[' :: (digits ++ [']'])).length := by
      simp only [List.length_append, List.length_cons]
      omega
    simp only [hhelper, hindexed]
    split
    · refine .inr ?_
      rw [evalWith, below, if_pos hshorter, value?_digits hne hdigits hfits]
      simp only [Reading.done_bind, Option.getD_some, Reading.value_bind,
        value_readPathText_of_ofChars? _ hbase hfront, hitems, position?_ofInt hfits, itemAt,
        Option.bind_some, hitem]
      rfl
    · exact .inl rfl

/-- The value of a plain path that leads to one. -/
theorem value_value?_of_read (h : IsPlainPath text)
    (hwords : ∀ word ∈ ["true", "false", "null"], text ≠ word.toList)
    (hbounded : (store.under scope).HasBoundedArrays) {path : Path}
    (hpath : Path.ofChars? text = some path) (hvalue : (store.under scope).get? path = some v) :
    (value? scope text).value store.get? = some v := by
  have hne : text ≠ [] := by
    obtain ⟨start, rest, rfl, -⟩ := h.exists_start
    exact List.cons_ne_nil _ _
  rw [value?_of_unmarked hne h.isUnmarked, Reading.value_bind]
  rcases value_arrayForm_of_read h hbounded hpath hvalue with hform | hform
  · simp only [hform, h.literal?_eq_none hwords, value_readPathText_of_ofChars? _ h hpath, hvalue]
  · simp only [hform]
    rfl

/-- A plain path always reads through: if a reader gives a value for it, in a state whose arrays fit
into a memory, it is evaluated to this value, and a placeholder with it shows the text of the
value. -/
theorem results_of_read (hplain : IsPlainPath text)
    (hwords : ∀ word ∈ ["true", "false", "null"], text ≠ word.toList)
    (hbounded : (store.under scope).HasBoundedArrays)
    (hread : (Recorder.read ⟨scope, store, []⟩ (String.ofList text)).1 = some v) :
    (results scope store text).value = v ∧
      (results scope store (Template.placeholder text)).filled = v.text.toList := by
  obtain ⟨path, hpath, hvalue⟩ : ∃ path, Path.ofChars? text = some path ∧
      (store.under scope).get? path = some v := by
    rw [Recorder.read_under, Store.read, Option.bind_eq_some_iff] at hread
    obtain ⟨path, hpath, hvalue⟩ := hread
    rw [Path.ofText?, String.toList_ofList] at hpath
    exact ⟨path, hpath, hvalue⟩
  have hresult := value_value?_of_read hplain hwords hbounded hpath hvalue
  have hclosed : Closed '\x7b' '\x7d' text := .of_forall fun c hc =>
    ⟨isQuote_eq_false_of_isUnmarked (hplain.isUnmarked c hc),
      Text.ne_of_class (hplain.isUnmarked c hc) (by decide),
      Text.ne_of_class (hplain.isUnmarked c hc) (by decide)⟩
  constructor
  · simp only [results, eval, evalWith, Reading.value_bind, hresult]
    rfl
  · simp only [results, fill_placeholder scope hclosed, Reading.value_bind, hresult]
    rfl

/-- A list of rows with fields that are named like array properties. -/
def namedRows : Value :=
  .array [.object [("count", .int 7), ("true", .string "yes")]]

/-- A field of the first row is read through a bound name, and not counted. The name has letters
beyond ASCII, and the index has a zero in front. -/
theorem results_of_read_count :
    let scope := Scope.empty.push [("größe", ⟨.object [("rows", namedRows)], none⟩)]
    (results scope .empty (Template.placeholder "größe.rows[00].count".toList)).filled =
      "7".toList := by
  intro scope
  have hword {start : Char} {rest : List Char} (h : isLetter start ∧ rest.all isWordChar) :
      IsIdentifier (start :: rest) :=
    ⟨start, rest, rfl, .inl h.1, fun c hc => List.all_eq_true.mp h.2 c hc⟩
  have hsize : IsIdentifier "größe".toList := hword (by decide)
  have hrows : IsIdentifier "rows".toList := hword (by decide)
  have hcount : IsIdentifier "count".toList := hword (by decide)
  have hzeros : "00".toList ≠ [] ∧ ∀ c ∈ "00".toList, c.isDigit :=
    ⟨by decide, List.all_eq_true.mp (by decide)⟩
  have hplain : IsPlainPath "größe.rows[00].count".toList :=
    .key (.index (.key (.name hsize) hrows) hzeros.1 hzeros.2) hcount
  have hbounded : (Store.empty.under scope).HasBoundedArrays :=
    Store.hasBoundedArrays_of_longest (List.forall_mem_singleton.mpr (by decide))
  exact (results_of_read hplain (by decide) hbounded rfl).2.trans (by decide +kernel)

end Expr

end ScreenDoc
