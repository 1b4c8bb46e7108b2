import ScreenDoc.Text.Integer

/-!
# Checked access

A text is cut at byte positions, and a count is kept in a machine word. Both can go wrong: a cut
out of range or inside of a character, an access behind the end of a list, a count that leaves the
range of the word. Here each of them has a result that says so.

## Main definitions

- `Fault` — what can go wrong
- `Text.size` — the number of bytes of a text
- `Text.byteAt` — the byte position of a character
- `Text.slice` — the part of a text between two byte positions
- `Text.charIndices` — the characters of a text with their byte positions
- `Fault.add`, `Fault.pred`, `Fault.get` — counts and accesses

## Main results

- `Text.slice_eq_ok_iff` — a text can be cut just between its characters
- `Text.slice_byteAt` — cuts in front of characters that are given by their numbers
-/

namespace ScreenDoc

/-- What can go wrong in a step of a machine. -/
inductive Fault where
  /-- A cut out of range, or inside of a character. -/
  | cut (start stop : Nat)
  /-- An access behind the end of a list. -/
  | access (i : Nat)
  /-- A count beyond the greatest word. -/
  | overflow
  /-- A count below zero. -/
  | underflow
  /-- A nested evaluation or another round that has no less to do. -/
  | endless
deriving DecidableEq, Repr

namespace Fault

variable {α β : Type}

@[simp] theorem ok_bind (a : α) (f : α → Except Fault β) : (Except.ok a >>= f) = f a := rfl

@[simp] theorem pure_eq (a : α) : (pure a : Except Fault α) = .ok a := rfl

/-- A sum of two counts. -/
def add (m n : Nat) : Except Fault Nat :=
  if m + n ≤ Text.maxIndex then .ok (m + n) else .error .overflow

/-- A count less one. -/
def pred : Nat → Except Fault Nat
  | 0 => .error .underflow
  | n + 1 => .ok n

/-- An item of a list. -/
def get (items : List α) (i : Nat) : Except Fault α :=
  match items[i]? with
  | some item => .ok item
  | none => .error (.access i)

/-- A list from an item on, or from its end. -/
def drop (items : List α) (i : Nat) : Except Fault (List α) :=
  if i ≤ items.length then .ok (items.drop i) else .error (.access i)

theorem add_eq_ok {m n : Nat} (h : m + n ≤ Text.maxIndex) : add m n = .ok (m + n) :=
  if_pos h

theorem pred_eq_ok {n : Nat} (h : 0 < n) : pred n = .ok (n - 1) := by
  cases n with
  | zero => exact absurd h (Nat.lt_irrefl 0)
  | succ n => rfl

theorem get_eq_ok {items : List α} {i : Nat} {item : α} (h : items[i]? = some item) :
    get items i = .ok item := by
  rw [get, h]

theorem drop_eq_ok {items : List α} {i : Nat} (h : i ≤ items.length) :
    drop items i = .ok (items.drop i) :=
  if_pos h

end Fault

namespace Text

/-! ### Bytes -/

/-- The number of bytes of a text. -/
def size : List Char → Nat
  | [] => 0
  | c :: rest => c.utf8Size + size rest

@[simp] theorem size_nil : size [] = 0 := rfl

@[simp] theorem size_cons (c : Char) (rest : List Char) :
    size (c :: rest) = c.utf8Size + size rest := rfl

@[simp] theorem size_append (a b : List Char) : size (a ++ b) = size a + size b := by
  induction a with
  | nil => exact (Nat.zero_add _).symm
  | cons c a ih => rw [List.cons_append, size_cons, size_cons, ih, Nat.add_assoc]

@[simp] theorem size_reverse (text : List Char) : size text.reverse = size text := by
  induction text with
  | nil => rfl
  | cons c rest ih =>
    rw [List.reverse_cons, size_append, ih, size_cons, size_cons, size_nil, Nat.add_zero,
      Nat.add_comm]

theorem length_le_size (text : List Char) : text.length ≤ size text := by
  induction text with
  | nil => exact Nat.le_refl 0
  | cons c rest ih =>
    have hpos := c.utf8Size_pos
    rw [List.length_cons, size_cons]
    omega

theorem size_le_of_isInfix {part text : List Char} (h : part <:+: text) :
    size part ≤ size text := by
  obtain ⟨before, after, rfl⟩ := h
  simp only [size_append]
  omega

/-- The byte position of a character that is given by its number. -/
def byteAt (text : List Char) (i : Nat) : Nat :=
  size (text.take i)

theorem byteAt_of_length_le {text : List Char} {i : Nat} (h : text.length ≤ i) :
    byteAt text i = size text := by
  rw [byteAt, List.take_of_length_le h]

theorem byteAt_length_append (front rest : List Char) :
    byteAt (front ++ rest) front.length = size front := by
  rw [byteAt, List.take_left]

theorem byteAt_succ {text : List Char} {i : Nat} {c : Char} (h : text[i]? = some c) :
    byteAt text (i + 1) = byteAt text i + c.utf8Size := by
  rw [byteAt, List.take_add_one, h, Option.toList_some, size_append, size_cons, size_nil,
    Nat.add_zero, byteAt]

theorem byteAt_le (text : List Char) (i : Nat) : byteAt text i ≤ size text :=
  size_le_of_isInfix (List.take_prefix i text).isInfix

/-! ### Cuts -/

/-- A text without its first bytes. There is none if they end inside of a character or behind the
text. -/
def dropBytes? : Nat → List Char → Option (List Char)
  | 0, text => some text
  | _ + 1, [] => none
  | n + 1, c :: rest =>
    if c.utf8Size ≤ n + 1 then dropBytes? (n + 1 - c.utf8Size) rest else none

/-- The first bytes of a text. There is no such text if they end inside of a character or behind the
text. -/
def takeBytes? : Nat → List Char → Option (List Char)
  | 0, _ => some []
  | _ + 1, [] => none
  | n + 1, c :: rest =>
    if c.utf8Size ≤ n + 1 then (takeBytes? (n + 1 - c.utf8Size) rest).map (c :: ·) else none

/-- The part of a text between two byte positions. -/
def slice (text : List Char) (start stop : Nat) : Except Fault (List Char) :=
  if start ≤ stop then
    match (dropBytes? start text).bind (takeBytes? (stop - start)) with
    | some part => .ok part
    | none => .error (.cut start stop)
  else .error (.cut start stop)

theorem dropBytes?_eq_some_iff {n : Nat} {text rest : List Char} :
    dropBytes? n text = some rest ↔ ∃ front, text = front ++ rest ∧ n = size front := by
  fun_induction dropBytes? n text generalizing rest with
  | case1 text =>
    constructor
    · rintro h
      cases h
      exact ⟨[], rfl, rfl⟩
    · rintro ⟨front, rfl, hsize⟩
      have hlength := length_le_size front
      rw [← hsize, Nat.le_zero, List.length_eq_zero_iff] at hlength
      rw [hlength, List.nil_append]
  | case2 n =>
    simp only [reduceCtorEq, false_iff, not_exists, not_and]
    intro front htext hsize
    obtain ⟨rfl, -⟩ := List.append_eq_nil_iff.mp htext.symm
    cases hsize
  | case3 n c text hle ih =>
    rw [ih]
    constructor
    · rintro ⟨front, rfl, hsize⟩
      exact ⟨c :: front, rfl, by rw [size_cons]; omega⟩
    · rintro ⟨front, htext, hsize⟩
      cases front with
      | nil => cases hsize
      | cons d front =>
        cases htext
        rw [size_cons] at hsize
        exact ⟨front, rfl, by omega⟩
  | case4 n c text hle =>
    simp only [reduceCtorEq, false_iff, not_exists, not_and]
    intro front htext hsize
    cases front with
    | nil => cases hsize
    | cons d front =>
      cases htext
      rw [size_cons] at hsize
      omega

theorem takeBytes?_eq_some_iff {n : Nat} {text front : List Char} :
    takeBytes? n text = some front ↔ front <+: text ∧ n = size front := by
  fun_induction takeBytes? n text generalizing front with
  | case1 text =>
    constructor
    · rintro h
      cases h
      exact ⟨List.nil_prefix, rfl⟩
    · rintro ⟨-, hsize⟩
      have hlength := length_le_size front
      rw [← hsize, Nat.le_zero, List.length_eq_zero_iff] at hlength
      rw [hlength]
  | case2 n =>
    simp only [reduceCtorEq, false_iff, not_and]
    intro htext hsize
    rw [List.prefix_nil.mp htext] at hsize
    cases hsize
  | case3 n c text hle ih =>
    rw [Option.map_eq_some_iff]
    constructor
    · rintro ⟨part, hpart, rfl⟩
      obtain ⟨hstarts, hsize⟩ := ih.mp hpart
      exact ⟨List.cons_prefix_cons.mpr ⟨rfl, hstarts⟩, by rw [size_cons]; omega⟩
    · rintro ⟨hstarts, hsize⟩
      cases front with
      | nil => cases hsize
      | cons d front =>
        obtain ⟨rfl, hfront⟩ := List.cons_prefix_cons.mp hstarts
        rw [size_cons] at hsize
        exact ⟨front, ih.mpr ⟨hfront, by omega⟩, rfl⟩
  | case4 n c text hle =>
    simp only [reduceCtorEq, false_iff, not_and]
    intro hstarts hsize
    cases front with
    | nil => cases hsize
    | cons d front =>
      obtain ⟨rfl, -⟩ := List.cons_prefix_cons.mp hstarts
      rw [size_cons] at hsize
      omega

/-- A text can be cut just between its characters and at its ends. -/
theorem slice_eq_ok_iff {text part : List Char} {start stop : Nat} :
    slice text start stop = .ok part ↔
      ∃ before after, text = before ++ part ++ after ∧ start = size before ∧
        stop = size before + size part := by
  rw [slice]
  constructor
  · intro h
    split at h
    · next hle =>
      split at h
      · next found hfound =>
        cases h
        obtain ⟨rest, hrest, hpart⟩ := Option.bind_eq_some_iff.mp hfound
        obtain ⟨before, rfl, rfl⟩ := dropBytes?_eq_some_iff.mp hrest
        obtain ⟨⟨after, rfl⟩, hsize⟩ := takeBytes?_eq_some_iff.mp hpart
        exact ⟨before, after, (List.append_assoc _ _ _).symm, rfl, by omega⟩
      · cases h
    · cases h
  · rintro ⟨before, after, rfl, rfl, rfl⟩
    have hdrop : dropBytes? (size before) (before ++ part ++ after) = some (part ++ after) :=
      dropBytes?_eq_some_iff.mpr ⟨before, List.append_assoc _ _ _, rfl⟩
    have htake : takeBytes? (size before + size part - size before) (part ++ after) = some part :=
      takeBytes?_eq_some_iff.mpr ⟨List.prefix_append _ _, Nat.add_sub_cancel_left ..⟩
    rw [if_pos (Nat.le_add_right _ _), hdrop, Option.bind_some, htake]

theorem slice_eq_ok {text part : List Char} (before after : List Char) {start stop : Nat}
    (htext : text = before ++ part ++ after) (hstart : start = size before)
    (hstop : stop = size before + size part) : slice text start stop = .ok part :=
  slice_eq_ok_iff.mpr ⟨before, after, htext, hstart, hstop⟩

/-- The part in front of a place between two characters. -/
theorem slice_front (front rest : List Char) : slice (front ++ rest) 0 (size front) = .ok front :=
  slice_eq_ok [] rest rfl rfl (Nat.zero_add _).symm

/-- The part behind a place between two characters. -/
theorem slice_rest (front rest : List Char) :
    slice (front ++ rest) (size front) (size (front ++ rest)) = .ok rest :=
  slice_eq_ok front [] (List.append_nil _).symm rfl (size_append front rest)

/-- The part behind a pattern that stands at a place between two characters. -/
theorem slice_behind_append (front pattern rest : List Char) :
    slice (front ++ (pattern ++ rest)) (size front + size pattern)
      (size (front ++ (pattern ++ rest))) = .ok rest := by
  rw [← List.append_assoc, ← size_append]
  exact slice_rest (front ++ pattern) rest

/-- A text can be cut at characters that are given by their numbers. -/
theorem slice_byteAt (text : List Char) {i j : Nat} (h : i ≤ j) :
    slice text (byteAt text i) (byteAt text j) = .ok ((text.drop i).take (j - i)) := by
  have hsplit : text.take j = text.take i ++ (text.drop i).take (j - i) := by
    rw [← List.take_add, Nat.add_sub_cancel' h]
  refine slice_eq_ok (text.take i) (text.drop j) ?_ rfl ?_
  · rw [← hsplit, List.take_append_drop]
  · rw [byteAt, hsplit, size_append]

/-- What stands behind a character of one byte. -/
theorem slice_behind {text : List Char} {i : Nat} {c : Char} (h : text[i]? = some c)
    (hc : c.utf8Size = 1) :
    slice text (byteAt text i + 1) (size text) = .ok (text.drop (i + 1)) := by
  have hlt := (List.getElem?_eq_some_iff.mp h).1
  have hstart : byteAt text (i + 1) = byteAt text i + 1 := hc ▸ byteAt_succ h
  have hall : (text.drop (i + 1)).take (text.length - (i + 1)) = text.drop (i + 1) :=
    List.take_of_length_le (Nat.le_of_eq List.length_drop)
  rw [← hstart, ← byteAt_of_length_le (Nat.le_refl text.length), slice_byteAt text hlt, hall]

/-! ### Characters with their positions -/

/-- The characters of a text with their byte positions, given that of the first one. -/
def charIndices : Nat → List Char → List (Nat × Char)
  | _, [] => []
  | i, c :: rest => (i, c) :: charIndices (i + c.utf8Size) rest

@[simp] theorem charIndices_map_snd (i : Nat) (text : List Char) :
    (charIndices i text).map Prod.snd = text := by
  induction text generalizing i with
  | nil => rfl
  | cons c rest ih => rw [charIndices, List.map_cons, ih]

@[simp] theorem length_charIndices (i : Nat) (text : List Char) :
    (charIndices i text).length = text.length := by
  rw [← List.length_map Prod.snd, charIndices_map_snd]

theorem charIndices_append (i : Nat) (a b : List Char) :
    charIndices i (a ++ b) = charIndices i a ++ charIndices (i + size a) b := by
  induction a generalizing i with
  | nil => rfl
  | cons c a ih =>
    rw [List.cons_append, charIndices, ih, charIndices, List.cons_append, size_cons, Nat.add_assoc]

theorem getElem?_charIndices (i : Nat) (text : List Char) (k : Nat) :
    (charIndices i text)[k]? = text[k]?.map fun c => (i + byteAt text k, c) := by
  induction text generalizing i k with
  | nil => rfl
  | cons c rest ih =>
    cases k with
    | zero => rfl
    | succ k =>
      rw [charIndices, List.getElem?_cons_succ, ih, List.getElem?_cons_succ, byteAt, byteAt,
        List.take_succ_cons, size_cons, Nat.add_assoc]

end Text

end ScreenDoc
