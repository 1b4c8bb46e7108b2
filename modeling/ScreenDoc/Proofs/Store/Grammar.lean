import Mathlib.Data.List.Forall2
import ScreenDoc.Proofs.Text.Run
import ScreenDoc.Store.Path

/-!
# The grammar of paths

A path is spelled by a key and a text for each further step: a dot and a key, or a bracketed index
with an optional dot in front. The reader of paths goes through a text character by character. What
it has read wherever it stands is a beginning of this grammar, and it gets through every text of it.

## Main definitions

- `Path.IsKey`, `Path.IndexText`, `Path.StepText` — the texts of keys, indices and steps
- `Path.SpelledBy` — the texts of a path
- `Path.Cursor.HasRead` — what the reader of paths has read where it stands

## Main results

- `Path.Cursor.hasRead_next`, `Path.Cursor.hasRead_run` — one more character, and a whole text
- `Path.Cursor.exists_run_of_spelledBy` — the reader gets through what spells a path
- `Path.ofChars?_eq_some_iff` — the reader reads exactly the grammar
-/

namespace ScreenDoc

namespace Text

/-! ### Positions -/

theorem digits?_eq_some_iff {text : List Char} {n : Nat} :
    digits? text = some n ↔
      text ≠ [] ∧ (∀ c ∈ text, c.isDigit) ∧ digitsValue text = n := by
  simp [digits?, and_assoc]

theorem isBlank_eq_false_of_isDigit {c : Char} (h : c.isDigit) : isBlank c = false := by
  have hrange : 48 ≤ c.toNat ∧ c.toNat ≤ 57 := by
    simpa [Char.isDigit, UInt32.le_iff_toNat_le] using h
  simp only [isBlank, Bool.or_eq_false_iff, Bool.and_eq_false_iff, decide_eq_false_iff_not,
    beq_eq_false_iff_ne]
  omega

theorem trimmed_of_forall_isDigit {text : List Char} (h : ∀ c ∈ text, c.isDigit) : Trimmed text :=
  ⟨fun c hc => isBlank_eq_false_of_isDigit (h c (List.mem_of_mem_head? hc)),
    fun c hc => isBlank_eq_false_of_isDigit
      (h c (List.mem_reverse.mp (List.mem_of_mem_head? hc)))⟩

/-- A position is written by digits, with or without a plus sign. -/
theorem index?_eq_some_iff {text : List Char} {i : Nat} :
    index? text = some i ↔
      ∃ sign digits, text = sign ++ digits ∧ (sign = [] ∨ sign = ['+']) ∧
        digits? digits = some i ∧ i ≤ maxIndex := by
  have hbound (digits : List Char) :
      ((digits? digits).bind fun n => if n ≤ maxIndex then some n else none) = some i ↔
        digits? digits = some i ∧ i ≤ maxIndex := by
    rw [Option.bind_eq_some_iff]
    constructor
    · rintro ⟨n, hn, hite⟩
      obtain ⟨hle, hni⟩ := Option.ite_none_right_eq_some.mp hite
      cases hni
      exact ⟨hn, hle⟩
    · rintro ⟨hi, hle⟩
      exact ⟨i, hi, if_pos hle⟩
  unfold index?
  simp only [Option.bind_eq_bind]
  split
  · next rest =>
    rw [hbound]
    constructor
    · intro h
      exact ⟨['+'], rest, rfl, .inr rfl, h⟩
    · rintro ⟨sign, digits, htext, rfl | rfl, hdigits, hle⟩
      · -- A plus sign is no digit.
        rw [List.nil_append] at htext
        have hall := (digits?_eq_some_iff.mp hdigits).2.1
        exact absurd (hall '+' (by simp [← htext])) (by decide)
      · cases htext
        exact ⟨hdigits, hle⟩
  · next hplus =>
    rw [hbound]
    constructor
    · intro h
      exact ⟨[], text, rfl, .inl rfl, h⟩
    · rintro ⟨sign, digits, rfl, rfl | rfl, h⟩
      · exact h
      · exact absurd rfl (hplus digits)

end Text

namespace Path

open Text (Trimmed EndsRun endsRun_append)

/-! ### The texts of a path -/

/-- Whether a character can be part of a key. -/
def isKeyChar (c : Char) : Bool :=
  c ≠ '.' && c ≠ '[' && c ≠ ']'

/-- One or more characters that can be part of a key. -/
def IsKey (text : List Char) : Prop :=
  text ≠ [] ∧ ∀ c ∈ text, isKeyChar c

/-- Digits of a value that is not too great, with an optional plus sign and between blanks. -/
inductive IndexText (i : Nat) : List Char → Prop where
  | mk {before sign digits after : List Char} (hbefore : ∀ c ∈ before, Text.isBlank c)
      (hsign : sign = [] ∨ sign = ['+']) (hne : digits ≠ []) (hdigits : ∀ c ∈ digits, c.isDigit)
      (hvalue : Text.digitsValue digits = i) (hle : i ≤ Text.maxIndex)
      (hafter : ∀ c ∈ after, Text.isBlank c) :
      IndexText i (before ++ (sign ++ digits) ++ after)

/-- The texts of a step after the first key. -/
inductive StepText : Segment → List Char → Prop where
  | key {name : List Char} (h : IsKey name) : StepText (.key (String.ofList name)) ('.' :: name)
  | index {i : Nat} {inside : List Char} (h : IndexText i inside) :
      StepText (.index i) ('[' :: (inside ++ [']']))
  | dotIndex {i : Nat} {inside : List Char} (h : IndexText i inside) :
      StepText (.index i) ('.' :: '[' :: (inside ++ [']']))

/-- The texts of a path: a key, and after it a text of each further step. -/
inductive SpelledBy : Path → List Char → Prop where
  | mk {name : List Char} {steps : List Segment} {parts : List (List Char)} (hname : IsKey name)
      (hsteps : List.Forall₂ StepText steps parts) :
      SpelledBy ⟨.key (String.ofList name) :: steps⟩ (name ++ parts.flatten)

/-- A path that is spelled goes on with a step that is spelled. -/
theorem SpelledBy.append {steps : List Segment} {step : Segment} {text part : List Char}
    (h : SpelledBy ⟨steps⟩ text) (hstep : StepText step part) :
    SpelledBy ⟨steps ++ [step]⟩ (text ++ part) := by
  cases h with
  | @mk name rest parts hname hrest =>
    have hparts : List.Forall₂ StepText (rest ++ [step]) (parts ++ [part]) :=
      List.rel_append hrest (.cons hstep .nil)
    have hspelled := SpelledBy.mk hname hparts
    rw [List.flatten_append, List.flatten_singleton, ← List.append_assoc] at hspelled
    exact hspelled

/-- What stands between brackets is read as a position just if it is the text of an index. -/
theorem index?_trim_eq_some_iff {inside : List Char} {i : Nat} :
    Text.index? (Text.trim inside) = some i ↔ IndexText i inside := by
  constructor
  · intro h
    obtain ⟨sign, digits, htrim, hsign, hdigits, hle⟩ := Text.index?_eq_some_iff.mp h
    obtain ⟨hne, hall, hvalue⟩ := Text.digits?_eq_some_iff.mp hdigits
    obtain ⟨before, after, hbefore, hafter, -, hinside⟩ := Text.exists_blanks inside
    rw [htrim] at hinside
    rw [hinside]
    exact .mk hbefore hsign hne hall hvalue hle hafter
  · rintro ⟨hbefore, hsign, hne, hall, hvalue, hle, hafter⟩
    rename_i before sign digits after
    have hdigits : Trimmed digits := Text.trimmed_of_forall_isDigit hall
    have hcore : Trimmed (sign ++ digits) := by
      constructor
      · refine endsRun_append ?_ hdigits.1
        obtain rfl | rfl := hsign
        · exact Text.endsRun_nil
        · exact Text.endsRun_cons.mpr (by decide)
      · rw [List.reverse_append]
        exact hdigits.2.append_of_ne_nil (by simpa using hne)
    rw [Text.trim_append hbefore hafter hcore (by simp [hne])]
    exact Text.index?_eq_some_iff.mpr
      ⟨sign, digits, rfl, hsign, Text.digits?_eq_some_iff.mpr ⟨hne, hall, hvalue⟩, hle⟩

theorem IndexText.le {i : Nat} {inside : List Char} (h : IndexText i inside) :
    i ≤ Text.maxIndex := by
  obtain ⟨-, -, -, -, -, hle, -⟩ := h
  exact hle

/-- No closing bracket stands inside of the brackets of an index. -/
theorem IndexText.ne_of_mem {i : Nat} {inside : List Char} (h : IndexText i inside) :
    ∀ c ∈ inside, c ≠ ']' := by
  obtain ⟨hbefore, hsign, -, hdigits, -, -, hafter⟩ := h
  intro c hc
  rintro rfl
  simp only [List.mem_append, or_assoc] at hc
  obtain hc | hc | hc | hc := hc
  · exact absurd (hbefore _ hc) (by decide)
  · obtain rfl | rfl := hsign
    · exact absurd hc List.not_mem_nil
    · exact absurd hc (by decide)
  · exact absurd (hdigits _ hc) (by decide)
  · exact absurd (hafter _ hc) (by decide)

namespace Cursor

/-! ### What has been read -/

/-- What may stand in front of a key: nothing, or the text of a path and a dot. -/
inductive Lead : List Segment → List Char → Prop where
  | nil : Lead [] []
  | dot {steps : List Segment} {text : List Char} (h : SpelledBy ⟨steps⟩ text) :
      Lead steps (text ++ ['.'])

/-- What the reader of paths has read where it stands. -/
inductive HasRead : Cursor → List Char → Prop where
  | name {steps : List Segment} {lead name : List Char} (hlead : Lead steps lead)
      (hname : ∀ c ∈ name, isKeyChar c) : HasRead (.outside steps name false) (lead ++ name)
  | closed {steps : List Segment} {text : List Char} (h : SpelledBy ⟨steps⟩ text) :
      HasRead (.outside steps [] true) text
  | inside {steps : List Segment} {text dot digits : List Char} (h : SpelledBy ⟨steps⟩ text)
      (hdot : dot = [] ∨ dot = ['.']) :
      HasRead (.inside steps digits) (text ++ (dot ++ '[' :: digits))

variable {cursor cursor' : Cursor} {steps : List Segment} {name text : List Char}

theorem withKey_of_ne_nil (h : name ≠ []) :
    withKey steps name = steps ++ [.key (String.ofList name)] :=
  if_neg fun hempty => h (List.isEmpty_iff.mp hempty)

/-- The reader gives a path after an index and after a key. -/
theorem exists_of_finish? {path : Path} (h : cursor.finish? = some path) :
    ∃ steps name afterIndex, cursor = .outside steps name afterIndex ∧
      ¬(name.isEmpty && !afterIndex) ∧ path = ⟨withKey steps name⟩ := by
  cases cursor with
  | outside steps name afterIndex =>
    obtain ⟨hkey, hpath⟩ := Option.ite_none_left_eq_some.mp h
    exact ⟨steps, name, afterIndex, rfl, hkey, (Option.some.inj hpath).symm⟩
  | inside steps digits => cases h

theorem run_cons (cursor : Cursor) (c : Char) (text : List Char) :
    run cursor (c :: text) = (next cursor c).bind fun cursor' => run cursor' text :=
  List.foldlM_cons

theorem run_append (cursor : Cursor) (a b : List Char) :
    run cursor (a ++ b) = (run cursor a).bind fun cursor' => run cursor' b :=
  List.foldlM_append

/-- A key in its place completes a path. -/
theorem Lead.spelledBy {lead : List Char} (hlead : Lead steps lead) (hname : IsKey name) :
    SpelledBy ⟨steps ++ [.key (String.ofList name)]⟩ (lead ++ name) := by
  cases hlead with
  | nil =>
    have hspelled := SpelledBy.mk hname .nil
    rwa [List.flatten_nil, List.append_nil] at hspelled
  | dot h =>
    rw [List.append_assoc]
    exact h.append (.key hname)

theorem HasRead.opened (h : SpelledBy ⟨steps⟩ text) {dot : List Char}
    (hdot : dot = [] ∨ dot = ['.']) : HasRead (.inside steps []) (text ++ dot ++ ['[']) := by
  rw [List.append_assoc]
  exact .inside h hdot

/-- The bracket that ends an index completes a path. -/
theorem HasRead.indexed (h : SpelledBy ⟨steps⟩ text) {dot : List Char}
    (hdot : dot = [] ∨ dot = ['.']) {digits : List Char} {i : Nat} (hi : IndexText i digits) :
    HasRead (.outside (steps ++ [.index i]) [] true) (text ++ (dot ++ '[' :: digits) ++ [']']) := by
  have hstep : StepText (.index i) (dot ++ '[' :: (digits ++ [']'])) := by
    obtain rfl | rfl := hdot
    · exact .index hi
    · exact .dotIndex hi
  have hspelled := h.append hstep
  rw [List.append_assoc, List.append_assoc, List.cons_append]
  exact .closed hspelled

/-- What has been read is a beginning of the grammar after one more character. -/
theorem hasRead_next (h : HasRead cursor text) {c : Char} (hnext : next cursor c = some cursor') :
    HasRead cursor' (text ++ [c]) := by
  unfold next at hnext
  split at hnext
  · -- the bracket that ends an index
    obtain ⟨i, hi, rfl⟩ := Option.map_eq_some_iff.mp hnext
    cases h with
    | inside hspelled hdot => exact .indexed hspelled hdot (index?_trim_eq_some_iff.mp hi)
  · -- another character between the brackets
    cases hnext
    cases h with
    | inside hspelled hdot =>
      rw [List.append_assoc, List.append_assoc, List.cons_append]
      exact .inside hspelled hdot
  · -- a dot, after an index or a key
    obtain ⟨hkey, hcursor⟩ := Option.ite_none_left_eq_some.mp hnext
    cases hcursor
    rw [← List.append_nil (text ++ ['.'])]
    refine .name ?_ fun c hc => absurd hc List.not_mem_nil
    cases h with
    | closed hspelled => exact .dot hspelled
    | name hlead hname =>
      have hne := List.isEmpty_eq_false_iff.mp (by simpa using hkey)
      rw [withKey_of_ne_nil hne]
      exact .dot (hlead.spelledBy ⟨hne, hname⟩)
  · -- the bracket that opens an index, after an index, a key or a dot
    next name afterIndex =>
    obtain ⟨hkey, hcursor⟩ := Option.ite_none_left_eq_some.mp hnext
    cases hcursor
    cases h with
    | closed hspelled =>
      rw [← List.append_nil text]
      exact .opened hspelled (.inl rfl)
    | @name _ lead _ hlead hname =>
      by_cases hne : name = []
      · subst hne
        rw [List.append_nil]
        cases hlead with
        | nil => exact absurd rfl hkey
        | dot hspelled => exact .opened hspelled (.inr rfl)
      · rw [withKey_of_ne_nil hne, ← List.append_nil (lead ++ name)]
        exact .opened (hlead.spelledBy ⟨hne, hname⟩) (.inl rfl)
  · cases hnext
  · -- a character of a key
    next hdot hopen hclose =>
    obtain ⟨hafter, hcursor⟩ := Option.ite_none_left_eq_some.mp hnext
    cases hcursor
    cases h with
    | closed hspelled => exact absurd rfl hafter
    | name hlead hname =>
      rw [List.append_assoc]
      refine .name hlead (List.forall_mem_append.mpr ⟨hname, List.forall_mem_singleton.mpr ?_⟩)
      have hc : c ≠ '.' ∧ c ≠ '[' ∧ c ≠ ']' := ⟨hdot, hopen, hclose⟩
      simpa [isKeyChar, and_assoc] using hc

theorem hasRead_run {rest : List Char} (h : HasRead cursor text)
    (hrun : run cursor rest = some cursor') : HasRead cursor' (text ++ rest) := by
  induction rest generalizing cursor text with
  | nil =>
    cases hrun
    rwa [List.append_nil]
  | cons c rest ih =>
    rw [run_cons, Option.bind_eq_some_iff] at hrun
    obtain ⟨middle, hnext, hrest⟩ := hrun
    rw [List.append_cons]
    exact ih (hasRead_next h hnext) hrest

/-- Where the reader gives a path, the text that it has read spells it. -/
theorem spelledBy_of_finish? (h : HasRead cursor text) {path : Path}
    (hpath : cursor.finish? = some path) : path.SpelledBy text := by
  obtain ⟨steps, name, afterIndex, rfl, hkey, rfl⟩ := exists_of_finish? hpath
  cases h with
  | name hlead hname =>
    have hne := List.isEmpty_eq_false_iff.mp (by simpa using hkey)
    rw [withKey_of_ne_nil hne]
    exact hlead.spelledBy ⟨hne, hname⟩
  | closed hspelled => exact hspelled

/-! ### Getting through a text -/

theorem run_name {rest : List Char} (h : ∀ c ∈ rest, isKeyChar c) :
    run (.outside steps name false) rest = some (.outside steps (name ++ rest) false) := by
  induction rest generalizing name with
  | nil => rw [List.append_nil]; rfl
  | cons c rest ih =>
    obtain ⟨hc, hrest⟩ := List.forall_mem_cons.mp h
    have hc : c ≠ '.' ∧ c ≠ '[' ∧ c ≠ ']' := by simpa [isKeyChar, and_assoc] using hc
    have hnext : next (.outside steps name false) c = some (.outside steps (name ++ [c]) false) :=
      next.eq_6 _ _ _ _ hc.1 hc.2.1 hc.2.2
    rw [run_cons, hnext, Option.bind_some, ih hrest, List.append_assoc]
    rfl

theorem run_inside {digits rest : List Char} (h : ∀ c ∈ rest, c ≠ ']') :
    run (.inside steps digits) rest = some (.inside steps (digits ++ rest)) := by
  induction rest generalizing digits with
  | nil => rw [List.append_nil]; rfl
  | cons c rest ih =>
    obtain ⟨hc, hrest⟩ := List.forall_mem_cons.mp h
    have hnext : next (.inside steps digits) c = some (.inside steps (digits ++ [c])) :=
      next.eq_2 _ _ _ hc
    rw [run_cons, hnext, Option.bind_some, ih hrest, List.append_assoc]
    rfl

/-- Between brackets there has to be a position. -/
theorem run_brackets {inside : List Char} (h : ∀ c ∈ inside, c ≠ ']') :
    run (.inside steps []) (inside ++ [']']) =
      (Text.index? (Text.trim inside)).map fun i => .outside (steps ++ [.index i]) [] true := by
  rw [run_append, run_inside h, Option.bind_some, run_cons, List.nil_append, next]
  cases Text.index? (Text.trim inside) <;> rfl

variable {path : Path}

/-- After a path, a dot leads to the next step. -/
theorem next_dot (h : cursor.finish? = some path) :
    next cursor '.' = some (.outside path.segments [] false) := by
  obtain ⟨steps, name, afterIndex, rfl, hkey, rfl⟩ := exists_of_finish? h
  exact if_neg hkey

/-- After a path, a bracket opens an index. -/
theorem next_bracket (h : cursor.finish? = some path) (hne : path.segments ≠ []) :
    next cursor '[' = some (.inside path.segments []) := by
  obtain ⟨steps, name, afterIndex, rfl, -, rfl⟩ := exists_of_finish? h
  refine if_neg fun hempty => ?_
  rw [Bool.and_eq_true, List.isEmpty_iff, List.isEmpty_iff] at hempty
  obtain ⟨rfl, rfl⟩ := hempty
  exact hne rfl

/-- After a path, a dot and a key are one more step. -/
theorem run_dot_name (h : cursor.finish? = some path) (hname : IsKey name) :
    ∃ cursor', run cursor ('.' :: name) = some cursor' ∧
      cursor'.finish? = some (path.key (String.ofList name)) := by
  refine ⟨.outside path.segments name false, ?_, ?_⟩
  · rw [run_cons, next_dot h, Option.bind_some, run_name hname.2, List.nil_append]
  · have hempty : name.isEmpty = false := List.isEmpty_eq_false_iff.mpr hname.1
    rw [finish?, hempty, withKey_of_ne_nil hname.1]
    rfl

/-- After a path, a bracketed index is one more step, if it is a position. -/
theorem run_bracket_index (h : cursor.finish? = some path) (hne : path.segments ≠ [])
    {inside : List Char} (hinside : ∀ c ∈ inside, c ≠ ']') :
    run cursor ('[' :: (inside ++ [']'])) = (Text.index? (Text.trim inside)).map fun i =>
      .outside (path.index i).segments [] true := by
  rw [run_cons, next_bracket h hne, Option.bind_some, run_brackets hinside]
  rfl

/-- The reader gets through the text of a step. -/
theorem exists_run_of_stepText (h : cursor.finish? = some path) (hne : path.segments ≠ [])
    {step : Segment} {part : List Char} (hstep : StepText step part) :
    ∃ cursor', run cursor part = some cursor' ∧
      cursor'.finish? = some ⟨path.segments ++ [step]⟩ := by
  cases hstep with
  | key hname => exact run_dot_name h hname
  | @index i inside hi =>
    refine ⟨.outside (path.index i).segments [] true, ?_, rfl⟩
    rw [run_bracket_index h hne hi.ne_of_mem, index?_trim_eq_some_iff.mpr hi]
    rfl
  | @dotIndex i inside hi =>
    -- After the dot there is no key yet, so the bracket opens the index as it does without the dot.
    have hdot : finish? (.outside path.segments [] true) = some path := rfl
    have hrun := run_bracket_index hdot hne hi.ne_of_mem
    rw [run_cons, next_bracket hdot hne] at hrun
    have hopen : next (.outside path.segments [] false) '[' = some (.inside path.segments []) :=
      if_neg fun hempty => hne (List.isEmpty_iff.mp hempty)
    refine ⟨.outside (path.index i).segments [] true, ?_, rfl⟩
    rw [run_cons, next_dot h, Option.bind_some, run_cons, hopen, hrun,
      index?_trim_eq_some_iff.mpr hi]
    rfl

theorem exists_run_of_forall₂ (h : cursor.finish? = some path) (hne : path.segments ≠ [])
    {parts : List (List Char)} (hsteps : List.Forall₂ StepText steps parts) :
    ∃ cursor', run cursor parts.flatten = some cursor' ∧
      cursor'.finish? = some ⟨path.segments ++ steps⟩ := by
  induction hsteps generalizing cursor path with
  | nil => exact ⟨cursor, rfl, by rw [List.append_nil]; exact h⟩
  | cons hstep _ ih =>
    obtain ⟨middle, hrun, hmiddle⟩ := exists_run_of_stepText h hne hstep
    obtain ⟨cursor', hrest, hpath⟩ := ih hmiddle (by simp)
    refine ⟨cursor', ?_, ?_⟩
    · rw [List.flatten_cons, run_append, hrun, Option.bind_some, hrest]
    · rw [hpath, List.append_assoc]
      rfl

/-- The reader gets through a key at the start of a text. -/
theorem run_first (hname : IsKey name) :
    ∃ cursor', run (.outside [] [] false) name = some cursor' ∧
      cursor'.finish? = some (ofKey (String.ofList name)) := by
  refine ⟨.outside [] name false, run_name hname.2, ?_⟩
  have hempty : name.isEmpty = false := List.isEmpty_eq_false_iff.mpr hname.1
  rw [finish?, hempty, withKey_of_ne_nil hname.1]
  rfl

/-- The reader gets through a text that spells a path, and gives this path. -/
theorem exists_run_of_spelledBy (h : path.SpelledBy text) :
    ∃ cursor', run (.outside [] [] false) text = some cursor' ∧
      cursor'.finish? = some path := by
  cases h with
  | mk hname hsteps =>
    obtain ⟨middle, hrun, hmiddle⟩ := run_first hname
    obtain ⟨cursor', hrest, hpath⟩ :=
      exists_run_of_forall₂ hmiddle (List.cons_ne_nil _ _) hsteps
    exact ⟨cursor', by rw [run_append, hrun, Option.bind_some, hrest], hpath⟩

end Cursor

/-- Reading a text gives a path just if the text without the blanks around it spells the path. -/
theorem ofChars?_eq_some_iff {text : List Char} {path : Path} :
    ofChars? text = some path ↔ path.SpelledBy (Text.trim text) := by
  rw [ofChars?, Option.bind_eq_some_iff]
  constructor
  · rintro ⟨cursor, hrun, hpath⟩
    have hstart : Cursor.HasRead (.outside [] [] false) [] :=
      .name .nil fun c hc => absurd hc List.not_mem_nil
    exact Cursor.spelledBy_of_finish? (Cursor.hasRead_run hstart hrun) hpath
  · exact Cursor.exists_run_of_spelledBy

theorem firstKey?_ofChars? {text : List Char} {path : Path} (h : ofChars? text = some path) :
    path.firstKey?.isSome := by
  have hspelled := ofChars?_eq_some_iff.mp h
  generalize Text.trim text = trimmed at hspelled
  cases hspelled
  rfl

end Path

end ScreenDoc
