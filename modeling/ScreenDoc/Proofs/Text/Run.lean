import Mathlib.Data.List.TakeWhile
import ScreenDoc.Text.Blank

/-!
# Runs of characters

A scanner takes characters of one kind for as long as they go on. What it takes is a given run just
if the text after the run does not go on with that kind. Trimming takes the runs of blanks at both
ends of a text.

## Main definitions

- `Text.EndsRun` — a text that does not go on with a kind of characters
- `Text.Trimmed` — a text that neither begins nor ends with a blank

## Main results

- `Text.takeWhile_append`, `Text.dropWhile_append` — a scanner takes a run and leaves the rest
- `Text.exists_blanks`, `Text.trim_append` — a text is the trimmed text between blanks
-/

namespace ScreenDoc

namespace Text

/-- A text that is empty, or starts with a character that is not of a kind. -/
def EndsRun (kind : Char → Bool) (text : List Char) : Prop :=
  ∀ c ∈ text.head?, kind c = false

variable {kind : Char → Bool} {run rest : List Char}

theorem endsRun_nil : EndsRun kind [] := by
  intro c hc
  cases hc

theorem endsRun_cons {c : Char} : EndsRun kind (c :: rest) ↔ kind c = false := by
  simp [EndsRun]

theorem endsRun_append {a b : List Char} (ha : EndsRun kind a) (hb : EndsRun kind b) :
    EndsRun kind (a ++ b) := by
  cases a with
  | nil => exact hb
  | cons c a => exact endsRun_cons.mpr (endsRun_cons.mp ha)

theorem EndsRun.append_of_ne_nil {a b : List Char} (ha : EndsRun kind a) (hne : a ≠ []) :
    EndsRun kind (a ++ b) := by
  cases a with
  | nil => exact absurd rfl hne
  | cons c a => exact endsRun_cons.mpr (endsRun_cons.mp ha)

theorem EndsRun.left {a b : List Char} (h : EndsRun kind (a ++ b)) : EndsRun kind a := by
  cases a with
  | nil => exact endsRun_nil
  | cons c a => exact endsRun_cons.mpr (endsRun_cons.mp h)

/-- What is left once all characters of a kind are taken does not go on with that kind. -/
theorem endsRun_dropWhile (text : List Char) : EndsRun kind (text.dropWhile kind) := by
  intro c hc
  have h := List.head?_dropWhile_not kind text
  rw [Option.mem_def.mp hc] at h
  simpa using h

/-- Where a scanner for one character stops, this character stands. -/
theorem eq_append_cons_of_dropWhile {stop c : Char} {text after : List Char}
    (h : text.dropWhile (· ≠ stop) = c :: after) :
    text = text.takeWhile (· ≠ stop) ++ stop :: after := by
  have hsplit := List.takeWhile_append_dropWhile (p := (· ≠ stop)) (l := text)
  have hhead := List.head?_dropWhile_not (· ≠ stop) text
  rw [h] at hsplit hhead
  have hc : c = stop := by simpa using hhead
  rw [hc] at hsplit
  exact hsplit.symm

theorem takeWhile_append (hrun : ∀ c ∈ run, kind c) (hrest : EndsRun kind rest) :
    (run ++ rest).takeWhile kind = run := by
  rw [List.takeWhile_append_of_pos hrun]
  cases rest with
  | nil => exact List.append_nil run
  | cons c rest =>
    rw [List.takeWhile_cons_of_neg (by simp [endsRun_cons.mp hrest]), List.append_nil]

theorem dropWhile_append (hrun : ∀ c ∈ run, kind c) (hrest : EndsRun kind rest) :
    (run ++ rest).dropWhile kind = rest := by
  rw [List.dropWhile_append_of_pos hrun]
  cases rest with
  | nil => rfl
  | cons c rest => rw [List.dropWhile_cons_of_neg (by simp [endsRun_cons.mp hrest])]

theorem dropWhile_eq_self {text : List Char} (h : EndsRun kind text) :
    text.dropWhile kind = text :=
  @dropWhile_append kind [] text (fun _ hc => absurd hc List.not_mem_nil) h

/-! ### Trimming -/

/-- A text that neither begins nor ends with a blank. -/
def Trimmed (text : List Char) : Prop :=
  EndsRun isBlank text ∧ EndsRun isBlank text.reverse

theorem trim_eq_self {text : List Char} (h : Trimmed text) : trim text = text := by
  rw [trim, trimStart, dropWhile_eq_self h.1, trimEnd, dropWhile_eq_self h.2, List.reverse_reverse]

/-- A text is what trimming leaves, between blanks. -/
theorem exists_blanks (text : List Char) :
    ∃ before after, (∀ c ∈ before, isBlank c) ∧ (∀ c ∈ after, isBlank c) ∧
      trimStart text = trim text ++ after ∧ text = before ++ trim text ++ after := by
  have hstart : text = text.takeWhile isBlank ++ trimStart text :=
    List.takeWhile_append_dropWhile.symm
  have hend : trimStart text =
      trim text ++ ((trimStart text).reverse.takeWhile isBlank).reverse := by
    have hsplit := List.takeWhile_append_dropWhile (p := isBlank) (l := (trimStart text).reverse)
    rw [trim, trimEnd, ← List.reverse_append, hsplit, List.reverse_reverse]
  refine ⟨text.takeWhile isBlank, _, fun c hc => List.mem_takeWhile_imp hc, fun c hc => ?_, hend,
    ?_⟩
  · rw [List.mem_reverse] at hc
    exact List.mem_takeWhile_imp hc
  · rw [List.append_assoc, ← hend]
    exact hstart

theorem trimmed_trim (text : List Char) : Trimmed (trim text) := by
  obtain ⟨before, after, -, -, hstart, -⟩ := exists_blanks text
  constructor
  · have h : EndsRun isBlank (trim text ++ after) := hstart ▸ endsRun_dropWhile text
    exact h.left
  · rw [trim, trimEnd, List.reverse_reverse]
    exact endsRun_dropWhile _

/-- Trimming takes the blanks around a text that neither begins nor ends with one. -/
theorem trim_append {before core after : List Char} (hbefore : ∀ c ∈ before, isBlank c)
    (hafter : ∀ c ∈ after, isBlank c) (h : Trimmed core) (hne : core ≠ []) :
    trim (before ++ core ++ after) = core := by
  have hstart : trimStart (before ++ core ++ after) = core ++ after := by
    rw [List.append_assoc]
    exact dropWhile_append hbefore (h.1.append_of_ne_nil hne)
  have hend : (core ++ after).reverse.dropWhile isBlank = core.reverse := by
    rw [List.reverse_append]
    exact dropWhile_append (fun c hc => hafter c (List.mem_reverse.mp hc)) h.2
  rw [trim, hstart, trimEnd, hend, List.reverse_reverse]

end Text

end ScreenDoc
