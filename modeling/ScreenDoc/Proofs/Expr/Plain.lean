import ScreenDoc.Proofs.Expr.Quiet
import ScreenDoc.Proofs.Expr.Within
import ScreenDoc.Proofs.Store.Written
import ScreenDoc.View.Bound

/-!
# Plain paths as expressions

A plain path consists of identifiers and indices. If it leads nowhere and is evaluated as an
expression, its last step may still be an array property such as `count`, or an index of an array.
What comes out is decided by that step and by the value in front of it, wherever this lies.

## Main definitions

- `Path.isPlain` — a path of identifiers and indices
- `Expr.Helper.ofKey?` — the array property that a key names
- `Expr.afterStep` — what a last step makes of the value in front of it

## Main results

- `Expr.readPathText_text` — a plain path is read as it is written
- `Expr.value_value?_append` — the value of a plain path that leads nowhere
- `followPath_append`, `followPath_ofKey` — what such a path is followed to
-/

namespace ScreenDoc

namespace Path

open Token (isNameStart isNameChar)

/-- Whether a key is an identifier and none of the words for literals. -/
def isName (name : String) : Bool :=
  match name.toList with
  | [] => false
  | start :: rest =>
    isNameStart start && rest.all isNameChar && !(["true", "false", "null"].contains name)

/-- Whether a step is an identifier, or an index that is an integer of 64 bits. -/
def isPlainStep : Segment → Bool
  | .key name => isName name
  | .index i => Text.fitsInt64 i

/-- Whether a path consists of identifiers and indices. -/
def isPlain (path : Path) : Bool :=
  path.firstKey?.isSome && path.segments.all isPlainStep

variable {path : Path}

theorem exists_of_isName {name : String} (h : isName name) :
    ∃ start rest, name.toList = start :: rest ∧ isNameStart start ∧ ∀ c ∈ rest, isNameChar c := by
  rw [isName] at h
  split at h
  · cases h
  · next start rest hname =>
    rw [Bool.and_eq_true, Bool.and_eq_true, List.all_eq_true] at h
    exact ⟨start, rest, hname, h.1.1, h.1.2⟩

theorem isNameChar_of_isName {name : String} (h : isName name) :
    ∀ c ∈ name.toList, isNameChar c := by
  obtain ⟨start, rest, hname, hstart, hrest⟩ := exists_of_isName h
  rw [hname]
  exact List.forall_mem_cons.mpr ⟨Token.isNameChar_of_isNameStart hstart, hrest⟩

theorem isKeyChar_of_isNameChar {c : Char} (h : isNameChar c) : isKeyChar c := by
  have hne {d : Char} (hd : isNameChar d = false) : c ≠ d := Text.ne_of_class h hd
  simp [isKeyChar, hne (d := '.') (by decide), hne (d := '[') (by decide),
    hne (d := ']') (by decide)]

theorem exists_of_isPlain (h : path.isPlain) :
    ∃ name rest, path = ⟨.key name :: rest⟩ ∧ isName name ∧
      ∀ segment ∈ rest, isPlainStep segment := by
  obtain ⟨segments⟩ := path
  rw [isPlain, Bool.and_eq_true, List.all_eq_true] at h
  obtain ⟨hfirst, hall⟩ := h
  match segments, hfirst with
  | .key name :: rest, _ =>
    obtain ⟨hname, hrest⟩ := List.forall_mem_cons.mp hall
    exact ⟨name, rest, rfl, hname, hrest⟩

theorem isPlain_append {steps : List Segment} (hpath : path.firstKey?.isSome) :
    (path.append ⟨steps⟩).isPlain ↔ path.isPlain ∧ ∀ segment ∈ steps, isPlainStep segment := by
  have hfirst := firstKey?_append ⟨steps⟩ hpath
  rw [isPlain, isPlain, hpath, hfirst, append, List.all_append, Bool.true_and, Bool.true_and,
    Bool.and_eq_true, List.all_eq_true (l := steps)]

/-- A plain path is a name, or has a last step after another path. -/
theorem exists_last (h : path.isPlain) :
    (∃ name, path = .ofKey name) ∨
      ∃ (base : Path) (last : Segment), base.firstKey?.isSome ∧ path = base.append ⟨[last]⟩ := by
  obtain ⟨name, rest, rfl, -, -⟩ := exists_of_isPlain h
  rcases List.eq_nil_or_concat rest with rfl | ⟨init, last, rfl⟩
  · exact .inl ⟨name, rfl⟩
  · refine .inr ⟨⟨.key name :: init⟩, last, rfl, ?_⟩
    rw [append, List.cons_append, List.concat_eq_append]

/-! ### The text of a plain path -/

theorem isDigit_of_mem_toDigits {i : Nat} {c : Char} (hc : c ∈ Nat.toDigits 10 i) : c.isDigit :=
  Nat.isDigit_of_mem_toDigits (by decide) (by decide) hc

theorem ne_of_mem_toDigits {i : Nat} {c : Char} (hc : c ∈ Nat.toDigits 10 i) :
    c ≠ '[' ∧ c ≠ ']' := by
  have hdigit := isDigit_of_mem_toDigits hc
  exact ⟨Text.ne_of_class hdigit (by decide), Text.ne_of_class hdigit (by decide)⟩

theorem isQuiet_of_isDigit {c : Char} (h : c.isDigit) : Expr.isQuiet c := by
  rw [Expr.isQuiet, Token.isNameChar_of_isDigit h]
  rfl

theorem isQuiet_stepChars {segment : Segment} (h : isPlainStep segment) :
    ∀ c ∈ stepChars segment, Expr.isQuiet c := by
  cases segment with
  | key name =>
    refine List.forall_mem_cons.mpr ⟨by decide, fun c hc => ?_⟩
    rw [Expr.isQuiet, isNameChar_of_isName h c hc]
    rfl
  | index i =>
    refine List.forall_mem_cons.mpr ⟨by decide, List.forall_mem_append.mpr ⟨fun c hc => ?_, ?_⟩⟩
    · exact isQuiet_of_isDigit (isDigit_of_mem_toDigits hc)
    · exact List.forall_mem_singleton.mpr (by decide)

/-- The text of a plain path is quiet. -/
theorem isQuiet_text (h : path.isPlain) : ∀ c ∈ path.text.toList, Expr.isQuiet c := by
  obtain ⟨name, rest, rfl, hname, hrest⟩ := exists_of_isPlain h
  rw [toList_text]
  refine List.forall_mem_append.mpr ⟨fun c hc => ?_, fun c hc => ?_⟩
  · rw [Expr.isQuiet, isNameChar_of_isName hname c hc]
    rfl
  · obtain ⟨segment, hsegment, hc⟩ := List.mem_flatMap.mp hc
    exact isQuiet_stepChars (hrest segment hsegment) c hc

theorem isBoundedStep_of_isPlainStep {segment : Segment} (h : isPlainStep segment) :
    isBoundedStep segment := by
  cases segment with
  | key name => rfl
  | index i =>
    rw [isPlainStep, Text.fitsInt64, Bool.and_eq_true, decide_eq_true_eq, decide_eq_true_eq,
      Text.maxInt64] at h
    rw [isBoundedStep, decide_eq_true_eq, Text.maxIndex]
    omega

/-- A plain path can be written and read again. -/
theorem written_of_isPlain (h : path.isPlain) : path.Written ∧ path.isBounded := by
  have hquiet := isQuiet_text h
  obtain ⟨hfirst, hall⟩ := Bool.and_eq_true_iff.mp h
  rw [List.all_eq_true] at hall
  refine ⟨⟨hfirst, fun segment hsegment => ?_, Expr.trimmed_of_quiet hquiet⟩,
    List.all_eq_true.mpr fun segment hsegment =>
      isBoundedStep_of_isPlainStep (hall segment hsegment)⟩
  cases segment with
  | key name =>
    obtain ⟨start, rest, hname, -, -⟩ := exists_of_isName (hall _ hsegment)
    refine ⟨by rw [hname]; exact List.cons_ne_nil _ _, fun c hc => ?_⟩
    exact isKeyChar_of_isNameChar (isNameChar_of_isName (hall _ hsegment) c hc)
  | index i => trivial

theorem ofChars?_text_of_isPlain (h : path.isPlain) : ofChars? path.text.toList = some path := by
  obtain ⟨hwritten, hbounded⟩ := written_of_isPlain h
  exact (ofText?_text hwritten).trans (if_pos hbounded)

theorem toList_text_append (hpath : path.firstKey?.isSome) (steps : List Segment) :
    (path.append ⟨steps⟩).text.toList = path.text.toList ++ steps.flatMap stepChars := by
  obtain ⟨segments⟩ := path
  match segments, hpath with
  | .key name :: rest, _ =>
    rw [append, List.cons_append, toList_text, toList_text, List.flatMap_append, List.append_assoc]

end Path

/-! ### Reading a plain path -/

namespace Expr

open Token (isNameStart isNameChar)
open ScreenDoc.Path (isPlainStep isName stepChars isDigit_of_mem_toDigits)

theorem closeBracket?_inside {opening closing : Char} {inside : List Char} (rest : List Char)
    (h : ∀ c ∈ inside, c ≠ opening ∧ c ≠ closing) :
    closeBracket? opening closing 1 (inside ++ closing :: rest) = some (inside, rest) := by
  induction inside with
  | nil => simp [closeBracket?]
  | cons c inside ih =>
    obtain ⟨⟨hopening, hclosing⟩, hinside⟩ := List.forall_mem_cons.mp h
    rw [List.cons_append, closeBracket?]
    simp only [hopening, hclosing, if_false, decide_false, Bool.false_and, Bool.false_eq_true,
      ih hinside, Option.map_some]

theorem pieces_run {run : List Char} (h : '[' ∉ run) : PathText.pieces run = [.text run] := by
  have hcut := Text.cut?_eq_none [] h
  unfold PathText.pieces
  split
  · rfl
  · next before rest hsome =>
    rw [hcut] at hsome
    cases hsome

theorem pieces_bracket {run inside : List Char} (after : List Char) (hrun : '[' ∉ run)
    (hinside : ∀ c ∈ inside, c ≠ '[' ∧ c ≠ ']') :
    PathText.pieces (run ++ '[' :: (inside ++ ']' :: after)) =
      .text run :: .bracket inside :: PathText.pieces after := by
  have hcut := Text.cut?_append (inside ++ ']' :: after) hrun
  have hclose := closeBracket?_inside after hinside
  rw [PathText.pieces]
  split
  · next hnone =>
    rw [hcut] at hnone
    cases hnone
  · next before rest hsome =>
    rw [hcut] at hsome
    cases hsome
    split
    · next hnone =>
      rw [hclose] at hnone
      cases hnone
    · next index others hsome =>
      rw [hclose] at hsome
      cases hsome
      rfl

theorem not_mem_name {name : String} (h : isName name) {c : Char} (hc : isNameChar c = false) :
    c ∉ name.toList :=
  Text.not_mem_of_class (Path.isNameChar_of_isName h) hc

/-- The indices of a plain path stand for themselves. The induction is on the steps after a run
without brackets. -/
theorem normalizePieces_steps (sub : Evaluation) {run : List Char} {steps : List Segment}
    (hrun : '[' ∉ run) (hsteps : ∀ segment ∈ steps, isPlainStep segment) :
    normalizePieces sub (PathText.pieces (run ++ steps.flatMap stepChars)) =
      .done (some (run ++ steps.flatMap stepChars)) := by
  induction steps generalizing run with
  | nil =>
    rw [List.flatMap_nil, List.append_nil, pieces_run hrun]
    simp [normalizePieces]
  | cons segment rest ih =>
    obtain ⟨hsegment, hrest⟩ := List.forall_mem_cons.mp hsteps
    cases segment with
    | key name =>
      have hmore : '[' ∉ run ++ '.' :: name.toList := by
        simp [hrun, not_mem_name hsegment (c := '[') (by decide)]
      have hname := ih hmore hrest
      rw [List.append_assoc] at hname
      exact hname
    | index i =>
      have hdigits : Text.index? (Text.trim (Nat.toDigits 10 i)) = some i := by
        have hall : ∀ c ∈ Nat.toDigits 10 i, c.isDigit := fun c hc => isDigit_of_mem_toDigits hc
        rw [Text.trim_eq_self (Text.trimmed_of_forall_isDigit hall), Path.index?_toDigits]
        exact if_pos (of_decide_eq_true (Path.isBoundedStep_of_isPlainStep hsegment))
      have hnil := @ih [] List.not_mem_nil hrest
      rw [List.nil_append] at hnil
      rw [List.flatMap_cons, stepChars, List.cons_append, List.append_assoc, List.singleton_append,
        pieces_bracket _ hrun fun c hc => Path.ne_of_mem_toDigits hc]
      simp only [normalizePieces, hdigits, withIndex, hnil, Reading.done_bind, Option.map_some]
      simp [toString, Nat.toList_repr]

theorem isPathTail_name {run : List Char} (rest : List Char) (h : ∀ c ∈ run, isNameChar c) :
    isPathTail 0 (run ++ rest) = isPathTail 0 rest := by
  induction run with
  | nil => rfl
  | cons c run ih =>
    obtain ⟨hc, hrun⟩ := List.forall_mem_cons.mp h
    have hkey := Path.isKeyChar_of_isNameChar hc
    simp only [Path.isKeyChar, Bool.and_eq_true, decide_eq_true_eq] at hkey
    rw [List.cons_append, isPathTail, if_neg hkey.1.2, if_neg hkey.2, if_neg (Nat.lt_irrefl 0),
      ih hrun]
    rw [isNameChar] at hc
    rw [hc, Bool.true_or, Bool.true_and]

theorem isPathTail_inside {inside : List Char} (rest : List Char)
    (h : ∀ c ∈ inside, c ≠ '[' ∧ c ≠ ']') :
    isPathTail 1 (inside ++ ']' :: rest) = isPathTail 0 rest := by
  induction inside with
  | nil => simp [isPathTail]
  | cons c inside ih =>
    obtain ⟨⟨hopening, hclosing⟩, hinside⟩ := List.forall_mem_cons.mp h
    rw [List.cons_append, isPathTail, if_neg hopening, if_neg hclosing, if_pos Nat.one_pos,
      ih hinside]

theorem isPathTail_steps {steps : List Segment} (h : ∀ segment ∈ steps, isPlainStep segment) :
    isPathTail 0 (steps.flatMap stepChars) := by
  induction steps with
  | nil => rfl
  | cons segment rest ih =>
    obtain ⟨hsegment, hrest⟩ := List.forall_mem_cons.mp h
    cases segment with
    | key name =>
      have hname := isPathTail_name (rest.flatMap stepChars) (Path.isNameChar_of_isName hsegment)
      rw [List.flatMap_cons, stepChars, List.cons_append, isPathTail]
      simp [hname, ih hrest]
    | index i =>
      have hdigits := isPathTail_inside (rest.flatMap stepChars) fun c hc =>
        Path.ne_of_mem_toDigits (i := i) hc
      rw [List.flatMap_cons, stepChars, List.cons_append, List.append_assoc, List.singleton_append,
        isPathTail, if_pos rfl, hdigits]
      exact ih hrest

theorem isPathText_text {path : Path} (h : path.isPlain) : isPathText path.text.toList := by
  obtain ⟨name, rest, rfl, hname, hrest⟩ := Path.exists_of_isPlain h
  obtain ⟨start, more, hchars, hstart, hmore⟩ := Path.exists_of_isName hname
  have htail := isPathTail_name (rest.flatMap stepChars) hmore
  rw [Path.toList_text, hchars, List.cons_append, isPathText, htail, isPathTail_steps hrest,
    Bool.and_true]
  exact hstart

/-- A plain path is read as it is written. -/
theorem readPathText_text {scope : Scope} (sub : Evaluation) {path : Path} (h : path.isPlain) :
    readPathText scope sub path.text.toList = scope.readPath path := by
  have hread : scope.read path.text.toList = scope.readPath path := by
    rw [Scope.read, Path.ofChars?_text_of_isPlain h]
  obtain ⟨name, rest, rfl, hname, hrest⟩ := Path.exists_of_isPlain h
  rw [Path.toList_text] at hread ⊢
  rw [readPathText, normalizePieces_steps sub (not_mem_name hname (by decide)) hrest,
    Reading.done_bind]
  exact hread

/-! ### Array properties -/

/-- The array property that a key names. -/
def Helper.ofKey? (name : String) : Option Helper :=
  [Helper.count, .isEmpty, .first, .last].find? fun helper => helper.ending = '.' :: name.toList

theorem helper?_eq_none {text : List Char} (h : ∀ helper : Helper, ¬ helper.ending <:+ text) :
    helper? text = none := by
  rw [helper?, List.findSome?_eq_none_iff]
  intro helper _
  simp only [Text.withoutEnd?_eq_none (h helper)]

theorem Helper.exists_ending (helper : Helper) :
    ∃ start key, helper.ending = '.' :: (start :: key) ∧ (start :: key).all isNameChar := by
  cases helper
  · exact ⟨'c', "ount".toList, rfl, by decide⟩
  · exact ⟨'i', "sEmpty".toList, rfl, by decide⟩
  · exact ⟨'f', "irst".toList, rfl, by decide⟩
  · exact ⟨'l', "ast".toList, rfl, by decide⟩

/-- What follows the last dot of a text is determined by the text. -/
theorem eq_of_dot_suffix {base key name : List Char} (hkey : '.' ∉ key) (hname : '.' ∉ name)
    (h : '.' :: key <:+ base ++ '.' :: name) : key = name := by
  obtain ⟨other, hother⟩ := h
  have hends (front back : List Char) (hback : '.' ∉ back) :
      (front ++ '.' :: back).reverse.takeWhile (· ≠ '.') = back.reverse := by
    rw [List.reverse_append, List.reverse_cons, List.append_assoc]
    refine Text.takeWhile_append (fun c hc => ?_) (Text.endsRun_cons.mpr (by decide))
    rw [decide_eq_true_eq]
    rintro rfl
    exact hback (List.mem_reverse.mp hc)
  rw [← List.reverse_inj, ← hends other key hkey, hother, hends base name hname]

theorem helper?_key {base : List Char} {name : String} (hbase : isPathText base)
    (hname : '.' ∉ name.toList) :
    helper? (base ++ '.' :: name.toList) =
      (Helper.ofKey? name).map fun helper => (helper, base) := by
  rw [helper?, Helper.ofKey?, List.find?_eq_findSome?_guard, List.map_findSome?]
  refine congrArg (List.findSome? · _) (funext fun helper => ?_)
  by_cases hending : helper.ending = '.' :: name.toList
  · rw [hending, Text.withoutEnd?_append]
    simp [Option.guard, hending, hbase]
  · have hsuffix : ¬ helper.ending <:+ base ++ '.' :: name.toList := by
      intro hsuffix
      obtain ⟨start, key, heq, hkey⟩ := helper.exists_ending
      rw [heq] at hsuffix hending
      refine hending (congrArg ('.' :: ·) (eq_of_dot_suffix (fun hmem => ?_) hname hsuffix))
      exact absurd (List.all_eq_true.mp hkey _ hmem) (by decide)
    rw [Text.withoutEnd?_eq_none hsuffix]
    simp [Option.guard, hending]

theorem helper?_eq_none_of_no_dot {text : List Char} (h : '.' ∉ text) : helper? text = none := by
  refine helper?_eq_none fun helper hsuffix => ?_
  obtain ⟨start, key, heq, -⟩ := helper.exists_ending
  rw [heq] at hsuffix
  exact h (hsuffix.subset List.mem_cons_self)

/-- A text that ends in a character that no helper ends in. -/
theorem helper?_concat {c : Char} (hc : ∀ helper : Helper, helper.ending.getLast? ≠ some c)
    (base : List Char) : helper? (base ++ [c]) = none := by
  refine helper?_eq_none fun helper hsuffix => hc helper ?_
  obtain ⟨front, hfront⟩ := hsuffix
  have hne : helper.ending ≠ [] := by
    obtain ⟨start, key, heq, -⟩ := helper.exists_ending
    rw [heq]
    exact List.cons_ne_nil _ _
  have hlast := congrArg List.getLast? hfront
  rwa [List.getLast?_append_of_ne_nil _ hne, List.getLast?_concat] at hlast

theorem helper?_bracket (base : List Char) : helper? (base ++ [']']) = none :=
  helper?_concat (fun helper => by cases helper <;> decide) base

/-! ### Indexings -/

theorem indexed?_eq_none {text : List Char} (h : text.getLast? ≠ some ']') :
    indexed? text = none := by
  unfold indexed?
  split
  · next rest hrest =>
    rw [← List.head?_reverse, hrest] at h
    exact absurd rfl h
  · rfl

theorem indexed?_bracket {base inside : List Char} (h : ∀ c ∈ inside, c ≠ '[' ∧ c ≠ ']') :
    indexed? (base ++ '[' :: (inside ++ [']'])) = some (base, inside) := by
  have hreverse : (base ++ '[' :: (inside ++ [']'])).reverse =
      ']' :: (inside.reverse ++ '[' :: base.reverse) := by
    simp
  have hinside : ∀ c ∈ inside.reverse, c ≠ ']' ∧ c ≠ '[' := fun c hc =>
    (h c (List.mem_reverse.mp hc)).symm
  have hclose := closeBracket?_inside base.reverse hinside
  rw [indexed?, hreverse]
  simp only [hclose, Option.map_some, List.reverse_reverse]

/-! ### Literals -/

section Digits

variable {digits : List Char} (hne : digits ≠ []) (hdigits : ∀ c ∈ digits, c.isDigit)
  (hfits : Text.fitsInt64 (Text.digitsValue digits))

include hne hdigits hfits

theorem int64?_digits :
    Text.int64? digits = some (Int64.ofInt (Text.digitsValue digits)) := by
  have hvalue : Text.digits? digits = some (Text.digitsValue digits) :=
    Text.digits?_eq_some_iff.mpr ⟨hne, hdigits, rfl⟩
  have hsign (c : Char) (hc : c.isDigit = false) (rest : List Char) :
      digits = c :: rest → False := fun heq =>
    Text.not_mem_of_class hdigits hc (heq ▸ List.mem_cons_self)
  rw [Text.int64?.eq_3 _ (hsign '-' (by decide)) (hsign '+' (by decide)), hvalue]
  exact if_pos hfits

theorem literal?_digits :
    literal? digits = some (.int (Int64.ofInt (Text.digitsValue digits))) := by
  have hword {word : List Char} {c : Char} (hc : c ∈ word) (hdigit : c.isDigit = false) :
      digits ≠ word := fun heq => Text.not_mem_of_class hdigits hdigit (heq ▸ hc)
  rw [literal?, if_neg (hword (c := 't') (by decide) (by decide)),
    if_neg (hword (c := 'f') (by decide) (by decide)),
    if_neg (hword (c := 'n') (by decide) (by decide)), int64?_digits hne hdigits hfits]

/-- Digits are evaluated to their value. -/
theorem value?_digits (scope : Scope) :
    value? scope digits = .done (some (.int (Int64.ofInt (Text.digitsValue digits)))) := by
  have hquiet : ∀ c ∈ digits, isQuiet c := fun c hc => Path.isQuiet_of_isDigit (hdigits c hc)
  have hlast : digits.getLast? ≠ some ']' := fun heq =>
    absurd (hdigits _ (List.mem_of_getLast? heq)) (by decide)
  rw [value?_of_quiet hne hquiet, arrayForm,
    contains?_eq_none (Text.not_mem_of_class hdigits (by decide)),
    helper?_eq_none_of_no_dot (Text.not_mem_of_class hdigits (by decide)), indexed?_eq_none hlast]
  simp only [Reading.done_bind, literal?_digits hne hdigits hfits]

end Digits

/-- A text that begins like no number is no literal, unless it is one of three words. -/
theorem literal?_eq_none_of_start {start : Char} {rest : List Char}
    (hdigit : start.isDigit = false) (hstart : start ∉ ['+', '-', '.'])
    (hwords : ∀ word ∈ ["true", "false", "null"], start :: rest ≠ word.toList) :
    literal? (start :: rest) = none := by
  simp only [List.mem_cons, List.not_mem_nil, or_false, not_or] at hstart
  obtain ⟨hplus, hminus, hdot⟩ := hstart
  have hdigits : Text.digits? (start :: rest) = none := by
    simp [Text.digits?, hdigit]
  have hint : Text.int64? (start :: rest) = none := by
    rw [Text.int64?.eq_3 _ (fun _ heq => hminus (List.cons.inj heq).1)
      (fun _ heq => hplus (List.cons.inj heq).1), hdigits]
    rfl
  rw [literal?, if_neg (hwords "true" (by decide)), if_neg (hwords "false" (by decide)),
    if_neg (hwords "null" (by decide)), hint]
  simp [hdigit, hdot, hminus]

/-- An identifier with steps after it is no literal, unless it is one of three words. -/
theorem literal?_eq_none {start : Char} {rest : List Char} (hstart : isNameStart start)
    (hwords : ∀ word ∈ ["true", "false", "null"], start :: rest ≠ word.toList) :
    literal? (start :: rest) = none := by
  refine literal?_eq_none_of_start (Token.isDigit_eq_false_of_isNameStart hstart) ?_ hwords
  intro hmem
  have hsign : isNameStart start = false := by
    simp only [List.mem_cons, List.not_mem_nil, or_false] at hmem
    rcases hmem with rfl | rfl | rfl <;> decide
  rw [hstart] at hsign
  cases hsign

theorem literal?_text {path : Path} (h : path.isPlain) : literal? path.text.toList = none := by
  obtain ⟨name, rest, rfl, hname, hrest⟩ := Path.exists_of_isPlain h
  obtain ⟨start, more, hchars, hstart, hmore⟩ := Path.exists_of_isName hname
  have htext : (Path.text ⟨.key name :: rest⟩).toList =
      start :: (more ++ rest.flatMap stepChars) := by
    rw [Path.toList_text, hchars, List.cons_append]
  rw [htext]
  refine literal?_eq_none hstart fun word hword heq => ?_
  -- A word is read as the path of this one key, and that path is not plain.
  have hread := Path.ofChars?_text_of_isPlain h
  rw [htext, heq] at hread
  have hplain : ∀ word ∈ ["true", "false", "null"],
      (Path.ofChars? word.toList).all (fun path => !path.isPlain) := by decide +kernel
  have hword := hplain word hword
  rw [hread, Option.all_some, h] at hword
  cases hword

/-- The digits of an index are evaluated to it. -/
theorem value?_toDigits (scope : Scope) {i : Nat} (h : Text.fitsInt64 i) :
    value? scope (Nat.toDigits 10 i) = .done (some (.int (Int64.ofInt i))) := by
  have hvalue : Text.digitsValue (Nat.toDigits 10 i) = i := Nat.ofDigitChars_ten_toDigits
  rw [value?_digits Nat.toDigits_ne_nil (fun c hc => isDigit_of_mem_toDigits hc)
    (by rwa [hvalue]), hvalue]

/-- An index of 64 bits is the position that its value stands for. -/
theorem position?_ofInt {i : Nat} (h : Text.fitsInt64 i) :
    position? (.int (Int64.ofInt i)) = some i := by
  rw [Text.fitsInt64, Bool.and_eq_true, decide_eq_true_eq, decide_eq_true_eq, Text.minInt64,
    Text.maxInt64] at h
  have hvalue : (Int64.ofInt i).toInt = i := Int64.toInt_ofInt_of_le (by omega) (by omega)
  simp only [position?, Value.int?, hvalue]
  rw [if_pos (Int.natCast_nonneg i), Int.toNat_natCast]

/-! ### The value of a plain path -/

/-- What a last step makes of the value in front of it, if there is nothing at the whole path. -/
def afterStep : Segment → Option Value → Option Value
  | .key name, base => (Helper.ofKey? name).bind fun helper => helper.apply base
  | .index i, base => itemAt base (some i)

variable (answers : Path → Option Value) {path : Path}

theorem value_readPathText_text (sub : Evaluation) (h : path.isPlain) :
    (readPathText .empty sub path.text.toList).value answers = answers path := by
  rw [readPathText_text sub h, Scope.readPath, Scope.lookup_empty]
  rfl

/-- A plain path that leads nowhere is an array property, an indexing or nothing. -/
theorem value_value?_of_isPlain (h : path.isPlain) (hnone : answers path = none) :
    (value? .empty path.text.toList).value answers =
      (arrayForm .empty (below .empty path.text.toList) path.text.toList).value answers := by
  have hne : path.text.toList ≠ [] := by
    obtain ⟨name, rest, rfl, hname, -⟩ := Path.exists_of_isPlain h
    obtain ⟨start, more, hchars, -, -⟩ := Path.exists_of_isName hname
    rw [Path.toList_text, hchars]
    exact List.cons_ne_nil _ _
  rw [value?_of_quiet hne (Path.isQuiet_text h), Reading.value_bind]
  cases (arrayForm .empty (below .empty path.text.toList) path.text.toList).value answers with
  | some value => rfl
  | none =>
    simp only [literal?_text h]
    rw [value_readPathText_text answers _ h, hnone]

/-- A single name that leads nowhere has no value. -/
theorem value_value?_ofKey {name : String} (h : isName name)
    (hnone : answers (.ofKey name) = none) :
    (value? .empty (Path.ofKey name).text.toList).value answers = none := by
  have hplain : (Path.ofKey name).isPlain := by
    simp [Path.isPlain, Path.ofKey, Path.firstKey?, isPlainStep, h]
  have htext : (Path.ofKey name).text.toList = name.toList := by
    rw [Path.ofKey, Path.toList_text, List.flatMap_nil, List.append_nil]
  have hlast : name.toList.getLast? ≠ some ']' := fun heq =>
    not_mem_name h (c := ']') (by decide) (List.mem_of_getLast? heq)
  rw [value_value?_of_isPlain answers hplain hnone, htext, arrayForm,
    contains?_eq_none (not_mem_name h (by decide)),
    helper?_eq_none_of_no_dot (not_mem_name h (by decide)), indexed?_eq_none hlast]
  rfl

/-- The value of a path with one more step as an array property or as an indexing. -/
theorem value_arrayForm_append (hpath : path.isPlain) {segment : Segment}
    (hsegment : isPlainStep segment) (sub : Evaluation)
    (hsub : ∀ i : Nat, Text.fitsInt64 i → segment = .index i →
      sub (Nat.toDigits 10 i) = .done (some (.int (Int64.ofInt i)))) :
    (arrayForm .empty sub (path.text.toList ++ stepChars segment)).value answers =
      afterStep segment (answers path) := by
  have hquiet : ∀ c ∈ path.text.toList ++ stepChars segment, isQuiet c :=
    List.forall_mem_append.mpr ⟨Path.isQuiet_text hpath, Path.isQuiet_stepChars hsegment⟩
  have hbase := isPathText_text hpath
  rw [arrayForm, contains?_eq_none (Text.not_mem_of_class hquiet (by decide))]
  cases segment with
  | key name =>
    simp only [stepChars]
    rw [helper?_key hbase (not_mem_name hsegment (by decide)), afterStep]
    cases Helper.ofKey? name with
    | some helper =>
      simp only [Option.map_some, Option.bind_some]
      rw [Reading.value_bind, value_readPathText_text answers sub hpath]
      rfl
    | none =>
      have hlast : (path.text.toList ++ '.' :: name.toList).getLast? ≠ some ']' := by
        intro heq
        rw [List.getLast?_append_of_ne_nil _ (List.cons_ne_nil _ _)] at heq
        rcases List.mem_cons.mp (List.mem_of_getLast? heq) with hdot | hmem
        · exact absurd hdot (by decide)
        · exact not_mem_name hsegment (by decide) hmem
      simp only [Option.map_none, Option.bind_none]
      rw [indexed?_eq_none hlast]
      rfl
  | index i =>
    have hbracket : path.text.toList ++ stepChars (.index i) =
        (path.text.toList ++ '[' :: Nat.toDigits 10 i) ++ [']'] := by
      simp [stepChars]
    have hindexed : indexed? (path.text.toList ++ stepChars (.index i)) =
        some (path.text.toList, Nat.toDigits 10 i) :=
      indexed?_bracket fun c hc => Path.ne_of_mem_toDigits hc
    have hhelper : helper? (path.text.toList ++ stepChars (.index i)) = none := by
      rw [hbracket]
      exact helper?_bracket _
    simp only [hhelper, hindexed, hbase, if_true]
    rw [evalWith, hsub i hsegment rfl, Reading.done_bind, Reading.done_bind, Reading.value_bind,
      value_readPathText_text answers sub hpath, Option.getD_some, position?_ofInt hsegment]
    rfl

/-- A plain path of two or more steps that leads nowhere is evaluated to what its last step makes of
the value in front of it. -/
theorem value_value?_append (hpath : path.firstKey?.isSome) {segment : Segment}
    (hplain : (path.append ⟨[segment]⟩).isPlain)
    (hnone : answers (path.append ⟨[segment]⟩) = none) :
    (value? .empty (path.append ⟨[segment]⟩).text.toList).value answers =
      afterStep segment (answers path) := by
  obtain ⟨hbase, hsteps⟩ := (Path.isPlain_append hpath).mp hplain
  have htext : (path.append ⟨[segment]⟩).text.toList = path.text.toList ++ stepChars segment := by
    rw [Path.toList_text_append hpath, List.flatMap_singleton]
  rw [value_value?_of_isPlain answers hplain hnone, htext]
  refine value_arrayForm_append answers hbase (hsteps segment List.mem_cons_self) _ ?_
  rintro i hfits rfl
  have hshorter : (Nat.toDigits 10 i).length <
      (path.text.toList ++ stepChars (.index i)).length := by
    simp only [stepChars, List.length_append, List.length_cons]
    omega
  rw [below, if_pos hshorter, value?_toDigits _ hfits]

end Expr

/-! ### Following a plain path -/

/-- The value that a path of a text is followed to: null in the place of no value, and of the text
itself. -/
def otherThan (text : String) : Option Value → Value
  | some (.string s) => if s = text then .null else .string s
  | some value => value
  | none => .null

/-- Two texts that are left out make a difference only to values that are one of them. -/
theorem otherThan_eq_of_ne {text other : String} {value : Option Value}
    (h : otherThan other value ≠ otherThan text value) :
    otherThan text value = .string other ∨ otherThan other value = .string text := by
  cases value with
  | none => exact absurd rfl h
  | some value =>
    cases value with
    | string s =>
      simp only [otherThan] at h ⊢
      by_cases htext : s = text
      · by_cases hother : s = other
        · rw [if_pos htext, if_pos hother] at h
          exact absurd rfl h
        · rw [if_neg hother, htext]
          exact .inr rfl
      · by_cases hother : s = other
        · rw [if_neg htext, hother]
          exact .inl rfl
        · rw [if_neg htext, if_neg hother] at h
          exact absurd rfl h
    | _ => exact absurd rfl h

variable (answers : Path → Option Value) {path : Path}

/-- A plain path that leads nowhere is followed to its value as an expression. -/
theorem followPath_of_isPlain (h : path.isPlain) (hnone : answers path = none) :
    (followPath .empty path.text).value answers =
      otherThan path.text ((Expr.value? .empty path.text.toList).value answers) := by
  have htrim : Text.trim path.text.toList = path.text.toList :=
    Text.trim_eq_self (Expr.trimmed_of_quiet (Path.isQuiet_text h))
  have hread : Scope.empty.read path.text.toList = .ask path .done := by
    rw [Scope.read, Path.ofChars?_text_of_isPlain h]
    simp only [Scope.readPath, Scope.lookup_empty]
  rw [followPath, hread, Reading.value_bind, Reading.value, Reading.value, hnone]
  simp only [Expr.eval, Expr.evalWith, Reading.value_bind, Reading.value, htrim,
    String.ofList_toList]
  cases (Expr.value? .empty path.text.toList).value answers with
  | none => simp [otherThan, Reading.value]
  | some value =>
    cases value with
    | string s => simp [otherThan, Reading.value, String.toList_inj]
    | _ => rfl

theorem followPath_append (hpath : path.firstKey?.isSome) {segment : Segment}
    (hplain : (path.append ⟨[segment]⟩).isPlain)
    (hnone : answers (path.append ⟨[segment]⟩) = none) :
    (followPath .empty (path.append ⟨[segment]⟩).text).value answers =
      otherThan (path.append ⟨[segment]⟩).text (Expr.afterStep segment (answers path)) := by
  rw [followPath_of_isPlain answers hplain hnone,
    Expr.value_value?_append answers hpath hplain hnone]

theorem followPath_ofKey {name : String} (h : Path.isName name)
    (hnone : answers (.ofKey name) = none) :
    (followPath .empty (Path.ofKey name).text).value answers = .null := by
  have hplain : (Path.ofKey name).isPlain := by
    simp [Path.isPlain, Path.ofKey, Path.firstKey?, Path.isPlainStep, h]
  rw [followPath_of_isPlain answers hplain hnone, Expr.value_value?_ofKey answers h hnone]
  rfl

end ScreenDoc
