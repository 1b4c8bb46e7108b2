import ScreenDoc.Proofs.Checked.Slice
import ScreenDoc.Proofs.Expr.Forms
import ScreenDoc.Proofs.Expr.Operators
import ScreenDoc.Proofs.Expr.Placeholder

/-!
# Checked scans

The scans of an expression, as a machine runs them: over the characters with their byte positions,
and with counts of what is open that are kept in words. None of this goes wrong on a text whose
bytes can be counted, however malformed it is, and the scans find what `Expr.topLevel` and the other
scans by number find.

## Main definitions

- `Checked.topLevel`, `Checked.colon?`, `Checked.ternary?` — the operators of a ternary, and its
  parts, cut there
- `Checked.brace?`, `Checked.bracket?` — where a placeholder and a bracket are closed

## Main results

- `Checked.topLevel_charIndices` — the characters outside of quotes and placeholders
- `Checked.ternary?_eq` — a ternary is cut without a fault, and into the same parts
- `Checked.brace?_charIndices`, `Checked.bracket?_charIndices`, `Checked.bracket?_reverse` — the
  byte positions at which braces and brackets are closed and opened

## Design notes

A count never exceeds the number of characters that are passed over, which does not exceed the
number of bytes. So the one bound on the size of the text bounds all counts and sums.
-/

namespace ScreenDoc

open ScreenDoc.Expr (isQuote)
open Text (size byteAt slice charIndices)

namespace Checked

/-! ### Operators of a ternary -/

/-- The characters outside of quotes and placeholders, given the open quotation mark and the number
of open braces. -/
def topLevel : Option Char → Nat → List (Nat × Char) → Except Fault (List (Nat × Char))
  | _, _, [] => .ok []
  | some q, braces, (_, c) :: rest => topLevel (if c = q then none else some q) braces rest
  | none, braces, (_, '$') :: (_, '\x7b') :: rest => do topLevel none (← Fault.add braces 1) rest
  | none, braces, (i, c) :: rest =>
    if isQuote c then topLevel (some c) braces rest
    else if c = '\x7b' && 0 < braces then do topLevel none (← Fault.add braces 1) rest
    else if c = '\x7d' && 0 < braces then do topLevel none (← Fault.pred braces) rest
    else if 0 < braces then topLevel none braces rest
    else do return (i, c) :: (← topLevel none braces rest)

theorem charIndices_cons (front : List Char) (c : Char) (rest : List Char) :
    charIndices (size front) (c :: rest) =
      (size front, c) :: charIndices (size (front ++ [c])) rest := by
  rw [charIndices, Text.size_append, Text.size_cons, Text.size_nil, Nat.add_zero]

/-- The positions are those of bytes. No count of braces exceeds the number of characters. -/
theorem topLevel_charIndices {quote : Option Char} {braces : Nat} (front text : List Char)
    (h : braces + text.length ≤ Text.maxIndex) :
    topLevel quote braces (charIndices (size front) text) =
      .ok ((Expr.topLevelFrom quote braces front.length text).map
        (Prod.map (byteAt (front ++ text)) id)) := by
  have hlength (front : List Char) (c : Char) : (front ++ [c]).length = front.length + 1 := by simp
  -- What is no opener for the one scan is none for the other.
  have hopener {c : Char} {rest : List Char} {j : Nat}
      (hnot : ∀ more, c = '$' → rest = '\x7b' :: more → False) :
      ∀ k others, charIndices j rest = (k, '\x7b') :: others → c = '$' → False := by
    intro k others heq hc
    refine hnot (others.map Prod.snd) hc ?_
    rw [← Text.charIndices_map_snd j rest, heq, List.map_cons]
  generalize hi : front.length = i
  fun_induction Expr.topLevelFrom quote braces i text generalizing front with
  | case1 => cases ‹Option Char› <;> rfl
  | case2 braces i q c rest ih =>
    have hrest := ih (front ++ [c]) (by rw [List.length_cons] at h; omega) (by rw [hlength, hi])
    rw [charIndices_cons, topLevel, hrest, List.append_assoc]
    rfl
  | case3 braces i rest ih =>
    simp only [List.length_cons] at h
    have hrest := ih (front ++ ['$'] ++ ['\x7b']) (by omega) (by rw [hlength, hlength, hi])
    rw [charIndices_cons, charIndices_cons, topLevel, Fault.add_eq_ok (by omega)]
    refine hrest.trans ?_
    rw [List.append_assoc, List.append_assoc]
    rfl
  | case4 braces i c rest hnot hquote ih =>
    have hrest := ih (front ++ [c]) (by rw [List.length_cons] at h; omega) (by rw [hlength, hi])
    rw [charIndices_cons, topLevel.eq_4 _ _ _ _ (hopener hnot), if_pos hquote, hrest,
      List.append_assoc]
    rfl
  | case5 i c rest hnot hquote ih =>
    have hrest := ih (front ++ [c]) (by rw [List.length_cons] at h; omega) (by rw [hlength, hi])
    rw [charIndices_cons, topLevel.eq_4 _ _ _ _ (hopener hnot), if_neg hquote]
    simp only [Nat.lt_irrefl, decide_false, Bool.and_false, Bool.false_eq_true, if_false, hrest,
      List.append_assoc, List.map_cons, Prod.map_apply]
    rw [← hi, Text.byteAt_length_append]
    rfl
  | case6 braces i rest hbraces hnot hquote ih =>
    rw [List.length_cons] at h
    have hrest := ih (front ++ ['\x7b']) (by omega) (by rw [hlength, hi])
    rw [charIndices_cons, topLevel.eq_4 _ _ _ _ (hopener hnot), if_neg hquote,
      Fault.add_eq_ok (by omega)]
    simp only [Nat.pos_of_ne_zero hbraces, decide_true, Bool.and_self, if_true]
    refine hrest.trans ?_
    rw [List.append_assoc]
    rfl
  | case7 braces i rest hbraces hnot hquote hopen ih =>
    rw [List.length_cons] at h
    have hrest := ih (front ++ ['\x7d']) (by omega) (by rw [hlength, hi])
    rw [charIndices_cons, topLevel.eq_4 _ _ _ _ (hopener hnot), if_neg hquote,
      Fault.pred_eq_ok (Nat.pos_of_ne_zero hbraces)]
    simp only [hopen, Nat.pos_of_ne_zero hbraces, decide_true, decide_false, Bool.false_and,
      Bool.and_self, Bool.false_eq_true, if_false, if_true]
    refine hrest.trans ?_
    rw [List.append_assoc]
    rfl
  | case8 braces i c rest hnot hquote hbraces hopen hclose ih =>
    have hrest := ih (front ++ [c]) (by rw [List.length_cons] at h; omega) (by rw [hlength, hi])
    rw [charIndices_cons, topLevel.eq_4 _ _ _ _ (hopener hnot), if_neg hquote]
    simp only [hopen, hclose, Nat.pos_of_ne_zero hbraces, decide_false, Bool.false_and,
      Bool.false_eq_true, if_false, if_true, hrest, List.append_assoc]
    rfl

/-- The characters outside of parentheses, given the number of open ones. A parenthesis that closes
none does not count. -/
def outsideParens : Nat → List (Nat × Char) → Except Fault (List (Nat × Char))
  | _, [] => .ok []
  | parens, (i, c) :: rest =>
    if c = '(' then do outsideParens (← Fault.add parens 1) rest
    else if c = ')' then outsideParens (parens - 1) rest
    else if parens = 0 then do return (i, c) :: (← outsideParens parens rest)
    else outsideParens parens rest

theorem outsideParens_eq {parens : Nat} {chars : List (Nat × Char)}
    (h : parens + chars.length ≤ Text.maxIndex) :
    outsideParens parens chars = .ok (Expr.outsideParens parens chars) := by
  fun_induction Expr.outsideParens parens chars with
  | case1 => rfl
  | case2 parens i rest ih =>
    rw [List.length_cons] at h
    rw [outsideParens, if_pos rfl, Fault.add_eq_ok (by omega)]
    exact ih (by omega)
  | case3 parens i rest hopen ih =>
    rw [List.length_cons] at h
    rw [outsideParens, if_neg hopen, if_pos rfl, ih (by omega)]
  | case4 i c rest hopen hclose ih =>
    rw [List.length_cons] at h
    rw [outsideParens, if_neg hopen, if_neg hclose, if_pos rfl, ih (by omega)]
    rfl
  | case5 parens i c rest hopen hclose hparens ih =>
    rw [List.length_cons] at h
    rw [outsideParens, if_neg hopen, if_neg hclose, if_neg hparens, ih (by omega)]

/-- The position of the colon that belongs to a question mark in front, given the number of further
question marks that are open. -/
def colon? : Nat → List (Nat × Char) → Except Fault (Option Nat)
  | _, [] => .ok none
  | depth, (i, c) :: rest =>
    if c = '?' then do colon? (← Fault.add depth 1) rest
    else if c = ':' then
      if depth = 0 then .ok (some i) else do colon? (← Fault.pred depth) rest
    else colon? depth rest

theorem colon?_eq {depth : Nat} {chars : List (Nat × Char)}
    (h : depth + chars.length ≤ Text.maxIndex) :
    colon? depth chars = .ok (Expr.colon? depth chars) := by
  fun_induction Expr.colon? depth chars with
  | case1 => rfl
  | case2 depth i rest ih =>
    rw [List.length_cons] at h
    rw [colon?, if_pos rfl, Fault.add_eq_ok (by omega)]
    exact ih (by omega)
  | case3 i rest hquestion => rw [colon?, if_neg hquestion, if_pos rfl, if_pos rfl]
  | case4 depth i rest hdepth hquestion ih =>
    rw [List.length_cons] at h
    rw [colon?, if_neg hquestion, if_pos rfl, if_neg hdepth,
      Fault.pred_eq_ok (Nat.pos_of_ne_zero hdepth)]
    exact ih (by omega)
  | case5 depth i c rest hquestion hcolon ih =>
    rw [List.length_cons] at h
    rw [colon?, if_neg hquestion, if_neg hcolon, ih (by omega)]

/-- The characters at which a text can be split, with their byte positions. -/
def marks (text : List Char) : Except Fault (List (Nat × Char)) := do
  outsideParens 0 (← topLevel none 0 (charIndices 0 text))

/-- The parts of a ternary, given the byte positions of its operators. -/
def splitAt (text : List Char) (q colon : Nat) :
    Except Fault (Option (List Char × List Char × List Char)) := do
  let condition := Text.trim (← slice text 0 q)
  if condition.isEmpty then return none
  let whenTrue ← slice text (← Fault.add q 1) colon
  let whenFalse ← slice text (← Fault.add colon 1) (size text)
  return some (condition, Text.trim whenTrue, Text.trim whenFalse)

/-- The parts of `cond ? a : b`, cut at its own operators. -/
def ternary? (text : List Char) :
    Except Fault (Option (List Char × List Char × List Char)) := do
  let chars ← marks text
  match chars.findIdx? (·.2 = '?') with
  | none => return none
  | some question =>
    match ← colon? 0 (← Fault.drop chars (← Fault.add question 1)) with
    | none => return none
    | some colon =>
      let (q, _) ← Fault.get chars question
      splitAt text q colon

/-- Where a scan stops, and what it has passed over. -/
theorem findIdx?_of_dropWhile {α : Type} (p : α → Bool) {items rest : List α} {a : α}
    (h : items.dropWhile (fun item => !p item) = a :: rest) :
    ∃ k, items.findIdx? p = some k ∧ items[k]? = some a ∧ items.drop (k + 1) = rest ∧ p a := by
  induction items with
  | nil => cases h
  | cons item items ih =>
    by_cases hp : p item
    · rw [List.dropWhile_cons_of_neg (by simp [hp])] at h
      cases h
      exact ⟨0, by rw [List.findIdx?_cons, if_pos hp], rfl, rfl, hp⟩
    · rw [List.dropWhile_cons_of_pos (by simp [hp])] at h
      obtain ⟨k, hk, hitem, hrest, ha⟩ := ih h
      exact ⟨k + 1, by rw [List.findIdx?_cons, if_neg hp, hk]; rfl, hitem, hrest, ha⟩

/-- The characters that a scan finds stand in the text, one after the other. -/
theorem getElem?_of_mem_topLevelFrom {quote : Option Char} {braces i : Nat} {text : List Char}
    {p : Nat × Char} (h : p ∈ Expr.topLevelFrom quote braces i text) :
    text[p.1 - i]? = some p.2 := by
  have hlater {j : Nat} (front : List Char) {rest : List Char} (hle : j + front.length ≤ p.1)
      (hrest : rest[p.1 - (j + front.length)]? = some p.2) :
      (front ++ rest)[p.1 - j]? = some p.2 := by
    rw [List.getElem?_append_right (by omega), Nat.sub_sub, hrest]
  fun_induction Expr.topLevelFrom quote braces i text with
  | case1 => exact absurd h List.not_mem_nil
  | case3 braces i rest ih =>
    exact hlater ['$', '\x7b'] (Expr.position_of_mem_topLevelFrom h).1 (ih h)
  | case5 i c rest _ _ ih =>
    rcases List.mem_cons.mp h with rfl | h
    · rw [Nat.sub_self]
      rfl
    · exact hlater [c] (Expr.position_of_mem_topLevelFrom h).1 (ih h)
  | case2 braces i q c rest ih =>
    exact hlater [c] (Expr.position_of_mem_topLevelFrom h).1 (ih h)
  | case4 braces i c rest _ _ ih =>
    exact hlater [c] (Expr.position_of_mem_topLevelFrom h).1 (ih h)
  | case6 braces i rest _ _ _ ih =>
    exact hlater ['\x7b'] (Expr.position_of_mem_topLevelFrom h).1 (ih h)
  | case7 braces i rest _ _ _ _ ih =>
    exact hlater ['\x7d'] (Expr.position_of_mem_topLevelFrom h).1 (ih h)
  | case8 braces i c rest _ _ _ _ _ ih =>
    exact hlater [c] (Expr.position_of_mem_topLevelFrom h).1 (ih h)

theorem length_topLevelFrom_le (quote : Option Char) (braces i : Nat) (text : List Char) :
    (Expr.topLevelFrom quote braces i text).length ≤ text.length := by
  fun_induction Expr.topLevelFrom quote braces i text with
  | case1 => exact Nat.le_refl 0
  | _ =>
    simp only [List.length_cons]
    omega

theorem pairwise_topLevelFrom (quote : Option Char) (braces i : Nat) (text : List Char) :
    (Expr.topLevelFrom quote braces i text).Pairwise (·.1 < ·.1) := by
  fun_induction Expr.topLevelFrom quote braces i text with
  | case1 => exact .nil
  | case5 i c rest _ _ ih =>
    exact .cons (fun p hp => (Expr.position_of_mem_topLevelFrom hp).1) ih
  | _ => assumption

theorem outsideParens_sublist (parens : Nat) (chars : List (Nat × Char)) :
    (Expr.outsideParens parens chars).Sublist chars := by
  fun_induction Expr.outsideParens parens chars with
  | case1 => exact .slnil
  | case4 i c rest _ _ ih => exact ih.cons_cons _
  | _ => exact List.Sublist.cons _ ‹_›

theorem marks_eq {text : List Char} (h : text.length ≤ Text.maxIndex) :
    marks text =
      .ok ((Expr.outsideParens 0 (Expr.topLevel text)).map (Prod.map (byteAt text) id)) := by
  have hscan : topLevel none 0 (charIndices 0 text) =
      .ok ((Expr.topLevel text).map (Prod.map (byteAt text) id)) :=
    topLevel_charIndices [] text (by omega)
  have hle : (Expr.topLevel text).length ≤ text.length := length_topLevelFrom_le none 0 0 text
  rw [marks, hscan, Fault.ok_bind, outsideParens_eq (by rw [List.length_map]; omega),
    Expr.outsideParens_map]

/-- A ternary is cut in range, between characters. -/
theorem splitAt_eq {text : List Char} (h : size text ≤ Text.maxIndex) {q colon : Nat}
    (hq : text[q]? = some '?') (hcolon : text[colon]? = some ':') (hlt : q < colon) :
    splitAt text (byteAt text q) (byteAt text colon) =
      .ok (if (Text.trim (text.take q)).isEmpty then none
        else some (Text.trim (text.take q), Text.trim ((text.drop (q + 1)).take (colon - (q + 1))),
          Text.trim (text.drop (colon + 1)))) := by
  have hbehindq : byteAt text (q + 1) = byteAt text q + 1 := Text.byteAt_succ hq
  have hbehind : byteAt text (colon + 1) = byteAt text colon + 1 := Text.byteAt_succ hcolon
  have hqle := Text.byteAt_le text (q + 1)
  have hcolonle := Text.byteAt_le text (colon + 1)
  have hcondition : slice text 0 (byteAt text q) = .ok (text.take q) :=
    Text.slice_byteAt text (Nat.zero_le q)
  have htrue : slice text (byteAt text q + 1) (byteAt text colon) =
      .ok ((text.drop (q + 1)).take (colon - (q + 1))) := hbehindq ▸ Text.slice_byteAt text hlt
  have hfalse := Text.slice_behind hcolon (by decide)
  have hqadd : Fault.add (byteAt text q) 1 = .ok (byteAt text q + 1) :=
    Fault.add_eq_ok (by omega)
  have hcolonadd : Fault.add (byteAt text colon) 1 = .ok (byteAt text colon + 1) :=
    Fault.add_eq_ok (by omega)
  simp only [splitAt, hcondition, hqadd, htrue, hcolonadd, hfalse, Fault.ok_bind, Fault.pure_eq]
  split <;> rfl

theorem ternary?_eq {text : List Char} (h : size text ≤ Text.maxIndex) :
    ternary? text = .ok (Expr.ternary? text) := by
  have hlength := (Text.length_le_size text).trans h
  have hsub := outsideParens_sublist 0 (Expr.topLevel text)
  have hsorted := (pairwise_topLevelFrom none 0 0 text).sublist hsub
  have hcount := hsub.length_le.trans (length_topLevelFrom_le none 0 0 text)
  rw [ternary?, marks_eq hlength, Fault.ok_bind, Expr.ternary?, List.findIdx?_map]
  generalize hchars : Expr.outsideParens 0 (Expr.topLevel text) = chars at *
  have hstands {i : Nat} {c : Char} (hmem : (i, c) ∈ chars) : text[i]? = some c :=
    getElem?_of_mem_topLevelFrom (hsub.subset hmem)
  have hquestion : ((fun mark : Nat × Char => decide (mark.2 = '?')) ∘
      Prod.map (byteAt text) id) = fun mark => decide (mark.2 = '?') := rfl
  have hnot : (fun mark : Nat × Char => decide (mark.2 ≠ '?')) =
      fun mark => !decide (mark.2 = '?') := funext fun mark => decide_not
  rw [hquestion, hnot]
  cases hdrop : chars.dropWhile fun mark => !decide (mark.2 = '?') with
  | nil =>
    rw [List.dropWhile_eq_nil_iff] at hdrop
    rw [List.findIdx?_eq_none_iff.mpr fun mark hmark => by simpa using hdrop mark hmark]
    rfl
  | cons first rest =>
    obtain ⟨q, c⟩ := first
    obtain ⟨k, hk, hfirst, rfl, hc⟩ := findIdx?_of_dropWhile _ hdrop
    obtain rfl : c = '?' := of_decide_eq_true hc
    have hklt := (List.getElem?_eq_some_iff.mp hfirst).1
    have hget : Fault.get (chars.map (Prod.map (byteAt text) id)) k = .ok (byteAt text q, '?') :=
      Fault.get_eq_ok (by rw [List.getElem?_map, hfirst]; rfl)
    rw [hk]
    simp only
    rw [Fault.add_eq_ok (by omega), Fault.ok_bind,
      Fault.drop_eq_ok (by rw [List.length_map]; omega), Fault.ok_bind, ← List.map_drop,
      colon?_eq (by simp only [List.length_map, List.length_drop]; omega), Expr.colon?_map,
      Fault.ok_bind]
    cases hcolon : Expr.colon? 0 (chars.drop (k + 1)) with
    | none => rfl
    | some colon =>
      have hmem := Expr.mem_of_colon? hcolon
      have hlt : q < colon := by
        have hlater := hsorted.drop (i := k)
        rw [List.drop_eq_getElem_cons hklt, (List.getElem?_eq_some_iff.mp hfirst).2] at hlater
        exact (List.pairwise_cons.mp hlater).1 _ hmem
      simp only [Option.map_some, hget, Fault.ok_bind]
      exact splitAt_eq h (hstands (List.mem_of_getElem? hfirst))
        (hstands (List.mem_of_mem_drop hmem)) hlt

/-! ### Closing braces and brackets -/

/-- The position of the brace that closes a placeholder, given the open quotation mark and the
number of open braces inside. -/
def brace? : Option Char → Nat → List (Nat × Char) → Except Fault (Option Nat)
  | _, _, [] => .ok none
  | some q, depth, (_, c) :: rest => brace? (if c = q then none else some q) depth rest
  | none, depth, (i, c) :: rest =>
    if isQuote c then brace? (some c) depth rest
    else if c = '\x7b' then do brace? none (← Fault.add depth 1) rest
    else if c = '\x7d' then
      if depth = 0 then .ok (some i) else do brace? none (← Fault.pred depth) rest
    else brace? none depth rest

/-- Where a scan has stopped, given what it has passed over. -/
def stopOf (chars : List (Nat × Char)) (parts : List Char × List Char) : Option Nat :=
  chars[parts.1.length]?.map Prod.fst

/-- A scan that goes on behind a character stops where it stops behind it. -/
theorem bind_stopOf_cons (first : Nat × Char) (chars : List (Nat × Char)) (c : Char)
    (parts : Option (List Char × List Char)) :
    (parts.map fun (body, after) => (c :: body, after)).bind (stopOf (first :: chars)) =
      parts.bind (stopOf chars) := by
  cases parts <;> rfl

theorem brace?_eq {quote : Option Char} {depth : Nat} {chars : List (Nat × Char)}
    (h : depth + chars.length ≤ Text.maxIndex) :
    brace? quote depth chars =
      .ok ((Expr.closePlaceholder? quote depth (chars.map Prod.snd)).bind (stopOf chars)) := by
  have hbraces : isQuote '\x7b' = false ∧ isQuote '\x7d' = false := by decide
  induction chars generalizing quote depth with
  | nil => cases quote <;> rfl
  | cons first rest ih =>
    obtain ⟨i, c⟩ := first
    rw [List.length_cons] at h
    cases quote with
    | some q =>
      rw [brace?, List.map_cons, Expr.closePlaceholder?, bind_stopOf_cons, ih (by omega)]
    | none =>
      rw [brace?, List.map_cons, Expr.closePlaceholder?]
      by_cases hquote : isQuote c
      · have hopen : c ≠ '\x7b' := Text.ne_of_class hquote hbraces.1
        have hclose : c ≠ '\x7d' := Text.ne_of_class hquote hbraces.2
        simp only [hquote, hopen, hclose, decide_false, Bool.false_and, Bool.false_eq_true, if_true,
          if_false]
        rw [bind_stopOf_cons, ih (by omega)]
      rw [if_neg hquote]
      by_cases hopen : c = '\x7b'
      · subst hopen
        rw [if_pos rfl, Fault.add_eq_ok (by omega), Fault.ok_bind, ih (by omega),
          if_neg (by simp)]
        simp only [hquote, Bool.false_eq_true, if_true, if_false]
        rw [bind_stopOf_cons]
      rw [if_neg hopen]
      by_cases hclose : c = '\x7d'
      · subst hclose
        rw [if_pos rfl]
        by_cases hdepth : depth = 0
        · rw [if_pos hdepth, if_pos (by simp [hdepth])]
          rfl
        · rw [if_neg hdepth, Fault.pred_eq_ok (Nat.pos_of_ne_zero hdepth), Fault.ok_bind,
            ih (by omega), if_neg (by simp [hdepth])]
          simp only [hquote, hopen, Bool.false_eq_true, if_true, if_false]
          rw [bind_stopOf_cons]
      · rw [if_neg hclose, ih (by omega), if_neg (by simp [hclose])]
        simp only [hquote, hopen, hclose, Bool.false_eq_true, if_false]
        rw [bind_stopOf_cons]

/-- The position of the bracket that closes the first one, given the number of open ones. -/
def bracket? (opening closing : Char) : Nat → List (Nat × Char) → Except Fault (Option Nat)
  | _, [] => .ok none
  | depth, (i, c) :: rest =>
    if c = opening then do bracket? opening closing (← Fault.add depth 1) rest
    else if c = closing then
      if depth = 0 then .ok none
      else if depth - 1 = 0 then .ok (some i)
      else bracket? opening closing (depth - 1) rest
    else bracket? opening closing depth rest

theorem bracket?_eq {opening closing : Char} (hne : opening ≠ closing) {depth : Nat}
    (hdepth : 0 < depth) {chars : List (Nat × Char)} (h : depth + chars.length ≤ Text.maxIndex) :
    bracket? opening closing depth chars = .ok
      ((Expr.closeBracket? opening closing depth (chars.map Prod.snd)).bind (stopOf chars)) := by
  induction chars generalizing depth with
  | nil => rfl
  | cons first rest ih =>
    obtain ⟨i, c⟩ := first
    rw [List.length_cons] at h
    rw [bracket?, List.map_cons, Expr.closeBracket?]
    by_cases hopen : c = opening
    · subst hopen
      rw [if_pos rfl, Fault.add_eq_ok (by omega), Fault.ok_bind, ih (by omega) (by omega),
        if_neg (by simp [hne])]
      simp only [if_true]
      rw [bind_stopOf_cons]
    rw [if_neg hopen]
    by_cases hclose : c = closing
    · subst hclose
      rw [if_pos rfl, if_neg (Nat.ne_of_gt hdepth)]
      by_cases hlast : depth - 1 = 0
      · rw [if_pos hlast, if_pos (by simp; omega)]
        rfl
      · rw [if_neg hlast, ih (by omega) (by omega), if_neg (by simp; omega)]
        simp only [hopen, if_false, if_true]
        rw [bind_stopOf_cons]
    · rw [if_neg hclose, ih hdepth (by omega), if_neg (by simp [hclose])]
      simp only [hopen, hclose, if_false]
      rw [bind_stopOf_cons]

theorem stopOf_charIndices {text front after : List Char} {c : Char} (i : Nat)
    (h : text = front ++ c :: after) :
    stopOf (charIndices i text) (front, after) = some (i + size front) := by
  rw [stopOf, Text.getElem?_charIndices, h, Text.byteAt_length_append,
    List.getElem?_append_right (Nat.le_refl _), Nat.sub_self]
  rfl

/-- The byte position of the brace that closes a placeholder. -/
theorem brace?_charIndices {body : List Char} (h : body.length ≤ Text.maxIndex) :
    brace? none 0 (charIndices 0 body) =
      .ok ((Expr.closePlaceholder? none 0 body).map fun (inner, _) => size inner) := by
  have hcount : 0 + (charIndices 0 body).length ≤ Text.maxIndex := by
    rw [Text.length_charIndices]
    omega
  rw [brace?_eq hcount, Text.charIndices_map_snd]
  cases hclose : Expr.closePlaceholder? none 0 body with
  | none => rfl
  | some parts =>
    obtain ⟨inner, after⟩ := parts
    rw [Option.bind_some, stopOf_charIndices 0 (Expr.passed_of_closePlaceholder? hclose).1,
      Nat.zero_add]
    rfl

/-- The byte position of the bracket that closes the one at the start. -/
theorem bracket?_charIndices {tail : List Char} (h : 1 + tail.length ≤ Text.maxIndex) :
    bracket? '[' ']' 0 (charIndices 0 ('[' :: tail)) =
      .ok ((Expr.closeBracket? '[' ']' 1 tail).map fun (inner, _) => 1 + size inner) := by
  have hcount : 1 + (charIndices 1 tail).length ≤ Text.maxIndex := by
    rwa [Text.length_charIndices]
  have hrest := bracket?_eq (show '[' ≠ ']' by decide) Nat.one_pos hcount
  rw [Text.charIndices_map_snd] at hrest
  rw [charIndices, bracket?, if_pos rfl, Fault.add_eq_ok (by omega), Fault.ok_bind]
  refine hrest.trans ?_
  cases hclose : Expr.closeBracket? '[' ']' 1 tail with
  | none => rfl
  | some parts =>
    obtain ⟨inner, after⟩ := parts
    rw [Option.bind_some, stopOf_charIndices 1 (Expr.eq_append_of_closeBracket? hclose)]
    rfl

/-- The byte position of the bracket that opens the one at the end. -/
theorem bracket?_reverse {front : List Char} (h : 1 + front.length ≤ Text.maxIndex) :
    bracket? ']' '[' 0 (charIndices 0 (front ++ [']'])).reverse =
      .ok ((Expr.closeBracket? ']' '[' 1 front.reverse).map fun (_, base) => size base) := by
  have hcount : 1 + (charIndices 0 front).reverse.length ≤ Text.maxIndex := by
    rwa [List.length_reverse, Text.length_charIndices]
  have hrest := bracket?_eq (show ']' ≠ '[' by decide) Nat.one_pos hcount
  rw [List.map_reverse, Text.charIndices_map_snd] at hrest
  rw [Text.charIndices_append, List.reverse_append, charIndices, charIndices,
    List.reverse_singleton, List.singleton_append, bracket?, if_pos rfl,
    Fault.add_eq_ok (by omega), Fault.ok_bind]
  refine hrest.trans ?_
  cases hclose : Expr.closeBracket? ']' '[' 1 front.reverse with
  | none => rfl
  | some parts =>
    obtain ⟨index, base⟩ := parts
    have hfront : front = base.reverse ++ '[' :: index.reverse := by
      rw [← List.reverse_reverse front, Expr.eq_append_of_closeBracket? hclose]
      simp
    have hstop : stopOf (charIndices 0 front).reverse (index, base) = some (size base) := by
      rw [hfront, Text.charIndices_append, charIndices, List.reverse_append, List.reverse_cons,
        List.append_assoc, stopOf, List.getElem?_append_right (by simp)]
      simp
    exact congrArg Except.ok hstop

end Checked

end ScreenDoc
