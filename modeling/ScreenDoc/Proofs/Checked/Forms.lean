import ScreenDoc.Proofs.Checked.Scan

/-!
# Checked forms

The forms of expressions, taken apart as a machine does it: with cuts of the text at the byte
positions that a scan has found. All cuts are in range and between characters, and the parts are
those that `Expr.indexed?` and the like give.

## Main definitions

- `Checked.isPathText`, `Checked.withoutParens?` — checks of whole expressions
- `Checked.contains?`, `Checked.helper?`, `Checked.indexed?` — the parts of an array form
- `Checked.placeholder?` — the next placeholder of a template
- `Checked.bracketed?` — the next bracket of a path

## Main results

- `Checked.contains?_eq`, `Checked.helper?_eq`, `Checked.indexed?_eq` — array forms
- `Checked.placeholder?_eq`, `Checked.bracketed?_eq` — one round of the loop over a template or path
-/

namespace ScreenDoc

open ScreenDoc.Expr (Helper)
open Text (size slice charIndices)

namespace Checked

/-! ### Whole expressions -/

/-- Whether the rest of a path is in order, given the number of open brackets. -/
def isPathTail : Nat → List Char → Except Fault Bool
  | brackets, [] => .ok (brackets = 0)
  | brackets, c :: rest =>
    if c = '[' then do isPathTail (← Fault.add brackets 1) rest
    else if c = ']' then
      if 0 < brackets then do isPathTail (← Fault.pred brackets) rest else .ok false
    else if 0 < brackets then isPathTail brackets rest
    else if c.isAlphanum || c = '_' || c = '.' then isPathTail brackets rest
    else .ok false

/-- Whether an expression is an identifier with dots, names and brackets after it. -/
def isPathText : List Char → Except Fault Bool
  | [] => .ok false
  | c :: rest => if c.isAlpha || c = '_' then isPathTail 0 rest else .ok false

theorem isPathTail_eq {brackets : Nat} {text : List Char}
    (h : brackets + text.length ≤ Text.maxIndex) :
    isPathTail brackets text = .ok (Expr.isPathTail brackets text) := by
  induction text generalizing brackets with
  | nil => rfl
  | cons c rest ih =>
    rw [List.length_cons] at h
    rw [isPathTail, Expr.isPathTail]
    by_cases hopen : c = '['
    · rw [if_pos hopen, if_pos hopen, Fault.add_eq_ok (by omega), Fault.ok_bind, ih (by omega)]
    rw [if_neg hopen, if_neg hopen]
    by_cases hzero : brackets = 0
    · have hrest := ih (show 0 + rest.length ≤ Text.maxIndex by omega)
      subst hzero
      by_cases hclose : c = ']'
      · simp [hclose]
      · by_cases hname : c.isAlphanum || c = '_' || c = '.' <;> simp_all
    · have hpos := Nat.pos_of_ne_zero hzero
      have hout := ih (show brackets - 1 + rest.length ≤ Text.maxIndex by omega)
      have hin := ih (show brackets + rest.length ≤ Text.maxIndex by omega)
      by_cases hclose : c = ']'
      · simp [hclose, hpos, Fault.pred_eq_ok hpos, hout]
      · simp [hclose, hpos, hin]

theorem isPathText_eq {text : List Char} (h : text.length ≤ Text.maxIndex) :
    isPathText text = .ok (Expr.isPathText text) := by
  cases text with
  | nil => rfl
  | cons c rest =>
    rw [List.length_cons] at h
    rw [isPathText, Expr.isPathText, isPathTail_eq (by omega)]
    split <;> simp_all

/-- Whether the parentheses of a text match, given the number of open ones. -/
def isBalanced : Nat → List Char → Except Fault Bool
  | depth, [] => .ok (depth = 0)
  | depth, c :: rest =>
    if c = '(' then do isBalanced (← Fault.add depth 1) rest
    else if c = ')' then
      if depth = 0 then .ok false else isBalanced (depth - 1) rest
    else isBalanced depth rest

/-- The inside of parentheses that enclose all of an expression. -/
def withoutParens? : List Char → Except Fault (Option (List Char))
  | [] => return none
  | c :: rest =>
    if c = '(' && rest.getLast? = some ')' then do
      return if ← isBalanced 0 rest.dropLast then some rest.dropLast else none
    else return none

theorem isBalanced_eq {depth : Nat} {text : List Char}
    (h : depth + text.length ≤ Text.maxIndex) :
    isBalanced depth text = .ok (Expr.isBalanced depth text) := by
  induction text generalizing depth with
  | nil => rfl
  | cons c rest ih =>
    rw [List.length_cons] at h
    rw [isBalanced, Expr.isBalanced]
    by_cases hopen : c = '('
    · rw [if_pos hopen, if_pos hopen, Fault.add_eq_ok (by omega), Fault.ok_bind, ih (by omega)]
    rw [if_neg hopen, if_neg hopen]
    by_cases hclose : c = ')'
    · rw [if_pos hclose, if_pos hclose]
      by_cases hzero : depth = 0
      · simp [hzero]
      · have hrest := ih (show depth - 1 + rest.length ≤ Text.maxIndex by omega)
        simp [hzero, Nat.pos_of_ne_zero hzero, hrest]
    · rw [if_neg hclose, if_neg hclose, ih (by omega)]

theorem withoutParens?_eq {text : List Char} (h : text.length ≤ Text.maxIndex) :
    withoutParens? text = .ok (Expr.withoutParens? text) := by
  cases text with
  | nil => rfl
  | cons c rest =>
    rw [List.length_cons] at h
    rw [withoutParens?, isBalanced_eq (by rw [List.length_dropLast]; omega)]
    by_cases hopen : c = '('
    · subst hopen
      rw [Expr.withoutParens?]
      by_cases hlast : rest.getLast? = some ')' <;> simp [hlast]
    · rw [Expr.withoutParens?_of_start hopen, if_neg (by simp [hopen])]
      rfl

/-! ### Calls, properties and indexings -/

/-- Base and argument of `base.contains(argument)`. -/
def contains? (text : List Char) : Except Fault (Option (List Char × List Char)) :=
  match (Text.withoutEnd? [')'] text).bind (Text.cut? ".contains(".toList) with
  | some (base, argument) => do return if ← isPathText base then some (base, argument) else none
  | none => return none

/-- The first of some array properties that an expression ends in, and its base. -/
def helperOf? (text : List Char) : List Helper → Except Fault (Option (Helper × List Char))
  | [] => return none
  | helper :: others =>
    match Text.withoutEnd? helper.ending text with
    | some base => do
      if ← isPathText base then return some (helper, base) else helperOf? text others
    | none => helperOf? text others

/-- The array property that an expression ends in, and its base. -/
def helper? (text : List Char) : Except Fault (Option (Helper × List Char)) :=
  helperOf? text [.count, .isEmpty, .first, .last]

/-- The base and the index of an expression that ends in a bracketed index. -/
def indexed? (text : List Char) : Except Fault (Option (List Char × List Char)) :=
  if text.getLast? = some ']' then do
    match ← bracket? ']' '[' 0 (charIndices 0 text).reverse with
    | none => return none
    | some opening =>
      let base ← slice text 0 opening
      if ← isPathText base then
        let index ← slice text (← Fault.add opening 1) (← Fault.pred (size text))
        return some (base, index)
      else return none
  else return none

theorem contains?_eq {text : List Char} (h : text.length ≤ Text.maxIndex) :
    contains? text = .ok (Expr.contains? text) := by
  rw [contains?, Expr.contains?]
  simp only [Option.bind_eq_bind]
  cases hend : Text.withoutEnd? [')'] text with
  | none => rfl
  | some front =>
    have hfront := (Text.prefix_of_withoutEnd? hend).length_le
    cases hcut : Text.cut? ".contains(".toList front with
    | none => simp only [Option.bind_some, hcut]; rfl
    | some parts =>
      obtain ⟨base, argument⟩ := parts
      have hlength := Text.cut?_length hcut
      simp only [Option.bind_some, hcut, isPathText_eq (show base.length ≤ Text.maxIndex by omega)]
      rfl

theorem helper?_eq {text : List Char} (h : text.length ≤ Text.maxIndex) :
    helper? text = .ok (Expr.helper? text) := by
  rw [helper?, Expr.helper?]
  generalize [Helper.count, .isEmpty, .first, .last] = helpers
  induction helpers with
  | nil => rfl
  | cons helper others ih =>
    rw [helperOf?, List.findSome?_cons]
    cases hend : Text.withoutEnd? helper.ending text with
    | none => exact ih
    | some base =>
      have hbase := (Text.prefix_of_withoutEnd? hend).length_le
      simp only [isPathText_eq (hbase.trans h), Fault.ok_bind]
      by_cases hpath : Expr.isPathText base
      · simp [hpath]
      · simp [hpath, ih]

/-- An indexing is cut in range, between characters. -/
theorem slice_indexing {text base index : List Char}
    (htext : text = base ++ '[' :: (index ++ [']'])) :
    slice text 0 (size base) = .ok base ∧
      Fault.pred (size text) = .ok (size base + 1 + size index) ∧
      slice text (size base + 1) (size base + 1 + size index) = .ok index := by
  have hbracket : size ['['] = 1 ∧ size [']'] = 1 := ⟨rfl, rfl⟩
  have hsize : size text = size base + 1 + size index + 1 := by
    rw [htext, ← List.singleton_append, Text.size_append, Text.size_append, Text.size_append,
      hbracket.1, hbracket.2, ← Nat.add_assoc, ← Nat.add_assoc]
  refine ⟨?_, ?_, ?_⟩
  · rw [htext]
    exact Text.slice_front _ _
  · rw [hsize]
    rfl
  · apply Text.slice_eq_ok (base ++ ['[']) [']'] (by simp [htext])
    · rw [Text.size_append, hbracket.1]
    · rw [Text.size_append, hbracket.1]

theorem indexed?_eq {text : List Char} (h : size text ≤ Text.maxIndex) :
    indexed? text = .ok ((Expr.indexed? text).filter fun parts => Expr.isPathText parts.1) := by
  have hlength := (Text.length_le_size text).trans h
  rw [indexed?]
  by_cases hlast : text.getLast? = some ']'
  · obtain ⟨front, hfront⟩ := List.getLast?_eq_some_iff.mp hlast
    have hcount : 1 + front.length ≤ Text.maxIndex := by
      rw [hfront, List.length_append, List.length_singleton] at hlength
      omega
    have hindexed : Expr.indexed? text = (Expr.closeBracket? ']' '[' 1 front.reverse).map
        fun parts => (parts.2.reverse, parts.1.reverse) := by
      have hreverse : text.reverse = ']' :: front.reverse := by simp [hfront]
      rw [Expr.indexed?, hreverse]
      rfl
    have hscan := bracket?_reverse hcount
    rw [← hfront] at hscan
    rw [if_pos hlast, hscan, Fault.ok_bind, hindexed]
    cases hclose : Expr.closeBracket? ']' '[' 1 front.reverse with
    | none => rfl
    | some parts =>
      obtain ⟨index, base⟩ := parts
      rw [hclose] at hindexed
      have htext := Expr.eq_append_of_indexed? hindexed
      obtain ⟨hbase, hpred, hindex⟩ := slice_indexing htext
      have hpart := Text.size_le_of_isInfix (Expr.prefix_of_indexed? hindexed).isInfix
      have hpath : isPathText base.reverse = .ok (Expr.isPathText base.reverse) :=
        isPathText_eq ((Text.length_le_size _).trans (hpart.trans h))
      have hadd : Fault.add (size base) 1 = .ok (size base + 1) := by
        apply Fault.add_eq_ok
        rw [htext] at h
        simp only [Text.size_append, Text.size_cons, Text.size_reverse] at h
        have := Char.utf8Size_pos '['
        omega
      rw [Text.size_reverse] at hbase hpred hindex
      simp only [Option.map_some, hbase, hpath, hindex, hpred, hadd, Fault.ok_bind]
      by_cases hbasePath : Expr.isPathText base.reverse <;>
        simp [hbasePath, Option.filter]
  · rw [if_neg hlast, Expr.indexed?_eq_none hlast]
    rfl

/-! ### Rounds of a loop -/

/-- The text in front of the next placeholder of a template, its body and what follows; or all of
the template if there is no placeholder that is closed. -/
def placeholder? (rest : List Char) :
    Except Fault (List Char × Option (List Char × List Char)) := do
  match Text.cut? Expr.opener rest with
  | none => return (rest, none)
  | some (front, _) =>
    let start := size front
    let before ← slice rest 0 start
    let body ← slice rest (← Fault.add start 2) (size rest)
    match ← brace? none 0 (charIndices 0 body) with
    | some stop =>
      let inner ← slice body 0 stop
      let after ← slice body (← Fault.add stop 1) (size body)
      return (before, some (inner, after))
    | none =>
      let tail ← slice rest start (size rest)
      return (before ++ tail, none)

/-- The text in front of the next bracket of a path, what is in the brackets and what follows; or
all of the path if there is no bracket. There is nothing of this if a bracket is not closed. -/
def bracketed? (rest : List Char) :
    Except Fault (Option (List Char × Option (List Char × List Char))) := do
  match Text.cut? ['['] rest with
  | none => return some (rest, none)
  | some (front, _) =>
    let opening := size front
    let before ← slice rest 0 opening
    let tail ← slice rest opening (size rest)
    match ← bracket? '[' ']' 0 (charIndices 0 tail) with
    | none => return none
    | some stop =>
      let close ← Fault.add opening stop
      let inner ← slice rest (← Fault.add opening 1) close
      let after ← slice rest (← Fault.add close 1) (size rest)
      return some (before, some (Text.trim inner, after))

theorem placeholder?_eq {rest : List Char} (h : size rest ≤ Text.maxIndex) :
    placeholder? rest = .ok (match Text.cut? Expr.opener rest with
      | none => (rest, none)
      | some (before, body) =>
        match Expr.closePlaceholder? none 0 body with
        | none => (rest, none)
        | some parts => (before, some parts)) := by
  rw [placeholder?]
  cases hcut : Text.cut? Expr.opener rest with
  | none => rfl
  | some parts =>
    obtain ⟨before, body⟩ := parts
    obtain rfl := Text.eq_append_of_cut? hcut
    have hopener : size Expr.opener = 2 := rfl
    have hsize : size before + 2 + size body ≤ Text.maxIndex := by
      rwa [Text.size_append, Text.size_append, hopener, ← Nat.add_assoc] at h
    have hbody := Text.slice_behind_append before Expr.opener body
    rw [hopener] at hbody
    have hcount := Text.length_le_size body
    have hscan := brace?_charIndices (show body.length ≤ Text.maxIndex by omega)
    simp only [Text.slice_front, Fault.add_eq_ok (show size before + 2 ≤ Text.maxIndex by omega),
      hbody, hscan, Fault.ok_bind]
    cases hclose : Expr.closePlaceholder? none 0 body with
    | none => simp only [Option.map_none, Text.slice_rest, Fault.ok_bind, Fault.pure_eq]
    | some parts =>
      obtain ⟨inner, after⟩ := parts
      obtain ⟨rfl, -⟩ := Expr.passed_of_closePlaceholder? hclose
      have hone : size ['\x7d'] = 1 := rfl
      have hinner : size inner + 1 ≤ Text.maxIndex := by
        rw [Text.size_append, Text.size_cons] at hsize
        have hpos := Char.utf8Size_pos '\x7d'
        omega
      have hafter := Text.slice_behind_append inner ['\x7d'] after
      rw [hone, List.singleton_append] at hafter
      simp only [Option.map_some, Text.slice_front, Fault.ok_bind, Fault.add_eq_ok hinner, hafter,
        Fault.pure_eq]

theorem bracketed?_eq {rest : List Char} (h : size rest ≤ Text.maxIndex) :
    bracketed? rest = .ok (match Text.cut? ['['] rest with
      | none => some (rest, none)
      | some (before, tail) =>
        (Expr.closeBracket? '[' ']' 1 tail).map fun (inner, after) =>
          (before, some (Text.trim inner, after))) := by
  rw [bracketed?]
  cases hcut : Text.cut? ['['] rest with
  | none => rfl
  | some parts =>
    obtain ⟨before, tail⟩ := parts
    obtain rfl := Text.eq_append_of_cut? hcut
    have hone : size ['['] = 1 := rfl
    have hsize : size before + 1 + size tail ≤ Text.maxIndex := by
      rwa [Text.size_append, Text.size_append, hone, ← Nat.add_assoc] at h
    have hcount := Text.length_le_size tail
    have hscan : bracket? '[' ']' 0 (charIndices 0 (['['] ++ tail)) = .ok
        ((Expr.closeBracket? '[' ']' 1 tail).map fun (inner, _) => 1 + size inner) :=
      bracket?_charIndices (show 1 + tail.length ≤ Text.maxIndex by omega)
    simp only [Text.slice_front, Text.slice_rest, hscan, Fault.ok_bind]
    cases hclose : Expr.closeBracket? '[' ']' 1 tail with
    | none => rfl
    | some parts =>
      obtain ⟨inner, after⟩ := parts
      obtain rfl := Expr.eq_append_of_closeBracket? hclose
      have hclosed : size [']'] = 1 := rfl
      have hbound : size before + (1 + size inner) + 1 ≤ Text.maxIndex := by
        rw [Text.size_append, ← List.singleton_append, Text.size_append, hclosed] at hsize
        omega
      have hinner : slice (before ++ (['['] ++ (inner ++ ']' :: after))) (size before + 1)
          (size before + (1 + size inner)) = .ok inner :=
        Text.slice_eq_ok (before ++ ['[']) (']' :: after) (by simp)
          (by rw [Text.size_append, hone]) (by rw [Text.size_append, hone, Nat.add_assoc])
      have hafter : slice (before ++ (['['] ++ (inner ++ ']' :: after)))
          (size before + (1 + size inner) + 1)
          (size (before ++ (['['] ++ (inner ++ ']' :: after)))) = .ok after := by
        refine Text.slice_eq_ok (before ++ (['['] ++ (inner ++ [']']))) [] (by simp) ?_ ?_
        · simp only [Text.size_append, hone, hclosed, Nat.add_assoc]
        · rw [← Text.size_append]
          simp
      simp only [hinner, hafter, Fault.ok_bind,
        Fault.add_eq_ok hbound, Fault.pure_eq, Option.map_some,
        Fault.add_eq_ok (show size before + (1 + size inner) ≤ Text.maxIndex by omega),
        Fault.add_eq_ok (show size before + 1 ≤ Text.maxIndex by omega)]

end Checked

end ScreenDoc
