import ScreenDoc.Arithmetic.Basic
import ScreenDoc.Decimal.Reader
import ScreenDoc.Expr.Template
import ScreenDoc.Store.Scope

/-!
# Evaluation of expressions

Expressions are tried as a ternary, a quoted literal, an array helper or an indexing, a template,
arithmetic, a literal and a path, in this order, and the first form that applies gives the value.
Evaluation never fails: what has no value stands for its own text or for null.

## Main definitions

- `Expr.value?` — the value of an expression; none for a path that leads nowhere
- `Expr.eval` — the value of an expression, or its text
- `Expr.fill` — a template with its placeholders replaced by values
- `Expr.holds` — the truth of an expression

## Design notes

Each form is a function of the evaluation of shorter texts, `sub` below, and `Expr.step` puts them
together. `Expr.value?` is its fixed point: a recursion on the length of the text, in which only
shorter texts are evaluated.
-/

namespace ScreenDoc

namespace Expr

/-- The evaluation of texts. There is no value for a path that leads nowhere. -/
abbrev Evaluation := List Char → Reading (Option Value)

section Forms

variable (scope : Scope) (sub : Evaluation)

/-- The value of a text, or the text itself. -/
def evalWith (text : List Char) : Reading Value :=
  (sub text).bind fun value => .done (value.getD (.string (String.ofList (Text.trim text))))

/-- A template with the text of a value in the place of each placeholder. -/
def fillPieces : List Template.Piece → Reading (List Char)
  | [] => .done []
  | .text chars :: rest => (fillPieces rest).bind fun text => .done (chars ++ text)
  | .placeholder body :: rest => (sub body).bind fun value =>
    (fillPieces rest).bind fun text =>
      .done ((value.getD .null).text.toList ++ text)

/-- A template with its placeholders replaced. -/
def fillWith (template : List Char) : Reading (List Char) :=
  fillPieces sub (Template.pieces template)

/-- The truth of a value: the boolean or the text `true`. -/
def isTrue : Value → Bool
  | .bool b => b
  | .string s => s = "true"
  | _ => false

/-- The truth of an expression. An exclamation mark in front negates all that follows. -/
def holdsWith (text : List Char) : Reading Bool :=
  match _h : Text.trim text with
  | [] => .done false
  | '!' :: rest => (holdsWith rest).bind fun b => .done !b
  | trimmed =>
    if trimmed = "true".toList then .done true
    else if trimmed = "false".toList then .done false
    else
      match _hinner : withoutParens? trimmed with
      | some inner => holdsWith inner
      | none => (evalWith sub trimmed).bind fun value => .done (isTrue value)
termination_by text.length
decreasing_by
  all_goals
    have hle := Text.trim_length_le text
  · rw [_h, List.length_cons] at hle
    omega
  · have hlt := length_lt_of_withoutParens? _hinner
    rw [_h] at hle
    omega

/-- The value of an index expression as a position. -/
def position? (value : Value) : Option Nat :=
  match value.int? with
  | some n => if 0 ≤ n.toInt then some n.toInt.toNat else none
  | none => none

/-- Writes an index in front of the rest of the text of a path, if there is one. -/
def withIndex (i : Nat) (rest : Reading (Option (List Char))) : Reading (Option (List Char)) :=
  rest.bind fun text => .done (text.map fun text => '[' :: (toString i).toList ++ ']' :: text)

/-- The text of a path with the values of its bracketed expressions in their places. There is none
if a bracket is not closed or its expression has no value as a position. -/
def normalizePieces : List PathText.Piece → Reading (Option (List Char))
  | [] => .done (some [])
  | .text chars :: rest => (normalizePieces rest).bind fun text => .done (text.map (chars ++ ·))
  | .unclosed :: _ => .done none
  | .bracket index :: rest =>
    match Text.index? (Text.trim index) with
    | some i => withIndex i (normalizePieces rest)
    | none => (evalWith sub (Text.trim index)).bind fun value =>
      match position? value with
      | some i => withIndex i (normalizePieces rest)
      | none => .done none

/-- The value at a path with expressions in its brackets. -/
def readPathText (path : List Char) : Reading (Option Value) :=
  (normalizePieces sub (PathText.pieces path)).bind fun
    | some text => scope.read text
    | none => .done none

/-- The properties of arrays that are written like a key. -/
inductive Helper where
  | count
  | isEmpty
  | first
  | last
deriving DecidableEq, Repr

/-- How a helper is written. -/
def Helper.ending : Helper → List Char
  | .count => ".count".toList
  | .isEmpty => ".isEmpty".toList
  | .first => ".first".toList
  | .last => ".last".toList

/-- The value of a helper. An absent array counts as empty; there is no value for a base of another
kind, which may have a field of that name. -/
def Helper.apply : Helper → Option Value → Option Value
  | .count, some (.array items) => some (Value.ofNat items.length)
  | .count, some (.string s) => some (Value.ofNat s.length)
  | .count, none => some (.int 0)
  | .count, some .null => some (.int 0)
  | .isEmpty, some (.array items) => some (.bool items.isEmpty)
  | .isEmpty, some (.string s) => some (.bool (s = ""))
  | .isEmpty, none => some (.bool true)
  | .isEmpty, some .null => some (.bool true)
  | .first, some (.array items) => some (items.head?.getD .null)
  | .last, some (.array items) => some (items.getLast?.getD .null)
  | .first, none => some .null
  | .first, some .null => some .null
  | .last, none => some .null
  | .last, some .null => some .null
  | _, _ => none

/-- The helper that an expression ends in, and its base. -/
def helper? (text : List Char) : Option (Helper × List Char) :=
  [Helper.count, .isEmpty, .first, .last].findSome? fun helper =>
    match Text.withoutEnd? helper.ending text with
    | some base => if isPathText base then some (helper, base) else none
    | none => none

/-- Base and argument of `base.contains(argument)`. -/
def contains? (text : List Char) : Option (List Char × List Char) := do
  let (base, argument) ← Text.cut? ".contains(".toList (← Text.withoutEnd? [')'] text)
  if isPathText base then some (base, argument) else none

/-- Whether a base contains a value: an array as an item, a text as part of it. -/
def containsValue : Option Value → Value → Option Value
  | some (.array items), needle => some (.bool (items.any (· == needle)))
  | some (.string s), needle => some (.bool (Text.includes needle.text.toList s.toList))
  | none, _ => some (.bool false)
  | some .null, _ => some (.bool false)
  | some _, _ => none

/-- The item of a base at a position, null where there is none. -/
def itemAt : Option Value → Option Nat → Option Value
  | some (.array items), i => some ((i.bind fun i => items[i]?).getD .null)
  | none, _ => some .null
  | some .null, _ => some .null
  | some _, _ => none

/-- The value of an array helper or an indexing. -/
def arrayForm (text : List Char) : Reading (Option Value) :=
  match contains? text with
  | some (base, argument) => (evalWith sub argument).bind fun needle =>
    (readPathText scope sub base).bind fun value => .done (containsValue value needle)
  | none =>
    match helper? text with
    | some (helper, base) =>
      (readPathText scope sub base).bind fun value => .done (helper.apply value)
    | none =>
      match indexed? text with
      | some (base, index) =>
        if isPathText base then
          (evalWith sub index).bind fun i =>
            (readPathText scope sub base).bind fun value => .done (itemAt value (position? i))
        else .done none
      | none => .done none

/-- A literal: a word, an integer or a decimal. -/
def literal? (text : List Char) : Option Value :=
  if text = "true".toList then some (.bool true)
  else if text = "false".toList then some (.bool false)
  else if text = "null".toList then some .null
  else
    match Text.int64? text with
    | some n => some (.int n)
    | none =>
      if text.all (fun c => c.isDigit || c = '.' || c = '-') && text.contains '.' then
        (Decimal.float? text).map .double
      else none

/-- The value of a trimmed expression that is neither a ternary, nor quoted, nor an array form. -/
def plainForm (text : List Char) : Reading (Option Value) :=
  if Text.includes opener text then
    (fillWith sub text).bind fun s => .done (some (.string (String.ofList s)))
  else
    (Arithmetic.evaluate
      (fun operand => (evalWith sub operand).bind fun value => .done value.int?) text).bind fun
      | .value n => .done (some (.int n))
      | .divisionByZero => .done (some (.string (String.ofList text)))
      | .notArithmetic =>
        match literal? text with
        | some value => .done (some value)
        | none => readPathText scope sub text

/-- The value of an expression, given the values of shorter ones. -/
def step (text : List Char) : Reading (Option Value) :=
  let text := Text.trim text
  if text.isEmpty then .done (some .null)
  else
    match withoutParens? text with
    | some inner => sub inner
    | none =>
      match ternary? text with
      | some (condition, whenTrue, whenFalse) =>
        (holdsWith sub condition).bind fun b => sub (if b then whenTrue else whenFalse)
      | none =>
        match unquoted? text with
        | some inner =>
          if Text.includes opener inner then
            (fillWith sub inner).bind fun s => .done (some (.string (String.ofList s)))
          else .done (some (.string (String.ofList inner)))
        | none => (arrayForm scope sub text).bind fun
          | some value => .done (some value)
          | none => plainForm scope sub text

end Forms

/-- The value of an expression. All texts that it depends on are shorter. -/
def value? (scope : Scope) (text : List Char) : Reading (Option Value) :=
  step scope (fun shorter =>
    if _h : shorter.length < text.length then value? scope shorter else .done none) text
termination_by text.length
decreasing_by exact _h

/-- The value of an expression; a path that leads nowhere stands for its own text. -/
def eval (scope : Scope) (text : List Char) : Reading Value :=
  evalWith (value? scope) text

/-- A template with its placeholders replaced by the texts of their values. -/
def fill (scope : Scope) (template : List Char) : Reading (List Char) :=
  fillWith (value? scope) template

/-- The truth of an expression. -/
def holds (scope : Scope) (text : List Char) : Reading Bool :=
  holdsWith (value? scope) text

end Expr

end ScreenDoc
