import ScreenDoc.Text.Blank
import ScreenDoc.Text.Split

/-!
# The shape of expressions

Where an expression has its operators: outside of quotes, placeholders, parentheses and brackets.

## Main definitions

- `Expr.topLevel` — the characters outside of quotes and placeholders, with their positions
- `Expr.ternary?` — condition and branches of `cond ? a : b`
- `Expr.closePlaceholder?` — the body of a placeholder and the text after it
- `Expr.closeBracket?` — the text up to the matching bracket and the text after it
- `Expr.isPathText`, `Expr.unquoted?`, `Expr.withoutParens?` — the forms of whole expressions
-/

namespace ScreenDoc

namespace Expr

/-- The two characters that open a placeholder. -/
def opener : List Char := ['$', '\x7b']

/-- Whether a character is a quotation mark. -/
def isQuote (c : Char) : Bool :=
  c = '"' || c = '\x27'

/-- The characters outside of quotes and placeholders with their positions, given the open
quotation mark, the number of open braces and the position of the first character. -/
def topLevelFrom : Option Char → Nat → Nat → List Char → List (Nat × Char)
  | _, _, _, [] => []
  | some q, braces, i, c :: rest =>
    topLevelFrom (if c = q then none else some q) braces (i + 1) rest
  | none, braces, i, '$' :: '\x7b' :: rest => topLevelFrom none (braces + 1) (i + 2) rest
  | none, braces, i, c :: rest =>
    if isQuote c then topLevelFrom (some c) braces (i + 1) rest
    else if braces = 0 then (i, c) :: topLevelFrom none 0 (i + 1) rest
    else if c = '\x7b' then topLevelFrom none (braces + 1) (i + 1) rest
    else if c = '\x7d' then topLevelFrom none (braces - 1) (i + 1) rest
    else topLevelFrom none braces (i + 1) rest

/-- The characters of a text outside of quotes and placeholders, with their positions. -/
def topLevel (text : List Char) : List (Nat × Char) :=
  topLevelFrom none 0 0 text

/-- The characters outside of parentheses, given the number of open ones. -/
def outsideParens : Nat → List (Nat × Char) → List (Nat × Char)
  | _, [] => []
  | parens, (i, c) :: rest =>
    if c = '(' then outsideParens (parens + 1) rest
    else if c = ')' then outsideParens (parens - 1) rest
    else if parens = 0 then (i, c) :: outsideParens parens rest
    else outsideParens parens rest

/-- The position of the colon that belongs to a question mark in front, given the number of further
question marks that are open. -/
def colon? : Nat → List (Nat × Char) → Option Nat
  | _, [] => none
  | depth, (i, c) :: rest =>
    if c = '?' then colon? (depth + 1) rest
    else if c = ':' then if depth = 0 then some i else colon? (depth - 1) rest
    else colon? depth rest

/-- The parts of `cond ? a : b`, split at its own operators. -/
def ternary? (text : List Char) : Option (List Char × List Char × List Char) :=
  match (outsideParens 0 (topLevel text)).dropWhile (·.2 ≠ '?') with
  | [] => none
  | (q, _) :: rest => do
    let colon ← colon? 0 rest
    let condition := Text.trim (text.take q)
    if condition.isEmpty then none
    else
      some (condition, Text.trim ((text.drop (q + 1)).take (colon - (q + 1))),
        Text.trim (text.drop (colon + 1)))

/-- The body of a placeholder up to its closing brace and the text after it, given the open
quotation mark and the number of open braces inside. -/
def closePlaceholder? : Option Char → Nat → List Char → Option (List Char × List Char)
  | _, _, [] => none
  | some q, depth, c :: rest =>
    (closePlaceholder? (if c = q then none else some q) depth rest).map fun (body, after) =>
      (c :: body, after)
  | none, depth, c :: rest =>
    if c = '\x7d' && depth = 0 then some ([], rest)
    else
      let quote := if isQuote c then some c else none
      let depth :=
        if c = '\x7b' then depth + 1 else if c = '\x7d' then depth - 1 else depth
      (closePlaceholder? quote depth rest).map fun (body, after) => (c :: body, after)

/-- The text up to the bracket that closes, and the text after it, given the number of brackets that
are open. -/
def closeBracket? (opening closing : Char) : Nat → List Char → Option (List Char × List Char)
  | _, [] => none
  | depth, c :: rest =>
    if c = closing && depth ≤ 1 then some ([], rest)
    else
      let depth := if c = opening then depth + 1 else if c = closing then depth - 1 else depth
      (closeBracket? opening closing depth rest).map fun (body, after) => (c :: body, after)

/-- The base and the index of an expression that ends in a bracketed index. -/
def indexed? (text : List Char) : Option (List Char × List Char) :=
  match text.reverse with
  | ']' :: rest =>
    (closeBracket? ']' '[' 1 rest).map fun (index, base) => (base.reverse, index.reverse)
  | _ => none

/-- Whether the rest of a path is in order, given the number of open brackets. -/
def isPathTail : Nat → List Char → Bool
  | brackets, [] => brackets = 0
  | brackets, c :: rest =>
    if c = '[' then isPathTail (brackets + 1) rest
    else if c = ']' then brackets > 0 && isPathTail (brackets - 1) rest
    else if brackets > 0 then isPathTail brackets rest
    else (c.isAlphanum || c = '_' || c = '.') && isPathTail 0 rest

/-- Whether an expression is an identifier with dots, names and brackets after it. -/
def isPathText : List Char → Bool
  | [] => false
  | c :: rest => (c.isAlpha || c = '_') && isPathTail 0 rest

/-- The inside of a quoted literal. -/
def unquoted? : List Char → Option (List Char)
  | [] => none
  | q :: rest =>
    if isQuote q && rest.getLast? = some q && !(rest.dropLast.contains q) then some rest.dropLast
    else none

/-- Whether the parentheses of a text match, given the number of open ones. -/
def isBalanced : Nat → List Char → Bool
  | depth, [] => depth = 0
  | depth, c :: rest =>
    if c = '(' then isBalanced (depth + 1) rest
    else if c = ')' then depth > 0 && isBalanced (depth - 1) rest
    else isBalanced depth rest

/-- The inside of parentheses that enclose all of an expression. -/
def withoutParens? : List Char → Option (List Char)
  | '(' :: rest =>
    if rest.getLast? = some ')' && isBalanced 0 rest.dropLast then some rest.dropLast else none
  | _ => none

theorem length_lt_of_closePlaceholder? {quote : Option Char} {depth : Nat}
    {text body after : List Char} (h : closePlaceholder? quote depth text = some (body, after)) :
    body.length + after.length + 1 = text.length := by
  induction text generalizing quote depth body with
  | nil => cases quote <;> cases h
  | cons c rest ih =>
    cases quote with
    | some q =>
      rw [closePlaceholder?, Option.map_eq_some_iff] at h
      obtain ⟨⟨b, a⟩, hb, heq⟩ := h
      simp only [Prod.mk.injEq] at heq
      obtain ⟨rfl, rfl⟩ := heq
      have := ih hb
      simp only [List.length_cons]
      omega
    | none =>
      rw [closePlaceholder?] at h
      split at h
      · simp only [Option.some.injEq, Prod.mk.injEq] at h
        obtain ⟨rfl, rfl⟩ := h
        simp
      · rw [Option.map_eq_some_iff] at h
        obtain ⟨⟨b, a⟩, hb, heq⟩ := h
        simp only [Prod.mk.injEq] at heq
        obtain ⟨rfl, rfl⟩ := heq
        have := ih hb
        simp only [List.length_cons]
        omega

theorem length_lt_of_closeBracket? {opening closing : Char} {depth : Nat}
    {text body after : List Char}
    (h : closeBracket? opening closing depth text = some (body, after)) :
    body.length + after.length + 1 = text.length := by
  induction text generalizing depth body with
  | nil => cases h
  | cons c rest ih =>
    rw [closeBracket?] at h
    split at h
    · simp only [Option.some.injEq, Prod.mk.injEq] at h
      obtain ⟨rfl, rfl⟩ := h
      simp
    · rw [Option.map_eq_some_iff] at h
      obtain ⟨⟨b, a⟩, hb, heq⟩ := h
      simp only [Prod.mk.injEq] at heq
      obtain ⟨rfl, rfl⟩ := heq
      have := ih hb
      simp only [List.length_cons]
      omega

theorem length_lt_of_withoutParens? {text inner : List Char}
    (h : withoutParens? text = some inner) : inner.length < text.length := by
  unfold withoutParens? at h
  split at h
  · split at h
    · simp only [Option.some.injEq] at h
      subst h
      rw [List.length_dropLast, List.length_cons]
      omega
    · cases h
  · cases h

end Expr

end ScreenDoc
