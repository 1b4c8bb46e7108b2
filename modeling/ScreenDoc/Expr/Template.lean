import ScreenDoc.Expr.Scan

/-!
# Templates

A template is text with placeholders. It is taken apart from the left, placeholder by placeholder.

## Main definitions

- `Template.Piece` — text, or the body of a placeholder
- `Template.pieces` — the pieces of a template
- `PathText.Piece`, `PathText.pieces` — the same for a path with bracketed expressions
-/

namespace ScreenDoc

/-- A piece of a template. -/
inductive Template.Piece where
  | text (chars : List Char)
  | placeholder (body : List Char)
deriving DecidableEq, Repr

/-- The pieces of a template. What follows an opener that is never closed is text. -/
def Template.pieces (template : List Char) : List Template.Piece :=
  match _hcut : Text.cut? Expr.opener template with
  | none => [.text template]
  | some (before, rest) =>
    match _hclose : Expr.closePlaceholder? none 0 rest with
    | none => [.text template]
    | some (body, after) => .text before :: .placeholder body :: Template.pieces after
termination_by template.length
decreasing_by
  have h1 := Text.cut?_length _hcut
  have h2 := Expr.length_lt_of_closePlaceholder? _hclose
  omega

/-- A piece of the text of a path. -/
inductive PathText.Piece where
  | text (chars : List Char)
  | bracket (index : List Char)
  /-- A bracket that is never closed. -/
  | unclosed
deriving DecidableEq, Repr

/-- The pieces of the text of a path. -/
def PathText.pieces (path : List Char) : List PathText.Piece :=
  match _hcut : Text.cut? ['['] path with
  | none => [.text path]
  | some (before, rest) =>
    match _hclose : Expr.closeBracket? '[' ']' 1 rest with
    | none => [.text before, .unclosed]
    | some (index, after) => .text before :: .bracket index :: PathText.pieces after
termination_by path.length
decreasing_by
  have h1 := Text.cut?_length _hcut
  have h2 := Expr.length_lt_of_closeBracket? _hclose
  omega

end ScreenDoc
