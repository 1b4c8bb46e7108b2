/-!
# Tokens of arithmetic

The words of integer arithmetic: digits, paths, the five operators and parentheses.

## Main definitions

- `Token` — a word
- `Token.scan?` — the words of a text, if it consists of words and blanks

## Design notes

At each place the longest word is taken. A path is an identifier followed by any number of steps:
a dot and letters or digits, or square brackets around anything but a closing bracket.
-/

namespace ScreenDoc

/-- A word of arithmetic. -/
inductive Token where
  | integer (digits : List Char)
  | path (text : List Char)
  | plus
  | minus
  | star
  | slash
  | percent
  | parenOpen
  | parenClose
deriving DecidableEq, Repr

namespace Token

/-- Whether a word is an operator. -/
def isOperator : Token → Bool
  | .plus | .minus | .star | .slash | .percent => true
  | _ => false

/-- The text of a word. -/
def text : Token → List Char
  | .integer digits => digits
  | .path text => text
  | .plus => ['+']
  | .minus => ['-']
  | .star => ['*']
  | .slash => ['/']
  | .percent => ['%']
  | .parenOpen => ['(']
  | .parenClose => [')']

/-- The blanks between words. -/
def isSpace (c : Char) : Bool :=
  c = ' ' || c = '\t' || c = '\n' || c = '\r'

/-- The characters that an identifier starts with. -/
def isNameStart (c : Char) : Bool :=
  c.isAlpha || c = '_'

/-- The characters inside of an identifier. -/
def isNameChar (c : Char) : Bool :=
  c.isAlphanum || c = '_'

/-- One step of a path, and the text after it. -/
def pathStep? : List Char → Option (List Char × List Char)
  | '.' :: rest =>
    let name := rest.takeWhile isNameChar
    if name.isEmpty then none else some ('.' :: name, rest.dropWhile isNameChar)
  | '[' :: rest =>
    match rest.dropWhile (· ≠ ']') with
    | [] => none
    | _ :: after => some ('[' :: rest.takeWhile (· ≠ ']') ++ [']'], after)
  | _ => none

theorem length_lt_of_pathStep? {text step rest : List Char}
    (h : pathStep? text = some (step, rest)) : rest.length < text.length := by
  unfold pathStep? at h
  split at h
  · next tail =>
    simp only at h
    split at h
    · cases h
    · simp only [Option.some.injEq, Prod.mk.injEq] at h
      obtain ⟨-, rfl⟩ := h
      exact Nat.lt_succ_of_le (List.dropWhile_sublist _).length_le
  · next tail =>
    split at h
    · cases h
    · next c after hdrop =>
      simp only [Option.some.injEq, Prod.mk.injEq] at h
      obtain ⟨-, rfl⟩ := h
      have hle := (List.dropWhile_sublist (· ≠ ']') (l := tail)).length_le
      rw [hdrop, List.length_cons] at hle
      rw [List.length_cons]
      omega
  · cases h

/-- As many steps of a path as follow, and the text after them. -/
def pathSteps (text : List Char) : List Char × List Char :=
  match _h : pathStep? text with
  | some (step, rest) =>
    let (steps, after) := pathSteps rest
    (step ++ steps, after)
  | none => ([], text)
termination_by text.length
decreasing_by exact length_lt_of_pathStep? _h

theorem pathSteps_length_le (text : List Char) : (pathSteps text).2.length ≤ text.length := by
  fun_induction pathSteps text with
  | case1 text step rest h steps after heq ih =>
    have := length_lt_of_pathStep? h
    simp_all only
    omega
  | case2 text h => simp

/-- The word of a single character. -/
def single? (c : Char) : Option Token :=
  if c = '+' then some .plus
  else if c = '-' then some .minus
  else if c = '*' then some .star
  else if c = '/' then some .slash
  else if c = '%' then some .percent
  else if c = '(' then some .parenOpen
  else if c = ')' then some .parenClose
  else none

/-- The longest word at the start of a text, and the text after it. -/
def next? : List Char → Option (Token × List Char)
  | [] => none
  | c :: rest =>
    if c.isDigit then
      some (.integer (c :: rest.takeWhile Char.isDigit), rest.dropWhile Char.isDigit)
    else if isNameStart c then
      let (steps, after) := pathSteps (rest.dropWhile isNameChar)
      some (.path (c :: rest.takeWhile isNameChar ++ steps), after)
    else (single? c).map fun token => (token, rest)

theorem length_lt_of_next? {text rest : List Char} {token : Token}
    (h : next? text = some (token, rest)) : rest.length < text.length := by
  unfold next? at h
  split at h
  · cases h
  · next c tail =>
    split at h
    · simp only [Option.some.injEq, Prod.mk.injEq] at h
      obtain ⟨-, rfl⟩ := h
      exact Nat.lt_succ_of_le (List.dropWhile_sublist _).length_le
    · split at h
      · simp only [Option.some.injEq, Prod.mk.injEq] at h
        obtain ⟨-, rfl⟩ := h
        have hsteps := pathSteps_length_le (tail.dropWhile isNameChar)
        have hle := (List.dropWhile_sublist isNameChar (l := tail)).length_le
        rw [List.length_cons]
        omega
      · rw [Option.map_eq_some_iff] at h
        obtain ⟨t, -, ht⟩ := h
        simp only [Prod.mk.injEq] at ht
        obtain ⟨-, rfl⟩ := ht
        exact Nat.lt_succ_self _

/-- The words of a text. There are none if any part of it is neither a word nor blank. -/
def scan? (text : List Char) : Option (List Token) :=
  match _h : next? (text.dropWhile isSpace) with
  | some (token, rest) => (scan? rest).map (token :: ·)
  | none => if (text.dropWhile isSpace).isEmpty then some [] else none
termination_by text.length
decreasing_by
  have hlt := length_lt_of_next? _h
  have hle := (List.dropWhile_sublist isSpace (l := text)).length_le
  omega

end Token

end ScreenDoc
