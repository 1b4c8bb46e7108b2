import ScreenDoc.Arithmetic.Token
import ScreenDoc.Store.Reading
import ScreenDoc.Text.Integer

/-!
# Integer arithmetic

Expressions of integers of 64 bits, paths, unary minus, `+ - * / %` and parentheses.

## Main definitions

- `Arithmetic.Outcome` — what a text amounts to as arithmetic
- `Arithmetic.evaluate` — the reduction of a text, given the values of path operands

## Design notes

Parentheses and unary minus bind tightest, then `* / %`, then `+ -`, and operators of one rank group
to the left. The words are consumed and the value is computed in one pass from the left, so that an
operand is asked for exactly if nothing before it failed. Every literal, negation and intermediate
result has to fit into 64 bits; quotients are truncated, and a remainder has the sign of the
dividend.
-/

namespace ScreenDoc

namespace Arithmetic

/-- What a text amounts to as arithmetic. -/
inductive Outcome where
  | value (n : Int64)
  /-- A zero divisor was met before any other failure. -/
  | divisionByZero
  /-- The text is no arithmetic, or a number does not fit, or an operand has no integer value. -/
  | notArithmetic
deriving DecidableEq, Repr

/-- Why the evaluation of arithmetic stops. -/
inductive Stop where
  | divisionByZero
  | invalid
deriving DecidableEq, Repr

/-- The binary operators. -/
inductive Operator where
  | add
  | sub
  | mul
  | div
  | mod
deriving DecidableEq, Repr

/-- A sum operator. -/
def sumOperator? : Token → Option Operator
  | .plus => some .add
  | .minus => some .sub
  | _ => none

/-- A product operator. -/
def productOperator? : Token → Option Operator
  | .star => some .mul
  | .slash => some .div
  | .percent => some .mod
  | _ => none

/-- A result that fits into 64 bits. -/
def checked (n : Int) : Except Stop Int :=
  if Text.fitsInt64 n then .ok n else .error .invalid

/-- The value of an operation. The remainder of the least integer by minus one does not count as
fitting, because its quotient does not fit. -/
def Operator.apply : Operator → Int → Int → Except Stop Int
  | .add, a, b => checked (a + b)
  | .sub, a, b => checked (a - b)
  | .mul, a, b => checked (a * b)
  | .div, a, b => if b = 0 then .error .divisionByZero else checked (a.tdiv b)
  | .mod, a, b =>
    if b = 0 then .error .divisionByZero
    else do
      let _ ← checked (a.tdiv b)
      checked (a.tmod b)

/-- A value and the words after it, or a failure. -/
abbrev Step := Except Stop (Int × List Token)

/-- Continues with a value and the words after it. -/
def andThen (step : Reading Step) (next : Int → List Token → Reading Step) : Reading Step :=
  step.bind fun
    | .ok (n, rest) => next n rest
    | .error failure => .done (.error failure)

/-- A value that is ready. -/
def ready (result : Except Stop Int) (rest : List Token) : Step :=
  result.map fun n => (n, rest)

variable (operand : List Char → Reading (Option Int64))

mutual

/-- Sums and differences of products. -/
def sum : Nat → List Token → Reading Step
  | 0, _ => .done (.error .invalid)
  | fuel + 1, tokens => andThen (product fuel tokens) (sumRest fuel)

/-- The operations that follow a first summand. -/
def sumRest : Nat → Int → List Token → Reading Step
  | 0, _, _ => .done (.error .invalid)
  | fuel + 1, acc, tokens =>
    match tokens with
    | [] => .done (.ok (acc, []))
    | token :: rest =>
      match sumOperator? token with
      | none => .done (.ok (acc, token :: rest))
      | some op => andThen (product fuel rest) fun rhs rest =>
        andThen (.done (ready (op.apply acc rhs) rest)) (sumRest fuel)

/-- Products, quotients and remainders of factors. -/
def product : Nat → List Token → Reading Step
  | 0, _ => .done (.error .invalid)
  | fuel + 1, tokens => andThen (factor fuel tokens) (productRest fuel)

/-- The operations that follow a first factor. -/
def productRest : Nat → Int → List Token → Reading Step
  | 0, _, _ => .done (.error .invalid)
  | fuel + 1, acc, tokens =>
    match tokens with
    | [] => .done (.ok (acc, []))
    | token :: rest =>
      match productOperator? token with
      | none => .done (.ok (acc, token :: rest))
      | some op => andThen (factor fuel rest) fun rhs rest =>
        andThen (.done (ready (op.apply acc rhs) rest)) (productRest fuel)

/-- A factor: a literal, a path, a negation or a sum in parentheses. -/
def factor : Nat → List Token → Reading Step
  | 0, _ => .done (.error .invalid)
  | fuel + 1, tokens =>
    match tokens with
    | .minus :: rest => andThen (factor fuel rest) fun n rest => .done (ready (checked (-n)) rest)
    | .integer digits :: rest => .done (ready (checked (Text.digitsValue digits)) rest)
    | .path text :: rest => (operand text).bind fun
      | some n => .done (.ok (n.toInt, rest))
      | none => .done (.error .invalid)
    | .parenOpen :: rest => andThen (sum fuel rest) fun n rest =>
      match rest with
      | .parenClose :: rest => .done (.ok (n, rest))
      | _ => .done (.error .invalid)
    | _ => .done (.error .invalid)

end

/-- The reduction of a list of words. Between two words that are consumed there are at most four
nested calls, so that the number of words bounds their depth. -/
def evaluateTokens (tokens : List Token) : Reading Outcome :=
  (sum operand (4 * tokens.length + 4) tokens).bind fun
    | .ok (n, []) => .done (.value (Int64.ofInt n))
    | .ok (_, _ :: _) => .done .notArithmetic
    | .error .invalid => .done .notArithmetic
    | .error .divisionByZero => .done .divisionByZero

/-- The reduction of a text. A text without any operator is no arithmetic, so that a path or literal
alone is left to the caller. -/
def evaluate (text : List Char) : Reading Outcome :=
  match Token.scan? text with
  | none => .done .notArithmetic
  | some tokens =>
    if tokens.any Token.isOperator then evaluateTokens operand tokens else .done .notArithmetic

end Arithmetic

end ScreenDoc
