import Mathlib.Algebra.Group.Int.Defs
import ScreenDoc.Arithmetic.Basic
import ScreenDoc.Proofs.Arithmetic.Words

/-!
# Formulas

The expressions of integer arithmetic as trees, how a list of words writes a tree, and what a tree
amounts to over all integers. Neither the grammar nor the value says how a text is read.

## Main definitions

- `Formula` — an expression
- `Formula.Renders` — a list of words that writes an expression, by ranks of operators
- `Formula.WrittenAs` — a text that writes an expression
- `Formula.value`, `Formula.faults` — the exact value of an expression, and all that goes wrong on
  the way to it, from left to right
- `Formula.outcome` — the value, or what the first fault amounts to

## Main results

- `Formula.outcome_neg`, `Formula.outcome_binary` — the outcome of an expression from those of its
  parts

## Design notes

The value is total: a path without a value counts as zero, and so does a quotient by zero. Where
that happens there is a fault, and only the first fault of an expression matters. Everything before
the first fault has the value that it should have.
-/

namespace ScreenDoc

namespace Arithmetic

/-- An expression. -/
inductive Formula where
  /-- Digits. -/
  | literal (digits : List Char)
  /-- A path, which stands for the value at it. -/
  | path (text : List Char)
  /-- Unary minus. -/
  | neg (a : Formula)
  /-- A binary operator. -/
  | binary (op : Operator) (a b : Formula)

/-- How tight a part of an expression is bound. -/
inductive Rank where
  /-- Literals, paths, unary minus and parentheses. -/
  | factor
  /-- Factors with `* / %` between them. -/
  | product
  /-- Products with `+ -` between them. -/
  | sum
deriving DecidableEq

namespace Operator

/-- The word of an operator. -/
def sign : Operator → Token
  | add => .plus
  | sub => .minus
  | mul => .star
  | div => .slash
  | mod => .percent

/-- The rank of an operator. -/
def rank : Operator → Rank
  | add | sub => .sum
  | mul | div | mod => .product

/-- The result of an operator over all integers. Quotients are truncated, and a remainder has the
sign of the dividend. -/
def exact : Operator → Int → Int → Int
  | add, a, b => a + b
  | sub, a, b => a - b
  | mul, a, b => a * b
  | div, a, b => a.tdiv b
  | mod, a, b => a.tmod b

theorem isOperator_sign (op : Operator) : op.sign.isOperator = true := by
  cases op <;> rfl

theorem isOperand_sign (op : Operator) : op.sign.isOperand = false := by
  cases op <;> rfl

end Operator

/-! ### Faults -/

/-- What goes wrong in an expression. -/
inductive Fault where
  /-- A number is no integer of 64 bits. -/
  | outOfRange (n : Int)
  /-- A path has no integer value. -/
  | missing (path : List Char)
  /-- A divisor is zero. -/
  | zeroDivisor
  /-- The least integer is divided by minus one, for the quotient or for the remainder. -/
  | leastByMinusOne
deriving DecidableEq

/-- Whether an integer is one of 64 bits. -/
def InRange (n : Int) : Prop :=
  -2 ^ 63 ≤ n ∧ n < 2 ^ 63

instance (n : Int) : Decidable (InRange n) :=
  inferInstanceAs (Decidable (_ ∧ _))

/-- The fault of a number that is no integer of 64 bits. -/
def rangeFaults (n : Int) : List Fault :=
  if InRange n then [] else [.outOfRange n]

/-- The fault of an operation. -/
def Operator.faults (op : Operator) (a b : Int) : List Fault :=
  match op with
  | .div | .mod =>
    if b = 0 then [.zeroDivisor]
    else if a = -2 ^ 63 ∧ b = -1 then [.leastByMinusOne]
    else rangeFaults (op.exact a b)
  | _ => rangeFaults (op.exact a b)

/-- What a fault amounts to. -/
def Fault.stop : Fault → Stop
  | zeroDivisor => .divisionByZero
  | _ => .invalid

/-- A number, unless there are faults. The first of them counts. -/
def result (faults : List Fault) (n : Int) : Except Stop Int :=
  match faults with
  | [] => .ok n
  | fault :: _ => .error fault.stop

theorem result_eq_ok_iff {faults : List Fault} {n m : Int} :
    result faults n = .ok m ↔ faults = [] ∧ n = m := by
  cases faults <;> simp [result]

/-- Later faults count only where there are no earlier ones. -/
theorem result_append (earlier later : List Fault) (m n : Int) :
    result (earlier ++ later) n = (result earlier m).bind fun _ => result later n := by
  cases earlier <;> rfl

namespace Formula

/-! ### The grammar -/

/-- Whether there is an operator in an expression. -/
def hasOperator : Formula → Bool
  | literal _ | path _ => false
  | neg _ | binary _ _ _ => true

/-- A list of words writes an expression, as a part of some rank. An operator takes a part of its
own rank on the left and a tighter one on the right, so that operators of one rank group to the
left. -/
inductive Renders : Rank → Formula → List Token → Prop where
  | literal (digits : List Char) : Renders .factor (.literal digits) [.integer digits]
  | path (text : List Char) : Renders .factor (.path text) [.path text]
  | neg {a : Formula} {words : List Token} (ha : Renders .factor a words) :
      Renders .factor (.neg a) (.minus :: words)
  | parentheses {a : Formula} {words : List Token} (ha : Renders .sum a words) :
      Renders .factor a (.parenOpen :: (words ++ [.parenClose]))
  | ofFactor {a : Formula} {words : List Token} (ha : Renders .factor a words) :
      Renders .product a words
  | product {op : Operator} {a b : Formula} {left right : List Token} (hop : op.rank = .product)
      (ha : Renders .product a left) (hb : Renders .factor b right) :
      Renders .product (.binary op a b) (left ++ op.sign :: right)
  | ofProduct {a : Formula} {words : List Token} (ha : Renders .product a words) :
      Renders .sum a words
  | sum {op : Operator} {a b : Formula} {left right : List Token} (hop : op.rank = .sum)
      (ha : Renders .sum a left) (hb : Renders .product b right) :
      Renders .sum (.binary op a b) (left ++ op.sign :: right)

/-- A text that writes an expression, with blanks around any of its words. -/
def WrittenAs (a : Formula) (text : List Char) : Prop :=
  ∃ words, Renders .sum a words ∧ Token.Spells text words

/-- A word that is no operand separates what stands left and right of it. -/
theorem apart_append_cons {left right : List Token} {token : Token}
    (hleft : Token.Apart left) (htoken : token.isOperand = false) (hright : Token.Apart right) :
    Token.Apart (left ++ token :: right) := by
  refine List.IsChain.append hleft (hright.cons fun next hnext => ?_)
    fun last hlast next hnext => ?_
  · simp [htoken]
  · cases hnext
    simp [htoken]

/-- Words that write an expression have no two operands next to each other. -/
theorem Renders.apart {rank : Rank} {a : Formula} {words : List Token}
    (h : Renders rank a words) : Token.Apart words := by
  induction h with
  | literal => exact .singleton _
  | path => exact .singleton _
  | neg _ ih => exact apart_append_cons .nil rfl ih
  | parentheses _ ih => exact apart_append_cons .nil rfl (apart_append_cons ih rfl .nil)
  | ofFactor _ ih => exact ih
  | product _ _ _ iha ihb => exact apart_append_cons iha (Operator.isOperand_sign _) ihb
  | ofProduct _ ih => exact ih
  | sum _ _ _ iha ihb => exact apart_append_cons iha (Operator.isOperand_sign _) ihb

/-- There is an operator among the words of an expression if there is one in the expression. -/
theorem Renders.any_isOperator {rank : Rank} {a : Formula} {words : List Token}
    (h : Renders rank a words) : words.any Token.isOperator = a.hasOperator := by
  induction h with
  | literal => rfl
  | path => rfl
  | neg => rfl
  | parentheses _ ih => simp [Token.isOperator, ← ih]
  | ofFactor _ ih => exact ih
  | product => simp [Operator.isOperator_sign, hasOperator]
  | ofProduct _ ih => exact ih
  | sum => simp [Operator.isOperator_sign, hasOperator]

/-! ### The value -/

section Value

variable (lookup : List Char → Option Int64)

/-- The value of an expression over all integers, given the values at paths. -/
def value : Formula → Int
  | literal digits => Text.digitsValue digits
  | path text => ((lookup text).map Int64.toInt).getD 0
  | neg a => -a.value
  | binary op a b => op.exact a.value b.value

/-- The faults of an expression, in the order of evaluation from left to right. -/
def faults : Formula → List Fault
  | literal digits => rangeFaults (Text.digitsValue digits)
  | path text => if (lookup text).isSome then [] else [.missing text]
  | neg a => a.faults ++ rangeFaults (-a.value lookup)
  | binary op a b => a.faults ++ (b.faults ++ op.faults (a.value lookup) (b.value lookup))

/-- The value of an expression, or what its first fault amounts to. -/
def outcome (a : Formula) : Except Stop Int :=
  result (a.faults lookup) (a.value lookup)

end Value

end Formula

/-! ### Ranges -/

theorem fitsInt64_eq (n : Int) : Text.fitsInt64 n = decide (InRange n) := by
  rw [Text.fitsInt64, ← Bool.decide_and, decide_eq_decide, InRange, Text.minInt64, Text.maxInt64]
  omega

theorem checked_eq (n : Int) : checked n = result (rangeFaults n) n := by
  rw [checked, fitsInt64_eq, rangeFaults]
  by_cases h : InRange n <;> simp [h, result, Fault.stop]

theorem inRange_of_rangeFaults {n : Int} (h : rangeFaults n = []) : InRange n := by
  by_contra hn
  rw [rangeFaults, if_neg hn] at h
  cases h

theorem inRange_toInt (n : Int64) : InRange n.toInt :=
  ⟨n.le_toInt, n.toInt_lt⟩

/-- The quotient of two integers of 64 bits is one too, but for that of the least integer by minus
one. -/
theorem inRange_tdiv_iff {a b : Int} (ha : InRange a) (hb : b ≠ 0) :
    InRange (a.tdiv b) ↔ ¬(a = -2 ^ 63 ∧ b = -1) := by
  simp only [InRange] at ha ⊢
  rcases (by omega : b = 1 ∨ b = -1 ∨ 2 ≤ b.natAbs) with rfl | rfl | htwo
  · rw [Int.tdiv_one]
    omega
  · rw [Int.tdiv_neg, Int.tdiv_one]
    omega
  · have hle : (a.tdiv b).natAbs ≤ a.natAbs / 2 := by
      rw [Int.natAbs_tdiv]
      exact Nat.div_le_div_left htwo (by decide)
    omega

/-- An operation on integers of 64 bits amounts to its exact result, or to its fault. -/
theorem Operator.apply_eq (op : Operator) {a b : Int} (ha : InRange a) :
    op.apply a b = result (op.faults a b) (op.exact a b) := by
  cases op with
  | add => exact checked_eq _
  | sub => exact checked_eq _
  | mul => exact checked_eq _
  | div =>
    simp only [apply, Operator.faults, exact]
    split_ifs with hzero hleast
    · rfl
    · rw [checked_eq, rangeFaults, if_neg (by rw [inRange_tdiv_iff ha hzero]; simpa using hleast)]
      rfl
    · exact checked_eq _
  | mod =>
    simp only [apply, Operator.faults, exact]
    split_ifs with hzero hleast
    · rfl
    · rw [checked_eq, rangeFaults, if_neg (by rw [inRange_tdiv_iff ha hzero]; simpa using hleast)]
      rfl
    · rw [checked_eq, rangeFaults, if_pos ((inRange_tdiv_iff ha hzero).mpr hleast)]
      exact checked_eq _

theorem Operator.inRange_exact (op : Operator) {a b : Int} (h : op.faults a b = []) :
    InRange (op.exact a b) := by
  cases op with
  | add => exact inRange_of_rangeFaults h
  | sub => exact inRange_of_rangeFaults h
  | mul => exact inRange_of_rangeFaults h
  | div =>
    simp only [Operator.faults] at h
    split_ifs at h
    exact inRange_of_rangeFaults h
  | mod =>
    simp only [Operator.faults] at h
    split_ifs at h
    exact inRange_of_rangeFaults h

namespace Formula

variable {lookup : List Char → Option Int64}

/-- The value of an expression without faults is an integer of 64 bits. -/
theorem inRange_value {a : Formula} (h : a.faults lookup = []) : InRange (a.value lookup) := by
  cases a with
  | literal digits => exact inRange_of_rangeFaults h
  | path text =>
    simp only [faults] at h
    split_ifs at h with hfound
    obtain ⟨n, hn⟩ := Option.isSome_iff_exists.mp hfound
    simp only [value, hn]
    exact inRange_toInt n
  | neg a => exact inRange_of_rangeFaults (List.append_eq_nil_iff.mp h).2
  | binary op a b =>
    exact op.inRange_exact (List.append_eq_nil_iff.mp (List.append_eq_nil_iff.mp h).2).2

theorem outcome_eq_ok_iff {a : Formula} {n : Int} :
    a.outcome lookup = .ok n ↔ a.faults lookup = [] ∧ a.value lookup = n :=
  result_eq_ok_iff

theorem outcome_literal (digits : List Char) :
    (literal digits).outcome lookup = checked (Text.digitsValue digits) :=
  (checked_eq _).symm

theorem outcome_path (text : List Char) :
    (path text).outcome lookup =
      match lookup text with
      | some n => .ok n.toInt
      | none => .error .invalid := by
  rw [outcome, faults, value]
  cases lookup text <;> rfl

theorem outcome_neg (a : Formula) :
    (neg a).outcome lookup = (a.outcome lookup).bind fun n => checked (-n) := by
  rw [outcome, faults, value, result_append _ _ (a.value lookup), outcome]
  cases h : result (a.faults lookup) (a.value lookup) with
  | error stop => rfl
  | ok n =>
    obtain ⟨-, rfl⟩ := result_eq_ok_iff.mp h
    exact (checked_eq _).symm

theorem outcome_binary (op : Operator) (a b : Formula) :
    (binary op a b).outcome lookup =
      (a.outcome lookup).bind fun m => (b.outcome lookup).bind fun n => op.apply m n := by
  rw [outcome, faults, value, result_append _ _ (a.value lookup),
    result_append (b.faults lookup) _ (b.value lookup), outcome, outcome]
  cases ha : result (a.faults lookup) (a.value lookup) with
  | error stop => rfl
  | ok m =>
    obtain ⟨hfaults, rfl⟩ := result_eq_ok_iff.mp ha
    cases hb : result (b.faults lookup) (b.value lookup) with
    | error stop => rfl
    | ok n =>
      obtain ⟨-, rfl⟩ := result_eq_ok_iff.mp hb
      exact (op.apply_eq (inRange_value hfaults)).symm

end Formula

end Arithmetic

end ScreenDoc
