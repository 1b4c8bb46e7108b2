import ScreenDoc.Proofs.Arithmetic.Formula

/-!
# Reduction of arithmetic

The reduction of a text is the exact evaluation of the expression that the text writes. A text is
reduced to a number if it writes an expression with an operator and without faults. Where the
expression has faults, the first one decides between the two other outcomes.

## Main definitions

- `Arithmetic.operations` — the common form of the two loops over operators
- `Arithmetic.Sound`, `Arithmetic.SoundRest` — what is consumed writes an expression of this value
- `Arithmetic.Whole`, `Arithmetic.Starts` — words that write an expression are consumed

## Main results

- `Arithmetic.sound` — every value that is found is that of an expression
- `Arithmetic.complete` — every expression is read to its outcome
- `Arithmetic.evaluate_exact` — the reduction of a text

## Design notes

Sums and products are read in the same way, with other operators and other parts. What holds of one
loop step is proved once, about `operations`.

The grammar takes the left operand of an operator first, and the loop has its value at hand when it
meets the operator. `Starts` says how far a loop has come after the words of an expression: it still
has to go on with what follows them.
-/

namespace ScreenDoc

namespace Arithmetic

variable (operand : List Char → Reading (Option Int64)) (answers : Path → Option Value)

/-- The integer values at paths, given the answers. -/
def lookup (text : List Char) : Option Int64 :=
  (operand text).value answers

/-! ### The loops -/

theorem value_andThen (step : Reading Step) (next : Int → List Token → Reading Step) :
    (andThen step next).value answers =
      (step.value answers).bind fun found => (next found.1 found.2).value answers := by
  rw [andThen, Reading.value_bind]
  cases step.value answers <;> rfl

/-- One round of a loop over operators: it ends, or it takes an operator with another operand and
goes on. -/
def operations (operator? : Token → Option Operator) (next : List Token → Reading Step)
    (again : Int → List Token → Reading Step) (acc : Int) (tokens : List Token) : Reading Step :=
  match tokens with
  | [] => .done (.ok (acc, []))
  | token :: rest =>
    match operator? token with
    | none => .done (.ok (acc, token :: rest))
    | some op => andThen (next rest) fun rhs rest =>
      andThen (.done (ready (op.apply acc rhs) rest)) again

theorem sumRest_succ (fuel : Nat) :
    sumRest operand (fuel + 1) =
      operations sumOperator? (product operand fuel) (sumRest operand fuel) := by
  funext acc tokens
  cases tokens <;> rfl

theorem productRest_succ (fuel : Nat) :
    productRest operand (fuel + 1) =
      operations productOperator? (factor operand fuel) (productRest operand fuel) := by
  funext acc tokens
  cases tokens <;> rfl

/-- A loop ends before these words. -/
def Closes (operator? : Token → Option Operator) (rest : List Token) : Prop :=
  ∀ token ∈ rest.head?, operator? token = none

variable {operand answers}

theorem exists_of_value_andThen {step : Reading Step} {next : Int → List Token → Reading Step}
    {found : Int × List Token} (h : (andThen step next).value answers = .ok found) :
    ∃ n rest, step.value answers = .ok (n, rest) ∧ (next n rest).value answers = .ok found := by
  rw [value_andThen] at h
  cases hstep : step.value answers with
  | error stop =>
    rw [hstep] at h
    cases h
  | ok first =>
    rw [hstep] at h
    exact ⟨first.1, first.2, rfl, h⟩

theorem value_ready_eq_ok_iff {result : Except Stop Int} {rest after : List Token} {n : Int} :
    (Reading.done (ready result rest)).value answers = .ok (n, after) ↔
      result = .ok n ∧ after = rest := by
  cases result with
  | error stop => simp [ready, Reading.value, Except.map]
  | ok m => simp [ready, Reading.value, Except.map, eq_comm]

theorem operations_of_closes {operator? : Token → Option Operator}
    {next : List Token → Reading Step} {again : Int → List Token → Reading Step} {acc : Int}
    {rest : List Token} (h : Closes operator? rest) :
    operations operator? next again acc rest = .done (.ok (acc, rest)) := by
  cases rest with
  | nil => rfl
  | cons token rest => rw [operations, h token rfl]

theorem value_operations_cons {operator? : Token → Option Operator}
    {next : List Token → Reading Step} {again : Int → List Token → Reading Step} {acc : Int}
    {token : Token} {rest : List Token} {op : Operator} (h : operator? token = some op) :
    (operations operator? next again acc (token :: rest)).value answers =
      ((next rest).value answers).bind fun found =>
        (op.apply acc found.1).bind fun n => (again n found.2).value answers := by
  rw [operations, h]
  simp only [value_andThen, ready, Reading.value]
  congr 1
  funext found
  cases op.apply acc found.1 <;> rfl

/-! ### What is consumed -/

variable (operand answers)

/-- A reader that finds a value has consumed words that write an expression of this value. -/
def Sound (rank : Rank) (read : List Token → Reading Step) : Prop :=
  ∀ tokens n rest, (read tokens).value answers = .ok (n, rest) →
    ∃ (a : Formula) (words : List Token), tokens = words ++ rest ∧ a.Renders rank words ∧
      a.outcome (lookup operand answers) = .ok n

/-- A loop that starts with the value of an expression and ends with another value has consumed
words that continue the expression to one of the other value. -/
def SoundRest (rank : Rank) (read : Int → List Token → Reading Step) : Prop :=
  ∀ (a : Formula) before acc, a.Renders rank before →
    a.outcome (lookup operand answers) = .ok acc →
    ∀ tokens n rest, (read acc tokens).value answers = .ok (n, rest) →
      ∃ (b : Formula) (words : List Token), tokens = words ++ rest ∧
        b.Renders rank (before ++ words) ∧ b.outcome (lookup operand answers) = .ok n

variable {operand answers}

theorem Sound.stop {rank : Rank} :
    Sound operand answers rank fun _ => .done (.error .invalid) := by
  intro tokens n rest h
  cases h

theorem SoundRest.stop {rank : Rank} :
    SoundRest operand answers rank fun _ _ => .done (.error .invalid) := by
  intro a before acc hbefore hacc tokens n rest h
  cases h

theorem Sound.andThen {rank tighter : Rank} {read : List Token → Reading Step}
    {readRest : Int → List Token → Reading Step} (hread : Sound operand answers tighter read)
    (hlift : ∀ {a words}, Formula.Renders tighter a words → Formula.Renders rank a words)
    (hrest : SoundRest operand answers rank readRest) :
    Sound operand answers rank fun tokens => andThen (read tokens) readRest := by
  intro tokens n rest h
  obtain ⟨m, after, hfirst, hsecond⟩ := exists_of_value_andThen h
  obtain ⟨a, words, htokens, hwords, ha⟩ := hread tokens m after hfirst
  obtain ⟨b, more, hafter, hmore, hb⟩ := hrest a words m (hlift hwords) ha _ _ _ hsecond
  exact ⟨b, words ++ more, by rw [htokens, hafter, List.append_assoc], hmore, hb⟩

theorem SoundRest.operations {rank tighter : Rank} {operator? : Token → Option Operator}
    {next : List Token → Reading Step} {again : Int → List Token → Reading Step}
    (hnext : Sound operand answers tighter next)
    (hagain : SoundRest operand answers rank again)
    (hbinary : ∀ {op token a b left right}, operator? token = some op →
      Formula.Renders rank a left → Formula.Renders tighter b right →
        Formula.Renders rank (.binary op a b) (left ++ token :: right)) :
    SoundRest operand answers rank (operations operator? next again) := by
  intro a before acc hbefore hacc tokens n rest h
  cases tokens with
  | nil =>
    cases h
    exact ⟨a, [], rfl, by rwa [List.append_nil], hacc⟩
  | cons token tokens =>
    cases hop : operator? token with
    | none =>
      rw [operations_of_closes (by simp [Closes, hop])] at h
      cases h
      exact ⟨a, [], rfl, by rwa [List.append_nil], hacc⟩
    | some op =>
      -- What is known of the loop applies to the expression that ends with the right operand.
      simp only [Arithmetic.operations, hop] at h
      obtain ⟨k, after, hoperand, h⟩ := exists_of_value_andThen h
      obtain ⟨m, after', hready, hmore⟩ := exists_of_value_andThen h
      obtain ⟨happly, rfl⟩ := value_ready_eq_ok_iff.mp hready
      obtain ⟨b, right, htokens, hright, hb⟩ := hnext _ _ _ hoperand
      have hm : (Formula.binary op a b).outcome (lookup operand answers) = .ok m := by
        rw [Formula.outcome_binary, hacc, hb]
        exact happly
      obtain ⟨c, words, hrest, hwords, hc⟩ :=
        hagain _ _ _ (hbinary hop hbefore hright) hm _ _ _ hmore
      refine ⟨c, token :: (right ++ words), by rw [htokens, hrest]; simp, ?_, hc⟩
      simpa using hwords

theorem eq_sign_of_sumOperator? {token : Token} {op : Operator}
    (h : sumOperator? token = some op) : token = op.sign ∧ op.rank = .sum := by
  cases token <;> cases h <;> exact ⟨rfl, rfl⟩

theorem eq_sign_of_productOperator? {token : Token} {op : Operator}
    (h : productOperator? token = some op) : token = op.sign ∧ op.rank = .product := by
  cases token <;> cases h <;> exact ⟨rfl, rfl⟩

theorem Sound.factor {fuel : Nat} (hfactor : Sound operand answers .factor (factor operand fuel))
    (hsum : Sound operand answers .sum (sum operand fuel)) :
    Sound operand answers .factor (Arithmetic.factor operand (fuel + 1)) := by
  intro tokens n rest h
  unfold Arithmetic.factor at h
  split at h
  · next tokens =>
    obtain ⟨k, after, hoperand, h⟩ := exists_of_value_andThen h
    obtain ⟨hneg, rfl⟩ := value_ready_eq_ok_iff.mp h
    obtain ⟨a, words, htokens, hwords, ha⟩ := hfactor _ _ _ hoperand
    refine ⟨.neg a, .minus :: words, by rw [htokens]; rfl, .neg hwords, ?_⟩
    rw [Formula.outcome_neg, ha]
    exact hneg
  · next digits tokens =>
    obtain ⟨hchecked, rfl⟩ := value_ready_eq_ok_iff.mp h
    exact ⟨.literal digits, [.integer digits], rfl, .literal digits,
      by rw [Formula.outcome_literal, hchecked]⟩
  · next text tokens =>
    rw [Reading.value_bind] at h
    cases hfound : (operand text).value answers with
    | none => rw [hfound] at h; cases h
    | some m =>
      rw [hfound] at h
      cases h
      refine ⟨.path text, [.path text], rfl, .path text, ?_⟩
      rw [Formula.outcome_path, lookup, hfound]
  · next tokens =>
    obtain ⟨k, after, hinside, h⟩ := exists_of_value_andThen h
    obtain ⟨a, words, htokens, hwords, ha⟩ := hsum _ _ _ hinside
    split at h
    · next after =>
      cases h
      exact ⟨a, .parenOpen :: (words ++ [.parenClose]), by rw [htokens]; simp,
        .parentheses hwords, ha⟩
    · cases h
  · cases h

/-- Every reader is sound, whatever its fuel. -/
theorem sound (fuel : Nat) :
    Sound operand answers .sum (sum operand fuel) ∧
      SoundRest operand answers .sum (sumRest operand fuel) ∧
      Sound operand answers .product (product operand fuel) ∧
      SoundRest operand answers .product (productRest operand fuel) ∧
      Sound operand answers .factor (factor operand fuel) := by
  -- The readers call each other with less fuel, so that one induction shows all of this at once.
  induction fuel with
  | zero => exact ⟨.stop, .stop, .stop, .stop, .stop⟩
  | succ fuel ih =>
    obtain ⟨hsum, hsumRest, hproduct, hproductRest, hfactor⟩ := ih
    refine ⟨hproduct.andThen .ofProduct hsumRest, ?_, hfactor.andThen .ofFactor hproductRest, ?_,
      hfactor.factor hsum⟩
    · rw [sumRest_succ]
      refine .operations hproduct hsumRest fun hop ha hb => ?_
      obtain ⟨rfl, hrank⟩ := eq_sign_of_sumOperator? hop
      exact .sum hrank ha hb
    · rw [productRest_succ]
      refine .operations hfactor hproductRest fun hop ha hb => ?_
      obtain ⟨rfl, hrank⟩ := eq_sign_of_productOperator? hop
      exact .product hrank ha hb

/-! ### What is read -/

variable (operand answers)

/-- A reader with enough fuel reads the words of an expression to the outcome of the expression, and
leaves what follows. -/
def Whole (extra : Nat) (ends : List Token → Prop) (read : Nat → List Token → Reading Step)
    (a : Formula) (words : List Token) : Prop :=
  ∀ fuel rest, ends rest → 4 * (words ++ rest).length + extra ≤ fuel →
    (read fuel (words ++ rest)).value answers =
      (a.outcome (lookup operand answers)).map fun n => (n, rest)

/-- A reader with enough fuel reads the words of an expression to the outcome of the expression, and
goes on with its loop, for which there is enough fuel left. -/
def Starts (extra : Nat) (ends : List Token → Prop) (read : Nat → List Token → Reading Step)
    (readRest : Nat → Int → List Token → Reading Step) (a : Formula) (words : List Token) : Prop :=
  ∀ fuel rest, ends rest → 4 * (words ++ rest).length + extra ≤ fuel →
    ∃ left, 4 * rest.length + 1 ≤ left ∧
      (read fuel (words ++ rest)).value answers =
        (a.outcome (lookup operand answers)).bind fun n => (readRest left n rest).value answers

variable {operand answers}

section Loop

variable {extra : Nat} {ends : List Token → Prop} {operator? : Token → Option Operator}
  {read next : Nat → List Token → Reading Step}
  {readRest : Nat → Int → List Token → Reading Step} {a b : Formula} {words left right : List Token}

/-- A reader reads its first operand and starts its loop. -/
theorem Whole.starts
    (hread : ∀ fuel tokens, read (fuel + 1) tokens = andThen (next fuel tokens) (readRest fuel))
    (ha : Whole operand answers (extra + 1) ends next a words) :
    Starts operand answers (extra + 2) ends read readRest a words := by
  intro fuel rest hends hfuel
  obtain ⟨fuel, rfl⟩ : ∃ k, fuel = k + 1 := ⟨fuel - 1, by omega⟩
  refine ⟨fuel, by rw [List.length_append] at hfuel; omega, ?_⟩
  rw [hread, value_andThen, ha fuel rest hends (by omega)]
  cases a.outcome (lookup operand answers) <;> rfl

/-- A loop that has come to an operator takes it with its right operand. -/
theorem Starts.binary {op : Operator} {after : List Token → Prop}
    (hloop : ∀ fuel, readRest (fuel + 1) = operations operator? (next fuel) (readRest fuel))
    (hop : operator? op.sign = some op) (hsign : ∀ rest, ends (op.sign :: rest))
    (hafter : ∀ {rest}, ends rest → after rest) (hextra : extra ≤ 3)
    (ha : Starts operand answers (extra + 2) ends read readRest a left)
    (hb : Whole operand answers (extra + 1) after next b right) :
    Starts operand answers (extra + 2) ends read readRest (.binary op a b)
      (left ++ op.sign :: right) := by
  intro fuel rest hends hfuel
  rw [List.append_assoc, List.cons_append] at hfuel ⊢
  obtain ⟨fuel', hfuel', hread⟩ := ha fuel (op.sign :: (right ++ rest)) (hsign _) hfuel
  obtain ⟨fuel', rfl⟩ : ∃ k, fuel' = k + 1 := ⟨fuel' - 1, by omega⟩
  rw [List.length_cons] at hfuel'
  refine ⟨fuel', by rw [List.length_append] at hfuel'; omega, ?_⟩
  rw [hread, Formula.outcome_binary]
  cases a.outcome (lookup operand answers) with
  | error stop => rfl
  | ok m =>
    simp only [Except.bind]
    rw [hloop, value_operations_cons hop, hb fuel' rest (hafter hends) (by omega)]
    cases b.outcome (lookup operand answers) with
    | error stop => rfl
    | ok n => rfl

/-- A loop ends where no operator of its own follows. -/
theorem Starts.whole {closes : List Token → Prop}
    (hloop : ∀ fuel, readRest (fuel + 1) = operations operator? (next fuel) (readRest fuel))
    (hcloses : ∀ {rest}, closes rest → ends rest ∧ Closes operator? rest)
    (ha : Starts operand answers extra ends read readRest a words) :
    Whole operand answers extra closes read a words := by
  intro fuel rest hrest hfuel
  have hends := hcloses hrest
  obtain ⟨fuel', hfuel', hread⟩ := ha fuel rest hends.1 hfuel
  obtain ⟨fuel', rfl⟩ : ∃ k, fuel' = k + 1 := ⟨fuel' - 1, by omega⟩
  rw [hread]
  cases a.outcome (lookup operand answers) with
  | error stop => rfl
  | ok n =>
    simp only [Except.bind]
    rw [hloop, operations_of_closes hends.2]
    rfl

end Loop

theorem closes_nil {operator? : Token → Option Operator} : Closes operator? [] := by
  intro first hfirst
  cases hfirst

theorem closes_cons {operator? : Token → Option Operator} {token : Token} {rest : List Token}
    (h : operator? token = none) : Closes operator? (token :: rest) := by
  intro first hfirst
  cases hfirst
  exact h

theorem sumOperator?_sign {op : Operator} (h : op.rank = .sum) :
    sumOperator? op.sign = some op ∧ productOperator? op.sign = none := by
  cases op <;> first | exact ⟨rfl, rfl⟩ | cases h

theorem productOperator?_sign {op : Operator} (h : op.rank = .product) :
    productOperator? op.sign = some op := by
  cases op <;> first | rfl | cases h

variable (operand answers)

/-- A factor is read on its own, a product up to where its loop is, and a sum as well, where no
operator follows that would continue its last product. -/
def Reads (rank : Rank) (a : Formula) (words : List Token) : Prop :=
  match rank with
  | .factor => Whole operand answers 1 (fun _ => True) (factor operand) a words
  | .product =>
    Starts operand answers 2 (fun _ => True) (product operand) (productRest operand) a words
  | .sum =>
    Starts operand answers 3 (Closes productOperator?) (sum operand) (sumRest operand) a words

variable {operand answers}

theorem Reads.whole_product {a : Formula} {words : List Token}
    (h : Reads operand answers .product a words) :
    Whole operand answers 2 (Closes productOperator?) (product operand) a words :=
  Starts.whole (productRest_succ operand) (fun hcloses => ⟨trivial, hcloses⟩) h

theorem Reads.whole_sum {a : Formula} {words : List Token}
    (h : Reads operand answers .sum a words) :
    Whole operand answers 3 (fun rest => Closes productOperator? rest ∧ Closes sumOperator? rest)
      (sum operand) a words :=
  Starts.whole (sumRest_succ operand) id h

theorem Reads.literal (digits : List Char) :
    Reads operand answers .factor (.literal digits) [.integer digits] := by
  intro fuel rest _ hfuel
  obtain ⟨fuel, rfl⟩ : ∃ k, fuel = k + 1 := ⟨fuel - 1, by omega⟩
  rw [Formula.outcome_literal]
  rfl

theorem Reads.path (text : List Char) :
    Reads operand answers .factor (.path text) [.path text] := by
  intro fuel rest _ hfuel
  obtain ⟨fuel, rfl⟩ : ∃ k, fuel = k + 1 := ⟨fuel - 1, by omega⟩
  rw [Formula.outcome_path, List.singleton_append, factor, Reading.value_bind, lookup]
  cases (operand text).value answers <;> rfl

theorem Reads.neg {a : Formula} {words : List Token} (ha : Reads operand answers .factor a words) :
    Reads operand answers .factor (.neg a) (.minus :: words) := by
  intro fuel rest hrest hfuel
  obtain ⟨fuel, rfl⟩ : ∃ k, fuel = k + 1 := ⟨fuel - 1, by omega⟩
  rw [List.cons_append, List.length_cons] at hfuel
  rw [Formula.outcome_neg, List.cons_append, factor, value_andThen,
    ha fuel rest hrest (by omega)]
  cases a.outcome (lookup operand answers) <;> rfl

theorem Reads.parentheses {a : Formula} {words : List Token}
    (ha : Reads operand answers .sum a words) :
    Reads operand answers .factor a (.parenOpen :: (words ++ [.parenClose])) := by
  intro fuel rest _ hfuel
  obtain ⟨fuel, rfl⟩ : ∃ k, fuel = k + 1 := ⟨fuel - 1, by omega⟩
  rw [List.cons_append, List.append_assoc, List.singleton_append, List.length_cons] at hfuel
  rw [List.cons_append, List.append_assoc, List.singleton_append, factor, value_andThen,
    ha.whole_sum fuel (.parenClose :: rest) ⟨closes_cons rfl, closes_cons rfl⟩ (by omega)]
  cases a.outcome (lookup operand answers) <;> rfl

/-- Words that write an expression are read to the outcome of the expression. -/
theorem complete {rank : Rank} {a : Formula} {words : List Token} (h : a.Renders rank words) :
    Reads operand answers rank a words := by
  induction h with
  | literal digits => exact .literal digits
  | path text => exact .path text
  | neg _ ih => exact ih.neg
  | parentheses _ ih => exact ih.parentheses
  | ofFactor _ ih => exact Whole.starts (fun _ _ => rfl) ih
  | product hop _ _ iha ihb =>
    -- The left operand has brought the loop of products to this operator.
    exact Starts.binary (productRest_succ operand) (productOperator?_sign hop) (fun _ => trivial)
      id (by decide) iha ihb
  | ofProduct _ ih => exact Whole.starts (fun _ _ => rfl) ih.whole_product
  | sum hop _ _ iha ihb =>
    -- The sign of a sum ends the product before it, so that the right operand is a whole product.
    exact Starts.binary (sumRest_succ operand) (sumOperator?_sign hop).1
      (fun _ => closes_cons (sumOperator?_sign hop).2) id (by decide) iha ihb.whole_product

/-! ### Texts -/

/-- The outcome of the reduction of an expression. -/
def outcomeOf : Except Stop Int → Outcome
  | .ok n => .value (Int64.ofInt n)
  | .error .divisionByZero => .divisionByZero
  | .error .invalid => .notArithmetic

theorem value_evaluateTokens {a : Formula} {words : List Token} (h : a.Renders .sum words) :
    (evaluateTokens operand words).value answers =
      outcomeOf (a.outcome (lookup operand answers)) := by
  have hreads : Reads operand answers .sum a words := complete h
  have hsum := hreads.whole_sum (4 * words.length + 4) [] ⟨closes_nil, closes_nil⟩ (by simp)
  rw [List.append_nil] at hsum
  rw [evaluateTokens, Reading.value_bind, hsum]
  cases a.outcome (lookup operand answers) with
  | ok n => rfl
  | error stop => cases stop <;> rfl

/-- A text that writes an expression with an operator is reduced to the outcome of the
expression. -/
theorem value_evaluate {a : Formula} {text : List Char} (h : a.WrittenAs text)
    (hoperator : a.hasOperator) :
    (evaluate operand text).value answers = outcomeOf (a.outcome (lookup operand answers)) := by
  obtain ⟨words, hwords, hspells⟩ := h
  rw [evaluate, Token.scan?_of_spells hspells hwords.apart]
  simp only [hwords.any_isOperator, hoperator]
  exact value_evaluateTokens hwords

/-- A text that is reduced to a number writes an expression with an operator that has this value. -/
theorem exists_writtenAs {text : List Char} {n : Int64}
    (h : (evaluate operand text).value answers = .value n) :
    ∃ a : Formula, a.WrittenAs text ∧ a.hasOperator ∧
      ∃ m, a.outcome (lookup operand answers) = .ok m ∧ n = Int64.ofInt m := by
  rw [evaluate] at h
  cases hscan : Token.scan? text with
  | none => rw [hscan] at h; cases h
  | some words =>
    simp only [hscan] at h
    split at h
    · next hoperator =>
      rw [evaluateTokens, Reading.value_bind] at h
      cases hsum : (sum operand (4 * words.length + 4) words).value answers with
      | error stop => rw [hsum] at h; cases stop <;> cases h
      | ok found =>
        obtain ⟨m, rest⟩ := found
        cases rest with
        | cons token rest => rw [hsum] at h; cases h
        | nil =>
          rw [hsum] at h
          cases h
          obtain ⟨a, used, hused, hrenders, hout⟩ := (sound _).1 _ _ _ hsum
          rw [List.append_nil] at hused
          subst hused
          exact ⟨a, ⟨words, hrenders, Token.spells_of_scan? hscan⟩,
            by rw [← hrenders.any_isOperator, hoperator], m, hout, rfl⟩
    · cases h

/-- The reduction of a text is exact. It gives a number if the text writes an expression with an
operator whose value, over all integers, is this number, and which has no fault. If the first fault
of such an expression is a zero divisor, then so is the reduction; after any other first fault the
text counts as no arithmetic. -/
theorem evaluate_exact (operand : List Char → Reading (Option Int64))
    (answers : Path → Option Value) (text : List Char) :
    (∀ n : Int64, (evaluate operand text).value answers = .value n ↔
      ∃ a : Formula, a.WrittenAs text ∧ a.hasOperator ∧
        a.faults (lookup operand answers) = [] ∧ a.value (lookup operand answers) = n.toInt) ∧
    ∀ a : Formula, a.WrittenAs text → a.hasOperator →
      ∀ fault later, a.faults (lookup operand answers) = fault :: later →
        (evaluate operand text).value answers =
          if fault = .zeroDivisor then .divisionByZero else .notArithmetic := by
  refine ⟨fun n => ⟨fun h => ?_, ?_⟩, fun a hwritten hoperator fault later hfaults => ?_⟩
  · obtain ⟨a, hwritten, hoperator, m, hout, rfl⟩ := exists_writtenAs h
    obtain ⟨hfaults, rfl⟩ := Formula.outcome_eq_ok_iff.mp hout
    have hrange := Formula.inRange_value hfaults
    exact ⟨a, hwritten, hoperator, hfaults, (Int64.toInt_ofInt_of_le hrange.1 hrange.2).symm⟩
  · rintro ⟨a, hwritten, hoperator, hfaults, hvalue⟩
    rw [value_evaluate hwritten hoperator, Formula.outcome_eq_ok_iff.mpr ⟨hfaults, hvalue⟩,
      outcomeOf, Int64.ofInt_toInt]
  · rw [value_evaluate hwritten hoperator, Formula.outcome, hfaults]
    cases fault <;> rfl

theorem evaluate_exact_of_four :
    ∃ product quotient : Formula,
      product.WrittenAs "-n * 2".toList ∧ quotient.WrittenAs "6 / (n -\tn)".toList ∧
      (evaluate (fun _ => .done (some 4)) "-n * 2".toList).value (fun _ => none) = .value (-8) ∧
      (evaluate (fun _ => .done (some 4)) "6 / (n -\tn)".toList).value (fun _ => none) =
        .divisionByZero := by
  have hproduct : Token.scan? "-n * 2".toList =
      some [.minus, .path ['n'], .star, .integer ['2']] := by decide +kernel
  have hquotient : Token.scan? "6 / (n -\tn)".toList =
      some [.integer ['6'], .slash, .parenOpen, .path ['n'], .minus, .path ['n'], .parenClose] := by
    decide +kernel
  have hfirst : (Formula.binary .mul (.neg (.path ['n'])) (.literal ['2'])).WrittenAs
      "-n * 2".toList :=
    ⟨_, .ofProduct (.product rfl (.ofFactor (.neg (.path _))) (.literal _)),
      Token.spells_of_scan? hproduct⟩
  have hsecond : (Formula.binary .div (.literal ['6'])
      (.binary .sub (.path ['n']) (.path ['n']))).WrittenAs "6 / (n -\tn)".toList :=
    ⟨_, .ofProduct (.product rfl (.ofFactor (.literal _)) (.parentheses
      (.sum rfl (.ofProduct (.ofFactor (.path _))) (.ofFactor (.path _))))),
      Token.spells_of_scan? hquotient⟩
  exact ⟨_, _, hfirst, hsecond,
    ((evaluate_exact _ _ _).1 (-8)).mpr ⟨_, hfirst, rfl, by decide, by decide⟩,
    (evaluate_exact _ _ _).2 _ hsecond rfl .zeroDivisor [] (by decide)⟩

end Arithmetic

end ScreenDoc
