import ScreenDoc.Proofs.Arithmetic.Reduction
import ScreenDoc.Proofs.Expr.Forms
import ScreenDoc.Proofs.Expr.Indexing
import ScreenDoc.Proofs.Expr.PathWord
import ScreenDoc.Proofs.Expr.Placeholder

/-!
# Paths as operands

A path with an integer value is an operand of arithmetic if it is a word of arithmetic, and if the
text with the operator in it is neither a ternary nor a template because the path is one.

## Main definitions

- `Arithmetic.IsLiteral` — how an integer is written
- `Arithmetic.operation` — two operands with an operator between them
- `Arithmetic.WithLiteral` — the operations on a path and a literal, with their results

## Main results

- `Arithmetic.value_evaluate_operation` — the reduction of an operation
- `Expr.eval_withLiteral` — the value of an operation on a path and a literal
-/

namespace ScreenDoc

/-! ### Operations -/

namespace Arithmetic

open Token (IsWord Spells isSpace)

/-- How an integer is written: digits, with a minus sign in front of them or not. The digits alone
are an integer of 64 bits as well. -/
inductive IsLiteral : List Char → Int → Prop where
  | unsigned {digits : List Char} (hne : digits ≠ []) (hdigits : ∀ c ∈ digits, c.isDigit)
      (hrange : InRange (Text.digitsValue digits)) : IsLiteral digits (Text.digitsValue digits)
  | signed {digits : List Char} (hne : digits ≠ []) (hdigits : ∀ c ∈ digits, c.isDigit)
      (hrange : InRange (Text.digitsValue digits)) :
      IsLiteral ('-' :: digits) (-(Text.digitsValue digits))

/-- Two operands with an operator and blanks between them. -/
def operation (left before : List Char) (op : Operator) (after right : List Char) : List Char :=
  left ++ (before ++ (op.sign.text ++ (after ++ right)))

/-- The operations on a path and a literal, in this order or the other one, with their results for
the value at the path. -/
inductive WithLiteral (op : Operator) (p : List Char) (n : Int) : List Char → Int → Prop where
  | behind {before after literal : List Char} {k : Int} (hbefore : ∀ c ∈ before, isSpace c)
      (hafter : ∀ c ∈ after, isSpace c) (hliteral : IsLiteral literal k) :
      WithLiteral op p n (operation p before op after literal) (op.exact n k)
  | inFront {before after literal : List Char} {k : Int} (hbefore : ∀ c ∈ before, isSpace c)
      (hafter : ∀ c ∈ after, isSpace c) (hliteral : IsLiteral literal k) :
      WithLiteral op p n (operation literal before op after p) (op.exact k n)

theorem checked_of_inRange {n : Int} (h : InRange n) : checked n = .ok n := by
  rw [checked_eq, rangeFaults, if_pos h]
  rfl

theorem Operator.apply_of_inRange {op : Operator} (hdiv : op ≠ .div) (hmod : op ≠ .mod) {a b : Int}
    (h : InRange (op.exact a b)) : op.apply a b = .ok (op.exact a b) := by
  cases op with
  | add => exact checked_of_inRange h
  | sub => exact checked_of_inRange h
  | mul => exact checked_of_inRange h
  | div => exact absurd rfl hdiv
  | mod => exact absurd rfl hmod

theorem Formula.Renders.binary (op : Operator) {a b : Formula} {left right : List Token}
    (ha : Renders .factor a left) (hb : Renders .factor b right) :
    Renders .sum (.binary op a b) (left ++ op.sign :: right) := by
  cases hrank : op.rank with
  | factor => cases op <;> cases hrank
  | product => exact .ofProduct (.product hrank (.ofFactor ha) hb)
  | sum => exact .sum hrank (.ofProduct (.ofFactor ha)) (.ofFactor hb)

section Operations

variable {left before after right literal : List Char} {op : Operator} {n k : Int}

theorem spells_operation {first last : List Token} (hleft : Spells left first)
    (hbefore : ∀ c ∈ before, isSpace c) (hafter : ∀ c ∈ after, isSpace c)
    (hright : Spells right last) :
    Spells (operation left before op after right) (first ++ op.sign :: last) :=
  hleft.append (.cons hbefore (.sign op.isOperand_sign) (hright.blanks_append hafter))

/-- A literal is a factor of its value. -/
theorem IsLiteral.exists_renders (h : IsLiteral literal k) :
    ∃ (a : Formula) (words : List Token), a.Renders .factor words ∧ Spells literal words ∧
      ∀ lookup, a.outcome lookup = .ok k := by
  cases h with
  | unsigned hne hdigits hrange =>
    refine ⟨.literal literal, _, .literal literal, (IsWord.integer hne hdigits).spells, ?_⟩
    intro lookup
    rw [Formula.outcome_literal, checked_of_inRange hrange]
  | @signed digits hne hdigits hrange =>
    have hminus : IsWord .minus := .sign rfl
    refine ⟨.neg (.literal digits), _, .neg (.literal digits),
      hminus.spells.append (IsWord.integer hne hdigits).spells, ?_⟩
    have hneg : InRange (-(Text.digitsValue digits : Int)) := by
      simp only [InRange] at hrange ⊢
      omega
    intro lookup
    rw [Formula.outcome_neg, Formula.outcome_literal, checked_of_inRange hrange]
    exact checked_of_inRange hneg

variable {operand : List Char → Reading (Option Int64)} {answers : Path → Option Value}

/-- The reduction of an operation on two factors. -/
theorem value_evaluate_operation {a b : Formula} {first last : List Token} {m k : Int}
    (hdiv : op ≠ .div) (hmod : op ≠ .mod) (hbefore : ∀ c ∈ before, isSpace c)
    (hafter : ∀ c ∈ after, isSpace c) (hfirst : a.Renders .factor first)
    (hlast : b.Renders .factor last) (hleft : Spells left first) (hright : Spells right last)
    (ha : a.outcome (lookup operand answers) = .ok m)
    (hb : b.outcome (lookup operand answers) = .ok k) (hrange : InRange (op.exact m k)) :
    (evaluate operand (operation left before op after right)).value answers =
      .value (Int64.ofInt (op.exact m k)) := by
  have hwritten : (Formula.binary op a b).WrittenAs (operation left before op after right) :=
    ⟨_, .binary op hfirst hlast, spells_operation hleft hbefore hafter hright⟩
  have houtcome : (Formula.binary op a b).outcome (lookup operand answers) =
      .ok (op.exact m k) := by
    rw [Formula.outcome_binary, ha, hb]
    exact Operator.apply_of_inRange hdiv hmod hrange
  rw [value_evaluate hwritten rfl, houtcome]
  rfl

variable {p text : List Char} {result : Int}

/-- An operation on a path that is a word and has an integer value. -/
theorem WithLiteral.value_evaluate {n : Int64} (h : WithLiteral op p n.toInt text result)
    (hdiv : op ≠ .div) (hmod : op ≠ .mod) (hword : IsWord (.path p))
    (hn : lookup operand answers p = some n) (hrange : InRange result) :
    (evaluate operand text).value answers = .value (Int64.ofInt result) := by
  have hpath : (Formula.path p).outcome (lookup operand answers) = .ok n.toInt := by
    rw [Formula.outcome_path, hn]
  cases h with
  | behind hbefore hafter hliteral =>
    obtain ⟨b, words, hrenders, hspells, hb⟩ := hliteral.exists_renders
    exact value_evaluate_operation hdiv hmod hbefore hafter (.path p) hrenders hword.spells hspells
      hpath (hb _) hrange
  | inFront hbefore hafter hliteral =>
    obtain ⟨a, words, hrenders, hspells, ha⟩ := hliteral.exists_renders
    exact value_evaluate_operation hdiv hmod hbefore hafter hrenders (.path p) hspells hword.spells
      (ha _) hpath hrange

/-! ### Beside the path -/

/-- The characters of literals, operators and blanks. -/
def isNumeric (c : Char) : Bool :=
  isSpace c || c.isDigit || c ∈ ['+', '-', '*', '/', '%']

theorem isNumeric_of_isSpace {c : Char} (h : isSpace c) : isNumeric c := by
  rw [isNumeric, h, Bool.true_or, Bool.true_or]

theorem isNumeric_of_isDigit {c : Char} (h : c.isDigit) : isNumeric c := by
  rw [isNumeric, h, Bool.or_true, Bool.true_or]

/-- An operator and a literal behind a path. -/
structure IsTail (tail : List Char) : Prop where
  numeric : ∀ c ∈ tail, isNumeric c
  ends : Text.EndsRun Token.continues tail
  digit : ∃ front c, tail = front ++ [c] ∧ c.isDigit

/-- A literal and an operator in front of a path. -/
structure IsFront (front : List Char) : Prop where
  numeric : ∀ c ∈ front, isNumeric c
  words : ∃ words, Spells front words ∧ Token.Apart words ∧
    ∀ token ∈ words.getLast?, token.isOperand = false
  start : ∃ c rest, front = c :: rest ∧ (c = '-' ∨ c.isDigit)

theorem IsLiteral.numeric (h : IsLiteral literal k) : ∀ c ∈ literal, isNumeric c := by
  cases h with
  | unsigned _ hdigits => exact fun c hc => isNumeric_of_isDigit (hdigits c hc)
  | signed _ hdigits =>
    exact List.forall_mem_cons.mpr ⟨by decide, fun c hc => isNumeric_of_isDigit (hdigits c hc)⟩

theorem IsLiteral.start (h : IsLiteral literal k) :
    ∃ c rest, literal = c :: rest ∧ (c = '-' ∨ c.isDigit) := by
  cases h with
  | unsigned hne hdigits =>
    obtain ⟨c, rest, rfl⟩ := List.exists_cons_of_ne_nil hne
    exact ⟨c, rest, rfl, .inr (hdigits c List.mem_cons_self)⟩
  | @signed digits => exact ⟨'-', digits, rfl, .inl rfl⟩

theorem IsLiteral.digit (h : IsLiteral literal k) :
    ∃ front c, literal = front ++ [c] ∧ c.isDigit := by
  have hlast {digits : List Char} (hne : digits ≠ []) (hdigits : ∀ c ∈ digits, c.isDigit) :
      ∃ front c, digits = front ++ [c] ∧ c.isDigit :=
    ⟨digits.dropLast, digits.getLast hne, (List.dropLast_append_getLast hne).symm,
      hdigits _ (List.getLast_mem hne)⟩
  cases h with
  | unsigned hne hdigits => exact hlast hne hdigits
  | signed hne hdigits =>
    obtain ⟨front, c, rfl, hc⟩ := hlast hne hdigits
    exact ⟨'-' :: front, c, rfl, hc⟩

/-- An operation on a path and a literal is the path with the rest behind it or in front of it. -/
theorem WithLiteral.exists_beside (h : WithLiteral op p n text result) :
    (∃ tail, text = p ++ tail ∧ IsTail tail) ∨ ∃ front, text = front ++ p ∧ IsFront front := by
  have hsign : ∀ c ∈ op.sign.text, isNumeric c := by
    cases op <;> exact List.forall_mem_singleton.mpr rfl
  have hblanks {blanks : List Char} (hspace : ∀ c ∈ blanks, isSpace c) :
      ∀ c ∈ blanks, isNumeric c := fun c hc => isNumeric_of_isSpace (hspace c hc)
  cases h with
  | @behind before after literal k hbefore hafter hliteral =>
    left
    obtain ⟨-, words, -, hspells, -⟩ := hliteral.exists_renders
    have hwords : Spells (before ++ (op.sign.text ++ (after ++ literal))) (op.sign :: words) :=
      .cons hbefore (.sign op.isOperand_sign) (hspells.blanks_append hafter)
    refine ⟨_, rfl, ?_, hwords.endsRun_continues ?_, ?_⟩
    · simp only [List.forall_mem_append]
      exact ⟨hblanks hbefore, hsign, hblanks hafter, hliteral.numeric⟩
    · intro token htoken
      cases htoken
      exact op.isOperand_sign
    · obtain ⟨front, c, rfl, hc⟩ := hliteral.digit
      exact ⟨before ++ (op.sign.text ++ (after ++ front)), c, by simp, hc⟩
  | @inFront before after literal k hbefore hafter hliteral =>
    right
    obtain ⟨a, words, hrenders, hspells, -⟩ := hliteral.exists_renders
    have hwords : Spells (literal ++ (before ++ (op.sign.text ++ after))) (words ++ [op.sign]) :=
      hspells.append (.cons hbefore (.sign op.isOperand_sign) (.nil hafter))
    refine ⟨literal ++ (before ++ (op.sign.text ++ after)), by simp [operation], ?_,
      ⟨_, hwords, ?_, ?_⟩, ?_⟩
    · simp only [List.forall_mem_append]
      exact ⟨hliteral.numeric, hblanks hbefore, hsign, hblanks hafter⟩
    · exact Formula.apart_append_cons hrenders.apart op.isOperand_sign .nil
    · intro token htoken
      rw [List.getLast?_concat] at htoken
      cases htoken
      exact op.isOperand_sign
    · obtain ⟨c, rest, rfl, hc⟩ := hliteral.start
      exact ⟨c, _, rfl, hc⟩

/-- A path that is no word makes no operation with a literal. -/
theorem WithLiteral.value_evaluate_ne (h : WithLiteral op p n text result)
    (hpath : Expr.isPathText p) (hword : ¬IsWord (.path p)) (m : Int64) :
    (evaluate operand text).value answers ≠ .value m := by
  intro hvalue
  obtain ⟨a, ⟨words, hrenders, hspells⟩, -⟩ := exists_writtenAs hvalue
  apply hword
  rcases h.exists_beside with ⟨tail, rfl, htail⟩ | ⟨front, rfl, hfront⟩
  · exact Token.isWord_of_spells hpath hspells hrenders.apart htail.ends
      (Text.not_mem_of_class htail.numeric (by decide))
      (Text.not_mem_of_class htail.numeric (by decide))
  · obtain ⟨first, hfirst, hapart, hlast⟩ := hfront.words
    have hscan := Token.scan?_of_spells hspells hrenders.apart
    rw [Token.scan?_append hfirst hapart hlast, Option.map_eq_some_iff] at hscan
    obtain ⟨others, hothers, rfl⟩ := hscan
    have hspelled : Spells (p ++ []) others := by
      rw [List.append_nil]
      exact Token.spells_of_scan? hothers
    have hrest : Token.Apart others := List.IsChain.right_of_append hrenders.apart
    exact Token.isWord_of_spells hpath hspelled hrest Text.endsRun_nil List.not_mem_nil
      List.not_mem_nil

end Operations

end Arithmetic

/-! ### The value of an operation -/

namespace Expr

open Arithmetic (WithLiteral IsTail IsFront InRange isNumeric)

theorem isInert_of_isNumeric {c : Char} (h : isNumeric c) : isInert c :=
  isInert_of_class (by decide) h

/-- A text whose beginning is no part of a ternary is one if it has operators. -/
theorem ternary?_eq_none_iff {c : Char} {rest : List Char} (hinert : isInert c)
    (hblank : Text.isBlank c = false) :
    ternary? (c :: rest) = none ↔ operators? (c :: rest) = none := by
  have hoperators : operators? (c :: rest) =
      (operators? rest).map (Prod.map (1 + ·) (1 + ·)) :=
    operators?_append (List.forall_mem_singleton.mpr hinert) rest
  rw [ternary?_eq, hoperators]
  cases operators? rest with
  | none => simp
  | some found =>
    obtain ⟨q, colon⟩ := found
    have hcondition : Text.trim ((c :: rest).take (1 + q)) ≠ [] := by
      rw [ne_eq, Text.trim_eq_nil_iff, Nat.add_comm, List.take_succ_cons]
      intro hall
      rw [hall c List.mem_cons_self] at hblank
      cases hblank
    simp [hcondition]

section Operation

variable {op : Arithmetic.Operator} {p text : List Char} {n result : Int}

theorem exists_start_of_isPathText (hpath : isPathText p) :
    ∃ c rest, p = c :: rest ∧ Token.isNameStart c := by
  cases p with
  | nil => cases hpath
  | cons c rest => exact ⟨c, rest, rfl, (Bool.and_eq_true_iff.mp hpath).1⟩

/-- An operation begins with a character that belongs to an operand. -/
theorem exists_start_of_withLiteral (h : WithLiteral op p n text result)
    (hpath : isPathText p) :
    ∃ c rest, text = c :: rest ∧ isInert c ∧ Text.isBlank c = false := by
  rcases h.exists_beside with ⟨tail, rfl, -⟩ | ⟨front, rfl, hfront⟩
  · obtain ⟨c, rest, rfl, hstart⟩ := exists_start_of_isPathText hpath
    have hname := Token.isNameChar_of_isNameStart hstart
    exact ⟨c, rest ++ tail, rfl, isInert_of_isNameChar hname, isBlank_eq_false_of_isNameChar hname⟩
  · obtain ⟨c, rest, rfl, hstart⟩ := hfront.start
    refine ⟨c, rest ++ p, rfl, isInert_of_isNumeric (hfront.numeric c List.mem_cons_self), ?_⟩
    rcases hstart with rfl | hdigit
    · decide
    · exact isBlank_eq_false_of_isNameChar (Token.isNameChar_of_isDigit hdigit)

/-- An operation is split at the operators in the brackets of the path, if there are any. -/
theorem ternary?_withLiteral (h : WithLiteral op p n text result) (hpath : isPathText p) :
    ternary? text = none ↔ ternary? p = none := by
  have hoperators : operators? text = none ↔ operators? p = none := by
    rcases h.exists_beside with ⟨tail, rfl, htail⟩ | ⟨front, rfl, hfront⟩
    · have hmute : ∀ c ∈ tail, isMute c := by
        intro c hc
        have hne {d : Char} (hd : isNumeric d = false) : c ≠ d :=
          Text.ne_of_class (htail.numeric c hc) hd
        simp [isMute, hne (d := '\x7b') (by decide), hne (d := '?') (by decide),
          hne (d := ':') (by decide)]
      rw [operators?_append_of_mute hmute]
    · rw [operators?_append fun c hc => isInert_of_isNumeric (hfront.numeric c hc),
        Option.map_eq_none_iff]
  obtain ⟨c, rest, rfl, hinert, hblank⟩ := exists_start_of_withLiteral h hpath
  obtain ⟨start, others, rfl, hstart⟩ := exists_start_of_isPathText hpath
  have hname := Token.isNameChar_of_isNameStart hstart
  rw [ternary?_eq_none_iff hinert hblank, hoperators, ternary?_eq_none_iff
    (isInert_of_isNameChar hname) (isBlank_eq_false_of_isNameChar hname)]

theorem trimmed_withLiteral (h : WithLiteral op p n text result) (hpath : isPathText p) :
    Text.Trimmed text := by
  obtain ⟨c, rest, htext, -, hblank⟩ := exists_start_of_withLiteral h hpath
  refine ⟨htext ▸ Text.endsRun_cons.mpr hblank, ?_⟩
  rcases h.exists_beside with ⟨tail, rfl, htail⟩ | ⟨front, rfl, hfront⟩
  · obtain ⟨front, d, rfl, hdigit⟩ := htail.digit
    rw [← List.append_assoc, List.reverse_append]
    exact Text.endsRun_cons.mpr
      (isBlank_eq_false_of_isNameChar (Token.isNameChar_of_isDigit hdigit))
  · obtain ⟨start, others, rfl, -⟩ := exists_start_of_isPathText hpath
    rw [List.reverse_append]
    exact (trimmed_of_isPathText hpath).2.append_of_ne_nil (by simp)

theorem arrayForm_withLiteral (scope : Scope) (sub : Evaluation)
    (h : WithLiteral op p n text result) : arrayForm scope sub text = .done none := by
  rcases h.exists_beside with ⟨tail, rfl, htail⟩ | ⟨front, rfl, hfront⟩
  · obtain ⟨front, d, rfl, hdigit⟩ := htail.digit
    have hne {c : Char} (hc : c.isDigit = false) : d ≠ c := Text.ne_of_class hdigit hc
    have hhelper (helper : Helper) : helper.ending.getLast? ≠ some d := by
      intro hlast
      cases helper <;> exact hne (by decide) (Option.some.inj hlast).symm
    rw [← List.append_assoc]
    exact arrayForm_concat scope sub (hne (by decide)) (hne (by decide)) hhelper _
  · obtain ⟨c, rest, rfl, hstart⟩ := hfront.start
    refine arrayForm_of_start scope sub ?_ _
    rcases hstart with rfl | hdigit
    · decide
    · rw [Bool.eq_false_iff]
      intro hname
      rw [Token.isDigit_eq_false_of_isNameStart hname] at hdigit
      cases hdigit

theorem value?_withLiteral (scope : Scope) (h : WithLiteral op p n text result)
    (hpath : isPathText p) (hternary : ternary? p = none) :
    value? scope text = plainForm scope (value? scope) text := by
  have hnone := (ternary?_withLiteral h hpath).mpr hternary
  have htrimmed := trimmed_withLiteral h hpath
  have harray := arrayForm_withLiteral scope (value? scope) h
  obtain ⟨c, rest, rfl, hinert, -⟩ := exists_start_of_withLiteral h hpath
  simp only [isInert, Bool.and_eq_true, Bool.not_eq_true', decide_eq_true_eq] at hinert
  obtain ⟨⟨⟨⟨hquote, -⟩, hparen⟩, -⟩, -⟩ := hinert
  exact value?_eq_plainForm htrimmed hquote (withoutParens?_of_start hparen rest) hnone harray

/-- There is an opener in an operation only if there is one in the path. -/
theorem opener_infix_withLiteral (h : WithLiteral op p n text result) (hpath : isPathText p) :
    opener <:+: text ↔ opener <:+: p := by
  have hside {side : List Char} (hnumeric : ∀ c ∈ side, isNumeric c) : ¬opener <:+: side := by
    intro hoccurs
    apply Text.not_mem_of_class hnumeric (d := '$') (by decide)
    exact hoccurs.subset List.mem_cons_self
  rcases h.exists_beside with ⟨tail, rfl, htail⟩ | ⟨front, rfl, hfront⟩
  · constructor
    · intro hoccurs
      by_contra hnot
      have hmeet : ∀ c ∈ tail.head?, c ≠ '\x7b' := by
        intro c hc
        exact Text.ne_of_class (htail.numeric c (List.mem_of_mem_head? hc)) (by decide)
      exact Text.not_opener_infix_append hnot (hside htail.numeric) hmeet hoccurs
    · intro hoccurs
      exact hoccurs.trans (List.prefix_append p tail).isInfix
  · constructor
    · intro hoccurs
      by_contra hnot
      obtain ⟨start, rest, rfl, hstart⟩ := exists_start_of_isPathText hpath
      have hmeet : ∀ c ∈ (start :: rest).head?, c ≠ '\x7b' := by
        rintro c ⟨⟩
        exact Text.ne_of_class hstart (by decide)
      exact Text.not_opener_infix_append (hside hfront.numeric) hnot hmeet hoccurs
    · intro hoccurs
      exact hoccurs.trans (List.suffix_append front p).isInfix

end Operation

/-- An operation on a path with an integer value and a literal. If the path is a word, no ternary and
no template, the operation has its exact result for a value, provided that it is an integer of 64
bits. If the path is no word, the text has no arithmetic value. A ternary in the brackets of the path
makes the whole text one, and a placeholder makes it a template. -/
theorem eval_withLiteral (scope : Scope) (store : Store) {op : Arithmetic.Operator}
    {p text : List Char} {n : Int64} {result : Int} (hpath : isPathText p)
    (hn : ((eval scope p).value store.get?).int? = some n) (hdiv : op ≠ .div) (hmod : op ≠ .mod)
    (htext : WithLiteral op p n.toInt text result) (hrange : InRange result) :
    (Token.IsWord (.path p) → ternary? p = none → ¬opener <:+: p →
      (eval scope text).value store.get? = .int (Int64.ofInt result)) ∧
    (¬Token.IsWord (.path p) → ∀ operand answers m,
      (Arithmetic.evaluate operand text).value answers ≠ .value m) ∧
    (ternary? p ≠ none → ternary? text ≠ none) ∧
    (ternary? p = none → opener <:+: p →
      (eval scope text).value store.get? =
        .string (String.ofList ((fill scope text).value store.get?))) := by
  refine ⟨?_, ?_, mt (ternary?_withLiteral htext hpath).mp, ?_⟩
  · intro hword hternary hopener
    have hlookup : Arithmetic.lookup
        (fun operand => (eval scope operand).bind fun value => .done value.int?) store.get? p =
          some n := by
      rw [Arithmetic.lookup, Reading.value_bind]
      exact hn
    have hreduced := htext.value_evaluate hdiv hmod hword hlookup hrange
    have hnone : ¬Text.includes opener text := by
      rw [Text.includes_iff, opener_infix_withLiteral htext hpath]
      exact hopener
    rw [eval, evalWith, value?_withLiteral scope htext hpath hternary, plainForm, if_neg hnone,
      Reading.value_bind, Reading.value_bind]
    rw [show evalWith (value? scope) = eval scope from rfl, hreduced]
    rfl
  · intro hword operand answers m
    exact htext.value_evaluate_ne hpath hword m
  · intro hternary hopener
    have hsome : Text.includes opener text :=
      Text.includes_iff.mpr ((opener_infix_withLiteral htext hpath).mpr hopener)
    rw [eval, evalWith, value?_withLiteral scope htext hpath hternary, plainForm, if_pos hsome,
      Reading.value_bind, Reading.value_bind]
    rfl

/-- A store with two rows and the positions of rows. -/
def numberedRows : Store :=
  .ofValues [("at", .array [.int 1]), ("i", .int 0), ("rows", .array [.int 10, .int 20])]

/-- A computed index is a part of an operand. -/
theorem eval_withLiteral_computed :
    (eval .empty "rows[i + 1] * -3".toList).value numberedRows.get? = .int (-60) := by
  have hpath : isPathText "rows[i + 1]".toList := by decide
  have hn : ((eval .empty "rows[i + 1]".toList).value numberedRows.get?).int? = some 20 := by
    decide +kernel
  have hscan : Token.scan? ("rows[i + 1]".toList ++ []) = some [.path "rows[i + 1]".toList] := by
    decide +kernel
  have hword : Token.IsWord (.path "rows[i + 1]".toList) :=
    Token.isWord_of_spells hpath (Token.spells_of_scan? hscan) (.singleton _) Text.endsRun_nil
      List.not_mem_nil List.not_mem_nil
  have hblank : ∀ c ∈ [' '], Token.isSpace c := List.forall_mem_singleton.mpr rfl
  have hliteral : Arithmetic.IsLiteral "-3".toList (-3) := .signed (by decide)
    (List.forall_mem_singleton.mpr rfl) (by decide)
  have hopener : ¬opener <:+: "rows[i + 1]".toList := by decide +kernel
  have htoInt : (20 : Int64).toInt = 20 := by decide
  have htext : WithLiteral .mul "rows[i + 1]".toList (20 : Int64).toInt
      "rows[i + 1] * -3".toList (-60) := by
    rw [htoInt]
    exact .behind hblank hblank hliteral
  exact (eval_withLiteral .empty numberedRows hpath hn (by decide) (by decide) htext
    (by decide)).1 hword (by decide) hopener

/-- An index that is a path with an index itself is no part of one. -/
theorem not_eval_withLiteral_nested :
    ¬ ∀ (scope : Scope) (store : Store) (op : Arithmetic.Operator) (p text : List Char) (n : Int64)
      (result : Int), isPathText p → ((eval scope p).value store.get?).int? = some n →
        op ≠ .div → op ≠ .mod → WithLiteral op p n.toInt text result → InRange result →
          (eval scope text).value store.get? = .int (Int64.ofInt result) := by
  intro h
  have hn : ((eval .empty "rows[at[0]]".toList).value numberedRows.get?).int? = some 20 := by
    decide +kernel
  have hblank : ∀ c ∈ [' '], Token.isSpace c := List.forall_mem_singleton.mpr rfl
  have hliteral : Arithmetic.IsLiteral "1".toList 1 := .unsigned (by decide)
    (List.forall_mem_singleton.mpr rfl) (by decide)
  have htoInt : (20 : Int64).toInt = 20 := by decide
  have htext : WithLiteral .add "rows[at[0]]".toList (20 : Int64).toInt
      "rows[at[0]] + 1".toList 21 := by
    rw [htoInt]
    exact .behind hblank hblank hliteral
  have heval := congrArg Value.text (h .empty numberedRows .add _ _ 20 21 (by decide) hn (by decide)
    (by decide) htext (by decide))
  revert heval
  decide +kernel

end Expr

end ScreenDoc
