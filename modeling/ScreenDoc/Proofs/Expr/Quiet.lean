import ScreenDoc.Expr.Eval
import ScreenDoc.Proofs.Arithmetic.Words

/-!
# Quiet texts

A text without blanks, operators, quotes, parentheses and placeholders can, as an expression, only
be an array property, an indexing, a literal or a path. So it is with a text of letters, digits,
underscores, dots and square brackets.

## Main definitions

- `Expr.isQuiet` — letters, digits, underscores, dots and square brackets
- `Expr.isUnmarked` — all characters that are no part of another form
- `Expr.below` — the evaluation of shorter texts

## Main results

- `Expr.ternary?_eq_none`, `Arithmetic.evaluate_of_unmarked` — forms that an unmarked text does not
  have
- `Expr.value?_of_unmarked`, `Expr.value?_of_quiet` — the value of such a text
-/

namespace ScreenDoc

namespace Text

/-! ### Classes of characters -/

theorem ne_of_class {p : Char → Bool} {c d : Char} (hc : p c) (hd : p d = false) : c ≠ d := by
  rintro rfl
  rw [hd] at hc
  cases hc

/-- A text within a class of characters has no other character. -/
theorem not_mem_of_class {p : Char → Bool} {text : List Char} (h : ∀ c ∈ text, p c) {d : Char}
    (hd : p d = false) : d ∉ text := by
  intro hmem
  exact ne_of_class (h d hmem) hd rfl

/-! ### Cutting -/

theorem cut?_eq_none {start : Char} (pattern : List Char) {text : List Char} (h : start ∉ text) :
    cut? (start :: pattern) text = none := by
  induction text with
  | nil => rfl
  | cons c rest ih =>
    obtain ⟨hc, hrest⟩ := not_or.mp (mt List.mem_cons.mpr h)
    have hprefix : (start :: pattern).isPrefixOf (c :: rest) = false := by
      rw [List.isPrefixOf, beq_eq_false_iff_ne.mpr hc, Bool.false_and]
    rw [cut?, hprefix, if_neg Bool.false_ne_true, ih hrest, Option.map_none]

theorem includes_eq_false {start : Char} (pattern : List Char) {text : List Char}
    (h : start ∉ text) : includes (start :: pattern) text = false := by
  rw [includes, cut?_eq_none pattern h, Option.isSome_none]

theorem cut?_append {stop : Char} {run : List Char} (rest : List Char) (h : stop ∉ run) :
    cut? [stop] (run ++ stop :: rest) = some (run, rest) := by
  induction run with
  | nil => simp [cut?]
  | cons c run ih =>
    obtain ⟨hc, hrun⟩ := not_or.mp (mt List.mem_cons.mpr h)
    have hprefix : [stop].isPrefixOf (c :: (run ++ stop :: rest)) = false := by
      rw [List.isPrefixOf, beq_eq_false_iff_ne.mpr hc, Bool.false_and]
    rw [List.cons_append, cut?, hprefix, if_neg Bool.false_ne_true, ih hrun, Option.map_some]

theorem withoutEnd?_append (ending base : List Char) :
    withoutEnd? ending (base ++ ending) = some base := by
  have hsuffix : ending.isSuffixOf (base ++ ending) := by
    rw [List.isSuffixOf_iff_suffix]
    exact List.suffix_append base ending
  rw [withoutEnd?, if_pos hsuffix, List.length_append, Nat.add_sub_cancel, List.take_left]

theorem withoutEnd?_eq_none {ending text : List Char} (h : ¬ ending <:+ text) :
    withoutEnd? ending text = none := by
  rw [withoutEnd?, if_neg (mt List.isSuffixOf_iff_suffix.mp h)]

end Text

/-! ### Forms that a quiet text does not have -/

namespace Expr

open Token (isNameChar)

/-- The characters of paths of identifiers and indices. -/
def isQuiet (c : Char) : Bool :=
  isNameChar c || c = '.' || c = '[' || c = ']'

theorem isBlank_eq_false_of_isNameChar {c : Char} (h : isNameChar c) : Text.isBlank c = false := by
  have hcode : 48 ≤ c.toNat ∧ c.toNat ≤ 122 := by
    rw [isNameChar, Bool.or_eq_true, decide_eq_true_eq] at h
    rcases h with h | rfl
    · rcases Bool.or_eq_true_iff.mp h with hletter | hdigit
      · rcases Bool.or_eq_true_iff.mp hletter with hupper | hlower
        · have hcodes : 65 ≤ c.toNat ∧ c.toNat ≤ 90 := of_decide_eq_true hupper
          omega
        · have hcodes : 97 ≤ c.toNat ∧ c.toNat ≤ 122 :=
            (Bool.and_eq_true_iff.mp hlower).imp of_decide_eq_true of_decide_eq_true
          omega
      · have hcodes : 48 ≤ c.toNat ∧ c.toNat ≤ 57 :=
          (Bool.and_eq_true_iff.mp hdigit).imp of_decide_eq_true of_decide_eq_true
        omega
    · decide
  simp only [Text.isBlank, Bool.or_eq_false_iff, Bool.and_eq_false_iff, decide_eq_false_iff_not,
    beq_eq_false_iff_ne]
  omega

theorem isBlank_eq_false_of_isQuiet {c : Char} (h : isQuiet c) : Text.isBlank c = false := by
  simp only [isQuiet, Bool.or_eq_true, decide_eq_true_eq] at h
  obtain ((h | rfl) | rfl) | rfl := h
  · exact isBlank_eq_false_of_isNameChar h
  · decide
  · decide
  · decide

theorem trimmed_of_quiet {text : List Char} (h : ∀ c ∈ text, isQuiet c) : Text.Trimmed text :=
  ⟨fun c hc => isBlank_eq_false_of_isQuiet (h c (List.mem_of_mem_head? hc)),
    fun c hc => isBlank_eq_false_of_isQuiet
      (h c (List.mem_reverse.mp (List.mem_of_mem_head? hc)))⟩

theorem mem_of_mem_topLevelFrom {quote : Option Char} {braces i : Nat} {text : List Char}
    {p : Nat × Char} (h : p ∈ topLevelFrom quote braces i text) : p.2 ∈ text := by
  fun_induction topLevelFrom quote braces i text with
  | case1 => exact absurd h List.not_mem_nil
  | case3 braces i rest ih => exact List.mem_cons_of_mem _ (List.mem_cons_of_mem _ (ih h))
  | case5 i c rest _ _ ih =>
    rcases List.mem_cons.mp h with rfl | h
    · exact List.mem_cons_self
    · exact List.mem_cons_of_mem _ (ih h)
  | _ =>
    rename_i ih
    exact List.mem_cons_of_mem _ (ih h)

theorem mem_of_mem_outsideParens {parens : Nat} {chars : List (Nat × Char)} {p : Nat × Char}
    (h : p ∈ outsideParens parens chars) : p ∈ chars := by
  fun_induction outsideParens parens chars with
  | case1 => exact h
  | case4 i c rest _ _ ih =>
    rcases List.mem_cons.mp h with rfl | h
    · exact List.mem_cons_self
    · exact List.mem_cons_of_mem _ (ih h)
  | _ =>
    rename_i ih
    exact List.mem_cons_of_mem _ (ih h)

/-- A text without a question mark is no ternary. -/
theorem ternary?_eq_none {text : List Char} (h : '?' ∉ text) : ternary? text = none := by
  have hdrop : (outsideParens 0 (topLevel text)).dropWhile (·.2 ≠ '?') = [] := by
    refine List.dropWhile_eq_nil_iff.mpr fun p hp => decide_eq_true ?_
    have hmem := mem_of_mem_topLevelFrom (mem_of_mem_outsideParens hp)
    exact fun heq => h (heq ▸ hmem)
  rw [ternary?, hdrop]

theorem withoutParens?_eq_none {text : List Char} (h : '(' ∉ text) :
    withoutParens? text = none := by
  unfold withoutParens?
  split
  · exact absurd List.mem_cons_self h
  · rfl

theorem unquoted?_eq_none {text : List Char} (h : ∀ c ∈ text, isQuote c = false) :
    unquoted? text = none := by
  cases text with
  | nil => rfl
  | cons c rest =>
    rw [unquoted?, h c List.mem_cons_self, Bool.false_and, Bool.false_and,
      if_neg Bool.false_ne_true]

theorem contains?_eq_none {text : List Char} (h : ')' ∉ text) : contains? text = none := by
  have hend : Text.withoutEnd? [')'] text = none :=
    Text.withoutEnd?_eq_none fun hsuffix => h (hsuffix.subset List.mem_cons_self)
  rw [contains?, hend]
  rfl

end Expr

/-- The words of a text are parts of it. -/
theorem Token.Spells.subset {text : List Char} {tokens : List Token} (h : Spells text tokens)
    {token : Token} (htoken : token ∈ tokens) : token.text ⊆ text := by
  induction h with
  | nil _ => exact absurd htoken List.not_mem_nil
  | @cons blanks rest first tokens _ _ _ ih =>
    rcases List.mem_cons.mp htoken with rfl | htoken
    · exact fun c hc => List.mem_append_right _ (List.mem_append_left _ hc)
    · exact fun c hc => List.mem_append_right _ (List.mem_append_right _ (ih htoken hc))

namespace Expr

/-- The characters that do not stand around anything, neither quote nor operate, and open no
placeholder. A text of them may still be an array property, an indexing, a literal or a path. -/
def isUnmarked (c : Char) : Bool :=
  !Text.isBlank c && !("\"'()\x7b\x7d?$+-*/%".toList.contains c)

theorem isUnmarked_of_isQuiet {c : Char} (h : isQuiet c) : isUnmarked c := by
  have hmarks : "\"'()\x7b\x7d?$+-*/%".toList.all fun d => !isQuiet d := by decide
  rw [isUnmarked, isBlank_eq_false_of_isQuiet h, Bool.not_false, Bool.true_and, Bool.not_eq_true',
    Bool.eq_false_iff, ne_eq, List.contains_iff_mem]
  intro hmem
  exact absurd h (by simpa using List.all_eq_true.mp hmarks c hmem)

theorem trimmed_of_unmarked {text : List Char} (h : ∀ c ∈ text, isUnmarked c) :
    Text.Trimmed text := by
  have hblank {c : Char} (hc : c ∈ text) : Text.isBlank c = false := by
    have hunmarked := h c hc
    rw [isUnmarked, Bool.and_eq_true, Bool.not_eq_true'] at hunmarked
    exact hunmarked.1
  exact ⟨fun c hc => hblank (List.mem_of_mem_head? hc),
    fun c hc => hblank (List.mem_reverse.mp (List.mem_of_mem_head? hc))⟩

theorem isQuote_eq_false_of_isUnmarked {c : Char} (h : isUnmarked c) : isQuote c = false := by
  simp [isQuote, Text.ne_of_class h (d := '"') (by decide),
    Text.ne_of_class h (d := '\x27') (by decide)]

end Expr

/-- A text without an operator is no arithmetic. -/
theorem Arithmetic.evaluate_of_unmarked (operand : List Char → Reading (Option Int64))
    {text : List Char} (h : ∀ c ∈ text, Expr.isUnmarked c) :
    evaluate operand text = .done .notArithmetic := by
  rw [evaluate]
  cases hscan : Token.scan? text with
  | none => rfl
  | some tokens =>
    have hoperators : tokens.any Token.isOperator = false := by
      refine List.any_eq_false.mpr fun token htoken hoperator => ?_
      have hsubset := (Token.spells_of_scan? hscan).subset htoken
      cases token with
      | plus => exact absurd (h _ (hsubset List.mem_cons_self)) (by decide)
      | minus => exact absurd (h _ (hsubset List.mem_cons_self)) (by decide)
      | star => exact absurd (h _ (hsubset List.mem_cons_self)) (by decide)
      | slash => exact absurd (h _ (hsubset List.mem_cons_self)) (by decide)
      | percent => exact absurd (h _ (hsubset List.mem_cons_self)) (by decide)
      | _ => cases hoperator
    simp only [hoperators, Bool.false_eq_true, if_false]

/-! ### The value of an unmarked text -/

namespace Expr

/-- The evaluation of texts that are shorter than a text. -/
def below (scope : Scope) (text : List Char) : Evaluation := fun shorter =>
  if shorter.length < text.length then value? scope shorter else .done none

variable {scope : Scope} {text : List Char}

/-- An unmarked text is an array property, an indexing, a literal or a path. -/
theorem value?_of_unmarked (hne : text ≠ []) (h : ∀ c ∈ text, isUnmarked c) :
    value? scope text = (arrayForm scope (below scope text) text).bind fun
      | some value => .done (some value)
      | none =>
        match literal? text with
        | some value => .done (some value)
        | none => readPathText scope (below scope text) text := by
  have hempty : text.isEmpty = false := List.isEmpty_eq_false_iff.mpr hne
  have hparens := withoutParens?_eq_none (Text.not_mem_of_class h (d := '(') (by decide))
  have hternary := ternary?_eq_none (Text.not_mem_of_class h (d := '?') (by decide))
  have hquoted := unquoted?_eq_none fun c hc => isQuote_eq_false_of_isUnmarked (h c hc)
  have hopener : Text.includes opener text = false :=
    Text.includes_eq_false _ (Text.not_mem_of_class h (d := '$') (by decide))
  have hstep : value? scope text = step scope (below scope text) text := value?.eq_def scope text
  rw [hstep, step]
  simp only [Text.trim_eq_self (trimmed_of_unmarked h), hempty, Bool.false_eq_true, if_false,
    hparens, hternary, hquoted]
  congr 1
  funext value
  cases value with
  | some value => rfl
  | none =>
    cases hliteral : literal? text <;>
      simp only [plainForm, hopener, Bool.false_eq_true, if_false, hliteral,
        Arithmetic.evaluate_of_unmarked _ h, Reading.done_bind]

/-- A quiet text is an array property, an indexing, a literal or a path. -/
theorem value?_of_quiet (hne : text ≠ []) (h : ∀ c ∈ text, isQuiet c) :
    value? scope text = (arrayForm scope (below scope text) text).bind fun
      | some value => .done (some value)
      | none =>
        match literal? text with
        | some value => .done (some value)
        | none => readPathText scope (below scope text) text :=
  value?_of_unmarked hne fun c hc => isUnmarked_of_isQuiet (h c hc)

end Expr

end ScreenDoc
