import ScreenDoc.Proofs.Expr.Condition
import ScreenDoc.Proofs.Expr.Forms
import ScreenDoc.Proofs.Expr.Indexing
import ScreenDoc.Proofs.Expr.Placeholder

/-!
# Expressions in parentheses

Parentheses around an expression come off if they enclose all of it. Whether they do is found by a
count of parentheses that knows no quotations. So an expression keeps its meaning in parentheses if
they match in it when those in its quotations are counted too. Otherwise the parentheses are taken
for a part of the text, although every other scan passes over quotations.

## Main definitions

- `Expr.enclosed` — an expression in parentheses
- `Expr.quotations` — the characters of a text within quotations

## Main results

- `Expr.isBalanced_iff_nested` — what is counted
- `Expr.nested_of_quotations` — quotations without parentheses do not matter
- `Expr.fill_enclosed` — what becomes of an expression in parentheses
-/

namespace ScreenDoc

namespace Expr

open Template (placeholder)

/-- An expression in parentheses. -/
def enclosed (e : List Char) : List Char :=
  '(' :: (e ++ [')'])

/-! ### Counted parentheses -/

theorem isBalanced_append {text : List Char} (h : Nested '(' ')' text) (depth : Nat)
    (rest : List Char) : isBalanced depth (text ++ rest) = isBalanced depth rest := by
  induction h generalizing depth rest with
  | nil => rfl
  | char hopening hclosing _ ih =>
    rw [List.cons_append, isBalanced, if_neg hopening, if_neg hclosing, ih]
  | group _ _ ihinside ihrest =>
    rw [List.cons_append, List.append_assoc, isBalanced, if_pos rfl, ihinside, List.cons_append,
      isBalanced, if_neg (by decide), if_pos rfl, ihrest]
    simp

theorem closing_of_isBalanced {depth : Nat} {text : List Char} (h : isBalanced depth text) :
    Closing (Nested '(' ')') ')' depth text := by
  induction text generalizing depth with
  | nil =>
    obtain rfl := of_decide_eq_true h
    exact Nested.nil
  | cons c text ih =>
    rw [isBalanced] at h
    by_cases hopening : c = '('
    · rw [if_pos hopening] at h
      rw [hopening]
      exact (ih h).group fun _ _ => .group
    · rw [if_neg hopening] at h
      by_cases hclosing : c = ')'
      · rw [if_pos hclosing, Bool.and_eq_true, decide_eq_true_eq] at h
        obtain ⟨hdepth, hrest⟩ := h
        obtain ⟨depth, rfl⟩ := Nat.exists_eq_add_of_lt hdepth
        rw [Nat.zero_add] at hrest ⊢
        exact ⟨[], text, by rw [hclosing]; rfl, .nil, ih hrest⟩
      · rw [if_neg hclosing] at h
        have hchar : Nested '(' ')' [c] := .char hopening hclosing .nil
        exact (ih h).append fun _ => hchar.append

/-- The count comes out even if the parentheses match, be they within quotations or not. -/
theorem isBalanced_iff_nested {text : List Char} : isBalanced 0 text ↔ Nested '(' ')' text := by
  constructor
  · intro h
    exact closing_of_isBalanced h
  · intro h
    rw [← List.append_nil text, isBalanced_append h]
    rfl

/-- The characters of a text within quotations, given the open quotation mark. -/
def quotations : Option Char → List Char → List Char
  | _, [] => []
  | none, c :: rest => quotations (if isQuote c then some c else none) rest
  | some q, c :: rest => if c = q then quotations none rest else c :: quotations (some q) rest

theorem quotations_quoted {q : Char} {inside : List Char} (h : q ∉ inside) (rest : List Char) :
    quotations (some q) (inside ++ q :: rest) = inside ++ quotations none rest := by
  induction inside with
  | nil => rw [List.nil_append, quotations, if_pos rfl, List.nil_append]
  | cons c inside ih =>
    obtain ⟨hc, hinside⟩ := not_or.mp (mt List.mem_cons.mpr h)
    rw [List.cons_append, quotations, if_neg (Ne.symm hc), ih hinside, List.cons_append]

theorem quotations_append {text : List Char} (h : Closed '(' ')' text) (rest : List Char) :
    quotations none (text ++ rest) = quotations none text ++ quotations none rest := by
  have hparens : isQuote '(' = false ∧ isQuote ')' = false := by decide
  induction h generalizing rest with
  | nil => rfl
  | char hquote _ _ _ ih =>
    simp only [List.cons_append, quotations, hquote, Bool.false_eq_true, if_false, ih]
  | quoted hquote hinside _ ih =>
    simp only [List.cons_append, List.append_assoc, quotations, hquote, if_true,
      quotations_quoted hinside, ih]
  | group _ _ ihinside ihrest =>
    simp only [List.cons_append, List.append_assoc, quotations, hparens, Bool.false_eq_true,
      if_false, ihinside, ihrest]

/-- Parentheses that match outside of quotations match at all if there are none within. -/
theorem nested_of_quotations {text : List Char} (h : Closed '(' ')' text)
    (hquotations : ∀ c ∈ quotations none text, c ≠ '(' ∧ c ≠ ')') : Nested '(' ')' text := by
  have hparens : isQuote '(' = false ∧ isQuote ')' = false := by decide
  induction h with
  | nil => exact .nil
  | char hquote hopening hclosing _ ih =>
    rw [quotations, hquote, if_neg Bool.false_ne_true] at hquotations
    exact .char hopening hclosing (ih hquotations)
  | @quoted q inside rest hquote hinside _ ih =>
    rw [quotations, if_pos hquote, quotations_quoted hinside, List.forall_mem_append] at hquotations
    have hopening : q ≠ '(' := Text.ne_of_class hquote hparens.1
    have hclosing : q ≠ ')' := Text.ne_of_class hquote hparens.2
    exact .char hopening hclosing
      ((Nested.of_forall_ne hquotations.1).append (.char hopening hclosing (ih hquotations.2)))
  | @group inside rest hinside hrest ihinside ihrest =>
    rw [quotations, hparens.1, if_neg Bool.false_ne_true, quotations_append hinside, quotations,
      hparens.2, if_neg Bool.false_ne_true, List.forall_mem_append] at hquotations
    exact .group (ihinside hquotations.1) (ihrest hquotations.2)

/-! ### Parentheses that come off -/

theorem withoutParens?_enclosed (e : List Char) :
    withoutParens? (enclosed e) = if isBalanced 0 e then some e else none := by
  rw [enclosed, withoutParens?, List.getLast?_concat, List.dropLast_concat]
  simp

theorem trimmed_enclosed (e : List Char) : Text.Trimmed (enclosed e) := by
  refine ⟨Text.endsRun_cons.mpr (by decide), ?_⟩
  rw [enclosed, List.reverse_cons, List.reverse_append]
  exact Text.endsRun_cons.mpr (by decide)

theorem bare_enclosed {e : List Char} (h : Nested '(' ')' e) : bare (enclosed e) = bare e := by
  have hinner : withoutParens? (Text.trim (enclosed e)) = some e := by
    rw [Text.trim_eq_self (trimmed_enclosed e), withoutParens?_enclosed,
      if_pos (isBalanced_iff_nested.mpr h)]
  rw [bare]
  split
  · next inner hsome =>
    rw [hinner] at hsome
    cases hsome
    rfl
  · next hnone =>
    rw [hinner] at hnone
    cases hnone

/-! ### Parentheses that stay -/

theorem topLevelFrom_quoted {q : Char} {inside : List Char} (h : q ∉ inside) (braces i : Nat)
    (rest : List Char) : topLevelFrom (some q) braces i (inside ++ q :: rest) =
      topLevelFrom none braces (i + inside.length + 1) rest := by
  induction inside generalizing i with
  | nil => rw [List.nil_append, topLevelFrom, if_pos rfl, List.length_nil, Nat.add_zero]
  | cons c inside ih =>
    obtain ⟨hc, hinside⟩ := not_or.mp (mt List.mem_cons.mpr h)
    rw [List.cons_append, topLevelFrom, if_neg (Ne.symm hc), ih hinside, List.length_cons,
      Nat.add_assoc i 1, Nat.add_comm 1]

/-- A character that does not quote, in a text without an opener. -/
theorem topLevelFrom_cons {c : Char} {rest : List Char} (hquote : isQuote c = false)
    (hopener : ¬opener <:+: c :: rest) (i : Nat) :
    topLevelFrom none 0 i (c :: rest) = (i, c) :: topLevelFrom none 0 (i + 1) rest := by
  have hnot : ∀ more, c = '$' → rest = '\x7b' :: more → False := by
    rintro more rfl rfl
    exact hopener (List.prefix_append opener more).isInfix
  rw [topLevelFrom.eq_4 _ _ _ _ hnot, hquote, if_neg Bool.false_ne_true, if_pos rfl]

/-- The walk over the operators sees nothing of a closed text within parentheses. -/
theorem outsideParens_closed {text : List Char} (h : Closed '(' ')' text) (parens i : Nat)
    {rest : List Char} (hopener : ¬opener <:+: text ++ rest) :
    ∃ j, outsideParens (parens + 1) (topLevelFrom none 0 i (text ++ rest)) =
      outsideParens (parens + 1) (topLevelFrom none 0 j rest) := by
  -- What a text without an opener ends with has none either.
  have hback {front back : List Char} (hnot : ¬opener <:+: front ++ back) : ¬opener <:+: back :=
    fun hoccurs => hnot (hoccurs.trans (List.suffix_append front back).isInfix)
  induction h generalizing parens i rest with
  | nil => exact ⟨i, rfl⟩
  | @char c others hquote hopening hclosing _ ih =>
    rw [List.cons_append] at hopener ⊢
    obtain ⟨j, hj⟩ := ih parens (i + 1) (hback (List.singleton_append ▸ hopener))
    exact ⟨j, by rw [topLevelFrom_cons hquote hopener, outsideParens, if_neg hopening,
      if_neg hclosing, if_neg (Nat.succ_ne_zero parens), hj]⟩
  | @quoted q inside others hquote hinside _ ih =>
    have htext : (q :: (inside ++ q :: others)) ++ rest =
        (q :: (inside ++ [q])) ++ (others ++ rest) := by simp
    have hnot : ∀ more, q = '$' → inside ++ q :: (others ++ rest) = '\x7b' :: more → False :=
      fun _ hq => absurd hq (Text.ne_of_class hquote (by decide))
    rw [htext] at hopener
    obtain ⟨j, hj⟩ := ih parens (i + 1 + inside.length + 1) (hback hopener)
    refine ⟨j, ?_⟩
    rw [List.cons_append, List.append_assoc, List.cons_append, topLevelFrom.eq_4 _ _ _ _ hnot,
      if_pos hquote, topLevelFrom_quoted hinside, hj]
  | @group inside others _ _ ihinside ihothers =>
    have hquote : isQuote '(' = false ∧ isQuote ')' = false := by decide
    rw [List.cons_append, List.append_assoc, List.cons_append] at hopener ⊢
    have hinside := hback (List.singleton_append ▸ hopener)
    have hclose := hback hinside
    obtain ⟨j, hj⟩ := ihinside (parens + 1) (i + 1) hinside
    obtain ⟨k, hk⟩ := ihothers parens (j + 1) (hback (List.singleton_append ▸ hclose))
    refine ⟨k, ?_⟩
    rw [topLevelFrom_cons hquote.1 hopener, outsideParens, if_pos rfl, hj,
      topLevelFrom_cons hquote.2 hclose, outsideParens, if_neg (by decide), if_pos rfl,
      Nat.add_sub_cancel, hk]

section Unbalanced

variable {e : List Char}

theorem not_opener_infix_enclosed (h : ¬opener <:+: e) : ¬opener <:+: enclosed e := by
  have hclose : ¬opener <:+: [')'] := by decide
  have hmeet : ∀ c ∈ [')'].head?, c ≠ '\x7b' := by
    intro c hc
    cases hc
    decide
  rw [enclosed, List.infix_cons_iff, not_or]
  refine ⟨?_, Text.not_opener_infix_append h hclose hmeet⟩
  simp [opener]

theorem ternary?_enclosed (hparens : Closed '(' ')' e) (hopener : ¬opener <:+: e) :
    ternary? (enclosed e) = none := by
  have hall := not_opener_infix_enclosed hopener
  have hinside : ¬opener <:+: e ++ [')'] := fun hoccurs =>
    hall (hoccurs.trans (List.suffix_cons '(' (e ++ [')'])).isInfix)
  obtain ⟨j, hj⟩ := outsideParens_closed hparens 0 1 hinside
  have hseen : outsideParens 0 (topLevel (enclosed e)) = [] := by
    rw [topLevel, enclosed, topLevelFrom_cons (by decide) hall, outsideParens, if_pos rfl, hj]
    simp [topLevelFrom, outsideParens, isQuote]
  rw [ternary?, hseen]
  rfl

theorem literal?_enclosed (e : List Char) : literal? (enclosed e) = none := by
  have hwords : ∀ word ∈ ["true", "false", "null"], enclosed e ≠ word.toList := by
    intro word hword heq
    have hhead : word.toList.head? = some '(' := heq ▸ rfl
    simp only [List.mem_cons, List.not_mem_nil, or_false] at hword
    rcases hword with rfl | rfl | rfl <;> exact absurd hhead (by decide)
  exact literal?_eq_none_of_start (by decide) (by decide) hwords

/-- An expression in parentheses that do not come off is neither split nor unquoted, nor is it a
call, a property, an indexing, a template or a literal. -/
theorem value?_enclosed (scope : Scope) (hunbalanced : ¬Nested '(' ')' e)
    (hparens : Closed '(' ')' e) (hopener : ¬opener <:+: e) :
    value? scope (enclosed e) =
      (Arithmetic.evaluate
        (fun operand => (eval scope operand).bind fun value => .done value.int?) (enclosed e)).bind
        fun
          | .value n => .done (some (.int n))
          | .divisionByZero => .done (some (.string (String.ofList (enclosed e))))
          | .notArithmetic => readPathText scope (value? scope) (enclosed e) := by
  have hnone : withoutParens? (enclosed e) = none := by
    rw [withoutParens?_enclosed, if_neg (mt isBalanced_iff_nested.mp hunbalanced)]
  have htemplate : ¬Text.includes opener (enclosed e) :=
    mt Text.includes_iff.mp (not_opener_infix_enclosed hopener)
  have hplain : value? scope (enclosed e) = plainForm scope (value? scope) (enclosed e) :=
    value?_eq_plainForm (trimmed_enclosed e) (by decide) hnone (ternary?_enclosed hparens hopener)
      (arrayForm_of_start scope (value? scope) (by decide) _)
  rw [hplain, plainForm, if_neg htemplate]
  simp only [literal?_enclosed]
  rfl

/-- As a condition it is true if its value is; its own text is not. -/
theorem holds_enclosed (scope : Scope) (hunbalanced : ¬Nested '(' ')' e) :
    holds scope (enclosed e) =
      (value? scope (enclosed e)).bind fun value => .done (value.any isTrue) := by
  have htrim := Text.trim_eq_self (trimmed_enclosed e)
  have hnone : withoutParens? (Text.trim (enclosed e)) = none := by
    rw [htrim, withoutParens?_enclosed, if_neg (mt isBalanced_iff_nested.mp hunbalanced)]
  have hnot : ∀ rest, Text.trim (enclosed e) ≠ '!' :: rest := by
    intro rest heq
    rw [htrim] at heq
    exact absurd (List.cons.inj heq).1 (by decide)
  have hwords : Text.trim (enclosed e) ∉ [[], "true".toList, "false".toList] := by
    rw [htrim, enclosed]
    simp
  rw [holds, holdsWith_of_plain _ hnot hwords hnone, htrim, evalWith, Reading.bind_assoc]
  congr 1
  funext value
  cases value with
  | some value => rfl
  | none =>
    have hne : String.ofList (enclosed e) ≠ "true" := by
      intro heq
      have hhead := congrArg (fun s : String => s.toList.head?) heq
      rw [String.toList_ofList] at hhead
      exact absurd (Option.some.inj hhead) (by decide)
    rw [Reading.done_bind, Option.getD_none, isTrue, htrim, decide_eq_false hne, Option.any_none]

end Unbalanced

/-- An expression in parentheses is shown and holds as it does without them if the parentheses in it
match, those within its quotations counted like all others. So it is if there are none within
quotations. Otherwise the parentheses stay, and what is left to be tried is arithmetic and a path,
with the parentheses as a part of the text. -/
theorem fill_enclosed (scope : Scope) {e : List Char} (hbraces : Closed '\x7b' '\x7d' e)
    (hparens : Closed '(' ')' e) :
    ((∀ c ∈ quotations none e, c ≠ '(' ∧ c ≠ ')') → Nested '(' ')' e) ∧
    (Nested '(' ')' e →
      fill scope (placeholder (enclosed e)) = fill scope (placeholder e) ∧
        holds scope (enclosed e) = holds scope e) ∧
    (¬Nested '(' ')' e →
      fill scope (placeholder (enclosed e)) =
          (value? scope (enclosed e)).bind (fun value => .done (shown value)) ∧
        holds scope (enclosed e) =
          (value? scope (enclosed e)).bind (fun value => .done (value.any isTrue)) ∧
        (¬opener <:+: e → value? scope (enclosed e) =
          (Arithmetic.evaluate
            (fun operand => (eval scope operand).bind fun value => .done value.int?)
            (enclosed e)).bind fun
              | .value n => .done (some (.int n))
              | .divisionByZero => .done (some (.string (String.ofList (enclosed e))))
              | .notArithmetic => readPathText scope (value? scope) (enclosed e))) := by
  have hchar {c : Char} (hc : isQuote c = false ∧ c ≠ '\x7b' ∧ c ≠ '\x7d') :
      Closed '\x7b' '\x7d' [c] := .of_forall (List.forall_mem_singleton.mpr hc)
  have henclosed : Closed '\x7b' '\x7d' (enclosed e) :=
    (hchar (by decide)).append (hbraces.append (hchar (by decide)))
  refine ⟨nested_of_quotations hparens, fun hnested => ⟨?_, ?_⟩, fun hunbalanced =>
    ⟨fill_placeholder scope henclosed, holds_enclosed scope hunbalanced,
      value?_enclosed scope hunbalanced hparens⟩⟩
  · rw [fill_placeholder scope henclosed, fill_placeholder scope hbraces,
      ← value?_bare scope (enclosed e), bare_enclosed hnested, value?_bare]
  · rw [← holds_bare scope (enclosed e), bare_enclosed hnested, holds_bare]

/-- Parentheses in a quotation do no harm where they match. -/
theorem fill_enclosed_call :
    (fill .empty (placeholder (enclosed "'f(x)'".toList))).value (Store.ofValues []).get? =
      "f(x)".toList := by
  have hclosed {opening closing : Char} (h : ∀ c ∈ "f(x)".toList, c ≠ '\x27') :
      Closed opening closing ('\x27' :: ("f(x)".toList ++ ['\x27'])) :=
    .quoted rfl (fun hmem => h _ hmem rfl) .nil
  have hnested : Nested '(' ')' "'f(x)'".toList := isBalanced_iff_nested.mp (by decide)
  have hquoted : ∀ c ∈ "f(x)".toList, c ≠ '\x27' := by simp
  have hfill := ((fill_enclosed .empty (hclosed hquoted) (hclosed hquoted)).2.1 hnested).1
  refine (congrArg (Reading.value _) hfill).trans ?_
  decide +kernel

/-- A quoted parenthesis alone is shown, but not in parentheses. -/
theorem not_fill_enclosed_quoted :
    ¬ ∀ (scope : Scope) (store : Store) (e : List Char), Closed '\x7b' '\x7d' e →
      Closed '(' ')' e →
        (fill scope (placeholder (enclosed e))).value store.get? =
            (fill scope (placeholder e)).value store.get? ∧
          (holds scope (enclosed e)).value store.get? = (holds scope e).value store.get? := by
  intro h
  have hclosed {opening closing : Char} :
      Closed opening closing ('\x27' :: (['('] ++ ['\x27'])) := .quoted rfl (by decide) .nil
  have hfill := (h .empty (.ofValues []) _ hclosed hclosed).1
  revert hfill
  decide +kernel

end Expr

end ScreenDoc
