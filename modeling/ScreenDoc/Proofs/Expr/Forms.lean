import ScreenDoc.Proofs.Expr.Plain
import ScreenDoc.Proofs.Expr.Shorter

/-!
# Forms that an expression does not have

Calls, array properties and indexings have the text of a path in front. So an expression that begins
like no path is none of these, and neither is one that ends like none of them. An expression of no
other form is a template, arithmetic, a literal or a path.

## Main results

- `Expr.arrayForm_of_start`, `Expr.arrayForm_concat` — no calls, properties and indexings
- `Expr.value?_eq_plainForm` — what is left
-/

namespace ScreenDoc

/-! ### What stands in front -/

namespace Text

theorem eq_append_of_cut? {pattern text before after : List Char}
    (h : cut? pattern text = some (before, after)) : text = before ++ (pattern ++ after) := by
  induction text generalizing before with
  | nil =>
    rw [cut?, Option.ite_none_right_eq_some] at h
    obtain ⟨hempty, heq⟩ := h
    cases heq
    rw [List.isEmpty_iff.mp hempty]
    rfl
  | cons c text ih =>
    rw [cut?] at h
    split at h
    · next hstarts =>
      cases h
      obtain ⟨rest, hrest⟩ := List.isPrefixOf_iff_prefix.mp hstarts
      rw [← hrest, List.drop_left, List.nil_append]
    · obtain ⟨⟨before, after⟩, hcut, heq⟩ := Option.map_eq_some_iff.mp h
      cases heq
      rw [ih hcut, List.cons_append]

theorem eq_append_of_withoutEnd? {ending text base : List Char}
    (h : withoutEnd? ending text = some base) : text = base ++ ending := by
  obtain ⟨hends, heq⟩ := Option.ite_none_right_eq_some.mp h
  cases heq
  obtain ⟨front, rfl⟩ := List.isSuffixOf_iff_suffix.mp hends
  rw [List.length_append, Nat.add_sub_cancel, List.take_left]

theorem prefix_of_withoutEnd? {ending text base : List Char}
    (h : withoutEnd? ending text = some base) : base <+: text :=
  ⟨ending, (eq_append_of_withoutEnd? h).symm⟩

end Text

namespace Expr

open Token (isNameStart)

theorem eq_append_of_closeBracket? {opening closing : Char} {depth : Nat}
    {text body after : List Char}
    (h : closeBracket? opening closing depth text = some (body, after)) :
    text = body ++ closing :: after := by
  induction text generalizing depth body with
  | nil => cases h
  | cons c text ih =>
    rw [closeBracket?] at h
    split at h
    · next hend =>
      cases h
      rw [of_decide_eq_true (Bool.and_eq_true_iff.mp hend).1]
      rfl
    · obtain ⟨⟨body, after⟩, hbody, heq⟩ := Option.map_eq_some_iff.mp h
      cases heq
      rw [ih hbody, List.cons_append]

theorem eq_append_of_indexed? {text base index : List Char}
    (h : indexed? text = some (base, index)) : text = base ++ '[' :: (index ++ [']']) := by
  unfold indexed? at h
  split at h
  · next rest hreverse =>
    obtain ⟨⟨inside, front⟩, hclose, heq⟩ := Option.map_eq_some_iff.mp h
    cases heq
    have htext := congrArg List.reverse hreverse
    rw [List.reverse_reverse, eq_append_of_closeBracket? hclose] at htext
    rw [htext]
    simp
  · cases h

theorem prefix_of_indexed? {text base index : List Char} (h : indexed? text = some (base, index)) :
    base <+: text :=
  ⟨_, (eq_append_of_indexed? h).symm⟩

/-! ### Calls, properties and indexings -/

section ArrayForm

variable (scope : Scope) (sub : Evaluation)

theorem arrayForm_eq_done_none {text : List Char} (hcontains : contains? text = none)
    (hhelper : helper? text = none)
    (hindexed : ∀ base index, indexed? text = some (base, index) → isPathText base = false) :
    arrayForm scope sub text = .done none := by
  rw [arrayForm, hcontains, hhelper]
  cases h : indexed? text with
  | none => rfl
  | some parts =>
    obtain ⟨base, index⟩ := parts
    simp only [hindexed base index h, Bool.false_eq_true, if_false]

/-- A text that begins like no path is no call, property or indexing. -/
theorem arrayForm_of_start {c : Char} (hc : isNameStart c = false) (rest : List Char) :
    arrayForm scope sub (c :: rest) = .done none := by
  have hfront {base : List Char} (h : base <+: c :: rest) : isPathText base = false := by
    cases base with
    | nil => rfl
    | cons d base =>
      obtain ⟨rfl, -⟩ := List.cons_prefix_cons.mp h
      rw [isNameStart] at hc
      rw [isPathText, hc, Bool.false_and]
  refine arrayForm_eq_done_none scope sub ?_ ?_ fun base index h => hfront (prefix_of_indexed? h)
  · rw [Option.eq_none_iff_forall_not_mem]
    rintro ⟨base, argument⟩ h
    simp only [contains?, Option.bind_eq_bind, Option.mem_def, Option.bind_eq_some_iff,
      Option.ite_none_right_eq_some, Prod.exists] at h
    obtain ⟨front, hend, before, after, hcut, hpath, -⟩ := h
    have hbefore : before <+: front := ⟨_, (Text.eq_append_of_cut? hcut).symm⟩
    rw [hfront (hbefore.trans (Text.prefix_of_withoutEnd? hend))] at hpath
    cases hpath
  · rw [helper?, List.findSome?_eq_none_iff]
    intro helper _
    cases hend : Text.withoutEnd? helper.ending (c :: rest) with
    | none => rfl
    | some base =>
      simp only [hfront (Text.prefix_of_withoutEnd? hend), Bool.false_eq_true, if_false]

/-- Nor is a text that ends neither in a parenthesis or a bracket nor like a property. -/
theorem arrayForm_concat {c : Char} (hparen : c ≠ ')') (hbracket : c ≠ ']')
    (hhelper : ∀ helper : Helper, helper.ending.getLast? ≠ some c) (front : List Char) :
    arrayForm scope sub (front ++ [c]) = .done none := by
  have hlast : (front ++ [c]).getLast? = some c := List.getLast?_concat
  have hcontains : contains? (front ++ [c]) = none := by
    have hend : Text.withoutEnd? [')'] (front ++ [c]) = none := by
      refine Text.withoutEnd?_eq_none ?_
      rintro ⟨others, hothers⟩
      have heq := congrArg List.getLast? hothers
      rw [List.getLast?_concat, hlast] at heq
      exact hparen (Option.some.inj heq).symm
    rw [contains?, hend]
    rfl
  refine arrayForm_eq_done_none scope sub hcontains (helper?_concat hhelper front) ?_
  intro base index h
  rw [indexed?_eq_none (by rw [hlast]; exact fun heq => hbracket (Option.some.inj heq))] at h
  cases h

end ArrayForm

/-! ### What is left -/

theorem withoutParens?_of_start {c : Char} (hc : c ≠ '(') (rest : List Char) :
    withoutParens? (c :: rest) = none := by
  unfold withoutParens?
  split
  · next heq => exact absurd (List.cons.inj heq).1 hc
  · rfl

/-- An expression of no other form is a template, arithmetic, a literal or a path. -/
theorem value?_eq_plainForm {scope : Scope} {c : Char} {rest : List Char}
    (htrimmed : Text.Trimmed (c :: rest)) (hquote : isQuote c = false)
    (hparens : withoutParens? (c :: rest) = none) (hternary : ternary? (c :: rest) = none)
    (harray : arrayForm scope (value? scope) (c :: rest) = .done none) :
    value? scope (c :: rest) = plainForm scope (value? scope) (c :: rest) := by
  have hquoted : unquoted? (c :: rest) = none := by
    rw [unquoted?, hquote, Bool.false_and, Bool.false_and, if_neg Bool.false_ne_true]
  rw [value?_eq_step, step]
  simp only [Text.trim_eq_self htrimmed, List.isEmpty_cons, Bool.false_eq_true, if_false, hparens,
    hternary, hquoted, harray, Reading.done_bind]

end Expr

end ScreenDoc
