import Mathlib.Algebra.Group.Nat.Even
import ScreenDoc.Proofs.Expr.Shorter

/-!
# Conditions and values

The truth of an expression and its value are found in two ways. A condition loses its exclamation
marks and its parentheses first, and only then is what remains evaluated. An evaluation loses its
parentheses first as well, but a ternary is split before anything else. So the two agree except for
a ternary with an exclamation mark in front: as a value the mark belongs to its condition, and as a
condition to all of it.

## Main definitions

- `Expr.bare` — an expression without the parentheses around it
- `Expr.truth` — the truth of the value of an expression
- `Expr.Agrees` — an expression is true as a condition exactly if its value is true

## Main results

- `Expr.holds_bare`, `Expr.truth_bare` — parentheses around an expression do not matter
- `Expr.holds_append` — exclamation marks in front negate all that follows
- `Expr.truth_of_ternary?` — a ternary has the value of the branch that its condition chooses
- `Expr.agrees_of_unsigned`, `Expr.agrees_ternary_iff` — where condition and value agree
-/

namespace ScreenDoc

namespace Text

/-! ### Trimming -/

theorem trimEnd_cons {c : Char} (hc : isBlank c = false) (rest : List Char) :
    trimEnd (c :: rest) = c :: trimEnd rest := by
  rw [trimEnd, trimEnd, List.reverse_cons, List.dropWhile_append]
  split
  · next hempty =>
    rw [List.isEmpty_iff.mp hempty, List.dropWhile_cons_of_neg (by simp [hc])]
    rfl
  · rw [List.reverse_append]
    rfl

theorem trim_cons {c : Char} (hc : isBlank c = false) (rest : List Char) :
    trim (c :: rest) = c :: trimEnd rest := by
  rw [trim, trimStart, List.dropWhile_cons_of_neg (by simp [hc]), trimEnd_cons hc]

theorem trim_cons_of_blank {c : Char} (hc : isBlank c) (rest : List Char) :
    trim (c :: rest) = trim rest := by
  rw [trim, trimStart, List.dropWhile_cons_of_pos hc]
  rfl

theorem trim_trimEnd (text : List Char) : trim (trimEnd text) = trim text := by
  induction text with
  | nil => rfl
  | cons c rest ih =>
    cases hc : isBlank c with
    | false =>
      rw [trimEnd_cons hc, trim_cons hc, trim_cons hc, trimEnd, trimEnd, List.reverse_reverse,
        dropWhile_eq_self (endsRun_dropWhile _)]
    | true =>
      by_cases hrest : ∀ d ∈ rest, isBlank d
      · have hall : ∀ d ∈ c :: rest, isBlank d := List.forall_mem_cons.mpr ⟨hc, hrest⟩
        have hempty : trimEnd (c :: rest) = [] := by
          rw [trimEnd, List.dropWhile_eq_nil_iff.mpr fun d hd => hall d (List.mem_reverse.mp hd)]
          rfl
        rw [hempty, trim_eq_nil_iff.mpr hall]
        rfl
      · have hne : (rest.reverse.dropWhile isBlank).isEmpty = false := by
          rw [List.isEmpty_eq_false_iff, ne_eq, List.dropWhile_eq_nil_iff]
          simpa using hrest
        have hend : trimEnd (c :: rest) = c :: trimEnd rest := by
          rw [trimEnd, trimEnd, List.reverse_cons, List.dropWhile_append, hne,
            if_neg Bool.false_ne_true, List.reverse_append]
          rfl
        rw [hend, trim_cons_of_blank hc, trim_cons_of_blank hc, ih]

end Text

namespace Expr

/-! ### Parentheses -/

/-- An expression without the blanks and the parentheses around it. -/
def bare (text : List Char) : List Char :=
  match _h : withoutParens? (Text.trim text) with
  | some inner => bare inner
  | none => Text.trim text
termination_by text.length
decreasing_by
  have hlt := length_lt_of_withoutParens? _h
  have hle := Text.trim_length_le text
  omega

theorem bare_spec (text : List Char) :
    Text.Trimmed (bare text) ∧ withoutParens? (bare text) = none := by
  fun_induction bare text with
  | case1 text inner hinner ih => exact ih
  | case2 text hnone => exact ⟨Text.trimmed_trim text, hnone⟩

theorem bare_eq_self {text : List Char} (htrimmed : Text.Trimmed text)
    (hparens : withoutParens? text = none) : bare text = text := by
  rw [bare]
  split
  · next inner hinner =>
    rw [Text.trim_eq_self htrimmed, hparens] at hinner
    cases hinner
  · exact Text.trim_eq_self htrimmed

theorem holdsWith_trim (sub : Evaluation) (text : List Char) :
    holdsWith sub (Text.trim text) = holdsWith sub text := by
  have htrim := Text.trim_eq_self (Text.trimmed_trim text)
  fun_induction holdsWith sub text with
  | case1 text hempty => rw [holdsWith_of_nil sub (htrim.trans hempty)]
  | case2 text rest hnot => rw [holdsWith_of_not sub (htrim.trans hnot)]
  | case3 text hempty hnot htrue => rw [holdsWith_of_true sub (htrim.trans htrue)]
  | case4 text hempty hnot htrue hfalse => rw [holdsWith_of_false sub (htrim.trans hfalse)]
  | case5 text inner hempty hnot htrue hfalse hinner =>
    rw [holdsWith_of_parens sub (by rwa [htrim])]
  | case6 text hempty hnot htrue hfalse hinner =>
    have hwords : Text.trim text ∉ [[], "true".toList, "false".toList] := by
      simp only [List.mem_cons, List.not_mem_nil, or_false, not_or]
      exact ⟨hempty, htrue, hfalse⟩
    rw [← htrim] at hnot hwords hinner
    rw [holdsWith_of_plain sub hnot hwords hinner, htrim]

section Evaluated

variable (scope : Scope)

theorem holds_trim (text : List Char) : holds scope (Text.trim text) = holds scope text :=
  holdsWith_trim _ text

theorem holds_bare (text : List Char) : holds scope (bare text) = holds scope text := by
  fun_induction bare text with
  | case1 text inner hinner ih => rw [ih, holds, holds, holdsWith_of_parens _ hinner]
  | case2 text hnone => exact holds_trim scope text

theorem value?_bare (text : List Char) : value? scope (bare text) = value? scope text := by
  fun_induction bare text with
  | case1 text inner hinner ih =>
    have hne : (Text.trim text).isEmpty = false := by
      rw [List.isEmpty_eq_false_iff]
      rintro hempty
      rw [hempty] at hinner
      cases hinner
    rw [ih, value?_eq_step scope text, step]
    simp only [hne, Bool.false_eq_true, if_false, hinner]
  | case2 text hnone => exact value?_trim scope text

/-! ### Words -/

/-- The word of a boolean is evaluated to it. -/
theorem value?_word (b : Bool) :
    value? scope (toString b).toList = .done (some (.bool b)) := by
  have hquiet : ∀ c ∈ (toString b).toList, isQuiet c :=
    List.all_eq_true.mp (by cases b <;> decide)
  have hforms : contains? (toString b).toList = none ∧ helper? (toString b).toList = none ∧
      indexed? (toString b).toList = none := by
    cases b <;> decide
  have hliteral : literal? (toString b).toList = some (.bool b) := by cases b <;> rfl
  obtain ⟨hcontains, hhelper, hindexed⟩ := hforms
  rw [value?_of_quiet (by cases b <;> decide) hquiet, arrayForm, hcontains, hhelper, hindexed]
  simp only [Reading.done_bind, hliteral]

variable (answers : Path → Option Value)

/-- The truth of the value of an expression. -/
def truth (text : List Char) : Bool :=
  isTrue ((eval scope text).value answers)

/-- An expression is true as a condition exactly if its value is true. -/
def Agrees (text : List Char) : Prop :=
  (holds scope text).value answers = truth scope answers text

/-- A path that leads nowhere stands for its own text, which is not that of the true boolean. -/
theorem truth_eq (text : List Char) :
    truth scope answers text = ((value? scope text).value answers).any isTrue := by
  rw [truth, eval, evalWith, Reading.value_bind]
  cases hvalue : (value? scope text).value answers with
  | some value => rfl
  | none =>
    rw [Option.getD_none, Option.any_none, Reading.value, isTrue, decide_eq_false_iff_not]
    intro htext
    have hword : Text.trim text = (toString true).toList := by
      rw [← String.toList_ofList (l := Text.trim text), htext]
      rfl
    rw [← value?_trim, hword, value?_word] at hvalue
    cases hvalue

theorem truth_bare (text : List Char) :
    truth scope answers (bare text) = truth scope answers text := by
  rw [truth_eq, truth_eq, value?_bare]

theorem agrees_bare_iff {text : List Char} :
    Agrees scope answers (bare text) ↔ Agrees scope answers text := by
  rw [Agrees, Agrees, holds_bare, truth_bare]

/-! ### Agreement -/

omit scope answers in
theorem isInert_of_sign {c : Char} (hc : c = '!' ∨ Text.isBlank c) : isInert c := by
  rcases hc with rfl | hblank
  · decide
  · exact isInert_of_class (by decide) hblank

/-- Condition and value agree where no exclamation mark stands in front. -/
theorem agrees_of_unsigned {text : List Char} (h : ∀ rest, bare text ≠ '!' :: rest) :
    Agrees scope answers text := by
  obtain ⟨htrimmed, hparens⟩ := bare_spec text
  rw [← agrees_bare_iff]
  generalize bare text = core at h htrimmed hparens
  have htrim := Text.trim_eq_self htrimmed
  by_cases hwords : core ∈ [[], "true".toList, "false".toList]
  · simp only [List.mem_cons, List.not_mem_nil, or_false] at hwords
    obtain rfl | rfl | rfl := hwords
    · rw [Agrees, truth_eq, value?_eq_step, holds, holdsWith_of_nil _ rfl]
      rfl
    · rw [Agrees, truth_eq, holds, holdsWith_of_true _ htrim,
        show "true".toList = (toString true).toList from rfl, value?_word]
      rfl
    · rw [Agrees, truth_eq, holds, holdsWith_of_false _ htrim,
        show "false".toList = (toString false).toList from rfl, value?_word]
      rfl
  · rw [← htrim] at h hwords hparens
    rw [Agrees, holds, holdsWith_of_plain _ h hwords hparens, Reading.value_bind, htrim]
    rfl

/-- Exclamation marks in front negate all that follows. -/
theorem holds_append {signs : List Char} (hsigns : ∀ c ∈ signs, c = '!' ∨ Text.isBlank c)
    (rest : List Char) :
    (holds scope (signs ++ rest)).value answers = if Even (signs.count '!')
      then (holds scope rest).value answers else !(holds scope rest).value answers := by
  induction signs with
  | nil => simp
  | cons c signs ih =>
    obtain ⟨hc, hsigns⟩ := List.forall_mem_cons.mp hsigns
    have hrest := ih hsigns
    rcases hc with rfl | hblank
    · have htrim := Text.trim_cons (c := '!') (by decide) (signs ++ rest)
      rw [← holds_trim, ← Text.trim_trimEnd, holds_trim] at hrest
      rw [List.cons_append, holds, holdsWith_of_not _ htrim, Reading.value_bind, ← holds, hrest,
        List.count_cons_self, Reading.value]
      by_cases heven : Even (signs.count '!')
      · simp [heven, Nat.even_add_one]
      · simp [heven, Nat.even_add_one]
    · have hne : c ≠ '!' := Text.ne_of_class hblank (by decide)
      rw [List.cons_append, ← holds_trim, Text.trim_cons_of_blank hblank, holds_trim, hrest,
        List.count_cons_of_ne hne]

/-- A ternary has the value of the branch that its condition chooses. -/
theorem truth_of_ternary? {text condition whenTrue whenFalse : List Char}
    (htrimmed : Text.Trimmed text) (hparens : withoutParens? text = none)
    (h : ternary? text = some (condition, whenTrue, whenFalse)) :
    truth scope answers text = if (holds scope condition).value answers
      then truth scope answers whenTrue else truth scope answers whenFalse := by
  have hne : text.isEmpty = false := by
    rw [List.isEmpty_eq_false_iff]
    rintro rfl
    cases h
  rw [truth_eq, value?_eq_step, step]
  simp only [Text.trim_eq_self htrimmed, hne, Bool.false_eq_true, if_false, hparens, h]
  rw [Reading.value_bind, ← holds]
  cases (holds scope condition).value answers <;> simp [truth_eq]

/-- A ternary with exclamation marks in front has them in its condition as a value, and in front of
all of it as a condition. -/
theorem agrees_iff_of_signs {text signs rest condition whenTrue whenFalse : List Char}
    (htext : bare text = signs ++ rest) (hsigns : ∀ c ∈ signs, c = '!' ∨ Text.isBlank c)
    (hhead : ∀ c ∈ rest.head?, c ≠ '!' ∧ Text.isBlank c = false)
    (hbare : withoutParens? rest = none)
    (hternary : ternary? rest = some (condition, whenTrue, whenFalse)) :
    Agrees scope answers text ↔ Even (signs.count '!') ∨
      truth scope answers whenTrue ≠ truth scope answers whenFalse := by
  obtain ⟨htrimmed, hparens⟩ := bare_spec text
  rw [htext] at htrimmed hparens
  have hrest : Text.Trimmed rest := by
    refine ⟨fun c hc => (hhead c hc).2, ?_⟩
    have hend := htrimmed.2
    rw [List.reverse_append] at hend
    exact hend.left
  -- As a condition, the marks come off first, and what follows them is evaluated.
  have hcondition : (holds scope text).value answers = if Even (signs.count '!')
      then truth scope answers rest else !truth scope answers rest := by
    have hunsigned : ∀ more, bare rest ≠ '!' :: more := by
      intro more heq
      rw [bare_eq_self hrest hbare] at heq
      exact (hhead '!' (by rw [heq]; rfl)).1 rfl
    have hagrees := agrees_of_unsigned scope answers hunsigned
    rw [Agrees] at hagrees
    rw [← holds_bare, htext, holds_append scope answers hsigns, hagrees]
  -- As a value, the marks stay with the condition of the ternary.
  have hinert : ∀ c ∈ signs, isInert c := fun c hc => isInert_of_sign (hsigns c hc)
  obtain ⟨before, hbefore, hsplit⟩ := ternary?_append hinert hternary
  have hvalue := truth_of_ternary? scope answers htrimmed hparens hsplit
  rw [← htext, truth_bare, holds_trim, holds_append scope answers hsigns, ← holds_trim scope before,
    ← hbefore] at hvalue
  rw [Agrees, hcondition, hvalue, truth_of_ternary? scope answers hrest hbare hternary]
  by_cases heven : Even (signs.count '!')
  · simp [heven]
  · simp only [heven, if_false, false_or]
    cases (holds scope condition).value answers <;> cases truth scope answers whenTrue <;>
      cases truth scope answers whenFalse <;> decide

end Evaluated

/-- The truth of a ternary's value is that of the branch that its condition chooses. Its truth as a
condition is the same unless an exclamation mark stands in front of it, within the parentheses
around it. With marks in front it is the same exactly if they cancel out or if only one of the
branches is true. -/
theorem agrees_ternary_iff (scope : Scope) (store : Store) (text : List Char) :
    ((∀ rest, bare text ≠ '!' :: rest) → Agrees scope store.get? text) ∧
    (∀ condition whenTrue whenFalse,
      ternary? (bare text) = some (condition, whenTrue, whenFalse) →
        truth scope store.get? text = if (holds scope condition).value store.get?
          then truth scope store.get? whenTrue else truth scope store.get? whenFalse) ∧
    ∀ signs rest condition whenTrue whenFalse, bare text = signs ++ rest →
      (∀ c ∈ signs, c = '!' ∨ Text.isBlank c) →
      (∀ c ∈ rest.head?, c ≠ '!' ∧ Text.isBlank c = false) → withoutParens? rest = none →
      ternary? rest = some (condition, whenTrue, whenFalse) →
        (Agrees scope store.get? text ↔ Even (signs.count '!') ∨
          truth scope store.get? whenTrue ≠ truth scope store.get? whenFalse) := by
  obtain ⟨htrimmed, hparens⟩ := bare_spec text
  refine ⟨agrees_of_unsigned scope store.get?, fun condition whenTrue whenFalse hternary => ?_,
    fun signs rest condition whenTrue whenFalse htext hsigns hhead hbare hternary =>
      agrees_iff_of_signs scope store.get? htext hsigns hhead hbare hternary⟩
  rw [← truth_bare, truth_of_ternary? scope store.get? htrimmed hparens hternary]

/-- A store in which a switch is on. -/
def switchedOn : Store :=
  .ofValues [("on", .bool true)]

/-- A mark in front does no harm where one branch is true and the other one is not. -/
theorem agrees_ternary_iff_chosen :
    Agrees .empty switchedOn.get? "(!on ? on : false)".toList := by
  have hsigns : ∀ c ∈ ['!'], c = '!' ∨ Text.isBlank c := List.forall_mem_singleton.2 (.inl rfl)
  have hhead : ∀ c ∈ "on ? on : false".toList.head?, c ≠ '!' ∧ Text.isBlank c = false := by
    intro c hc
    obtain rfl : 'o' = c := Option.some.inj hc
    decide
  exact ((agrees_ternary_iff .empty switchedOn "(!on ? on : false)".toList).2.2 ['!']
    "on ? on : false".toList "on".toList "on".toList "false".toList (by decide +kernel)
    hsigns hhead (by decide) (by decide)).mpr (.inr (by decide +kernel))

/-- Both branches are true, and so is the value, but not the condition. -/
theorem not_agrees_negated :
    ¬ ∀ (scope : Scope) (store : Store) (text : List Char), (ternary? text).isSome →
      Agrees scope store.get? text := by
  intro h
  have hagrees := h .empty switchedOn "!on ? true : true".toList (by decide)
  revert hagrees
  rw [Agrees]
  decide +kernel

end Expr

end ScreenDoc
