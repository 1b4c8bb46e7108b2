import ScreenDoc.Proofs.Expr.Operators

/-!
# Evaluation by shorter texts

The value of an expression is made of the values of shorter texts. Each form asks for texts that are
shorter than its own, trimmed text, so that the bound on the length in the definition of the
evaluation never cuts anything off. The evaluation is a fixed point of its step.

## Main definitions

- `Expr.AgreeBelow` — evaluations that agree on all texts shorter than a given length
- `Reading.Ends` — all results that a computation can have are of a kind
- `Arithmetic.Alike` — the same computation, which leaves only words of a list

## Main results

- `Arithmetic.evaluate_congr` — arithmetic asks for operands that are shorter than the text
- `Expr.step_congr` — the step asks for texts that are shorter than the trimmed text
- `Expr.value?_eq_step` — the evaluation is a fixed point of its step
- `Expr.value?_trim` — blanks around a text do not matter
-/

namespace ScreenDoc

/-! ### Results of computations -/

namespace Reading

variable {α β : Type}

/-- All results that a computation can have are of a kind, whatever the answers are. -/
def Ends (kind : α → Prop) : Reading α → Prop
  | .done a => kind a
  | .ask _ next => ∀ answer, Ends kind (next answer)

theorem Ends.bind {kind : α → Prop} {other : β → Prop} {r : Reading α} {f : α → Reading β}
    (hr : r.Ends kind) (hf : ∀ a, kind a → (f a).Ends other) : (r.bind f).Ends other := by
  induction r with
  | done a => exact hf a hr
  | ask path next ih => exact fun answer => ih answer (hr answer)

theorem Ends.bind_congr {kind : α → Prop} {r : Reading α} {f g : α → Reading β}
    (hr : r.Ends kind) (h : ∀ a, kind a → f a = g a) : r.bind f = r.bind g := by
  induction r with
  | done a => exact h a hr
  | ask path next ih => exact congrArg (ask path) (funext fun answer => ih answer (hr answer))

theorem ends_true (r : Reading α) : r.Ends fun _ => True := by
  induction r with
  | done a => trivial
  | ask path next ih => exact ih

end Reading

/-! ### Operands -/

namespace Token

theorem length_pos_of_isOperator {token : Token} (h : token.isOperator) :
    0 < token.text.length := by
  cases token <;> first | exact Nat.one_pos | cases h

theorem Spells.length_le {text : List Char} {tokens : List Token} (h : Spells text tokens)
    {token : Token} (htoken : token ∈ tokens) : token.text.length ≤ text.length := by
  induction h with
  | nil => exact absurd htoken List.not_mem_nil
  | @cons blanks rest first tokens _ _ _ ih =>
    simp only [List.length_append]
    rcases List.mem_cons.mp htoken with rfl | htoken
    · omega
    · have := ih htoken
      omega

/-- An operand is shorter than a text with an operator. -/
theorem Spells.length_lt {chars operand : List Char} {tokens : List Token} (h : Spells chars tokens)
    (hoperand : .path operand ∈ tokens) {operator : Token} (hoperator : operator ∈ tokens)
    (hsign : operator.isOperator) : operand.length < chars.length := by
  have hpos := length_pos_of_isOperator hsign
  induction h with
  | nil => exact absurd hoperand List.not_mem_nil
  | @cons blanks rest first tokens _ _ hrest ih =>
    simp only [List.length_append]
    rcases List.mem_cons.mp hoperand with hfirst | hlater
    · rcases List.mem_cons.mp hoperator with heq | hafter
      · rw [heq, ← hfirst] at hsign
        cases hsign
      · have := hrest.length_le hafter
        rw [← hfirst, Token.text]
        omega
    · rcases List.mem_cons.mp hoperator with heq | hafter
      · have hle : operand.length ≤ rest.length := hrest.length_le hlater
        rw [heq] at hpos
        omega
      · have := ih hlater hafter
        omega

end Token

namespace Arithmetic

/-- Whether what is left after a step are words of a list. -/
def Leaves (words : List Token) : Step → Prop
  | .ok (_, rest) => rest ⊆ words
  | .error _ => True

/-- The same computation, which leaves words of a list. -/
def Alike (words : List Token) (r r' : Reading Step) : Prop :=
  r = r' ∧ r.Ends (Leaves words)

section Operands

variable {words : List Token}

theorem Alike.done {step : Step} (h : Leaves words step) : Alike words (.done step) (.done step) :=
  ⟨rfl, h⟩

theorem Alike.andThen {r r' : Reading Step} {next next' : Int → List Token → Reading Step}
    (hr : Alike words r r')
    (hnext : ∀ n rest, rest ⊆ words → Alike words (next n rest) (next' n rest)) :
    Alike words (andThen r next) (andThen r' next') := by
  obtain ⟨rfl, hends⟩ := hr
  constructor
  · refine hends.bind_congr fun step hstep => ?_
    cases step with
    | ok result => exact (hnext _ _ hstep).1
    | error stop => rfl
  · refine hends.bind fun step hstep => ?_
    cases step with
    | ok result => exact (hnext _ _ hstep).2
    | error stop => trivial

theorem leaves_ready {result : Except Stop Int} {rest : List Token} (h : rest ⊆ words) :
    Leaves words (ready result rest) := by
  cases result with
  | ok n => exact h
  | error stop => trivial

variable {operand operand' : List Char → Reading (Option Int64)}
  (h : ∀ text, .path text ∈ words → operand text = operand' text)

include h

/-- All levels of the grammar ask only for operands among the words. -/
theorem alike_levels (fuel : Nat) :
    (∀ tokens ⊆ words, Alike words (sum operand fuel tokens) (sum operand' fuel tokens)) ∧
      (∀ acc, ∀ tokens ⊆ words,
        Alike words (sumRest operand fuel acc tokens) (sumRest operand' fuel acc tokens)) ∧
      (∀ tokens ⊆ words,
        Alike words (product operand fuel tokens) (product operand' fuel tokens)) ∧
      (∀ acc, ∀ tokens ⊆ words,
        Alike words (productRest operand fuel acc tokens) (productRest operand' fuel acc tokens)) ∧
      ∀ tokens ⊆ words,
        Alike words (factor operand fuel tokens) (factor operand' fuel tokens) := by
  induction fuel with
  | zero =>
    refine ⟨?_, ?_, ?_, ?_, ?_⟩
    all_goals
      intros
      simp only [sum, sumRest, product, productRest, factor]
      exact .done trivial
  | succ fuel ih =>
    obtain ⟨hsum, hsumRest, hproduct, hproductRest, hfactor⟩ := ih
    refine ⟨fun tokens htokens => ?_, fun acc tokens htokens => ?_, fun tokens htokens => ?_,
      fun acc tokens htokens => ?_, fun tokens htokens => ?_⟩
    · rw [sum, sum]
      exact (hproduct tokens htokens).andThen hsumRest
    · cases tokens with
      | nil => exact .done htokens
      | cons token rest =>
        have hrest := (List.cons_subset.mp htokens).2
        simp only [sumRest]
        cases sumOperator? token with
        | none => exact .done htokens
        | some op =>
          refine (hproduct rest hrest).andThen fun rhs after hafter => ?_
          exact (Alike.done (leaves_ready hafter)).andThen hsumRest
    · rw [product, product]
      exact (hfactor tokens htokens).andThen hproductRest
    · cases tokens with
      | nil => exact .done htokens
      | cons token rest =>
        have hrest := (List.cons_subset.mp htokens).2
        simp only [productRest]
        cases productOperator? token with
        | none => exact .done htokens
        | some op =>
          refine (hfactor rest hrest).andThen fun rhs after hafter => ?_
          exact (Alike.done (leaves_ready hafter)).andThen hproductRest
    · unfold factor
      split
      · refine (hfactor _ (List.cons_subset.mp htokens).2).andThen fun n after hafter => ?_
        exact .done (leaves_ready hafter)
      · exact .done (leaves_ready (List.cons_subset.mp htokens).2)
      · next text rest =>
        obtain ⟨htext, hrest⟩ := List.cons_subset.mp htokens
        rw [h text htext]
        refine ⟨rfl, (Reading.ends_true _).bind fun n _ => ?_⟩
        cases n with
        | none => trivial
        | some n => exact hrest
      · refine (hsum _ (List.cons_subset.mp htokens).2).andThen fun n after hafter => ?_
        split
        · exact .done (List.cons_subset.mp hafter).2
        · exact .done trivial
      · exact .done trivial

end Operands

/-- Arithmetic asks for operands that are shorter than the text. -/
theorem evaluate_congr {operand operand' : List Char → Reading (Option Int64)} {text : List Char}
    (h : ∀ shorter, shorter.length < text.length → operand shorter = operand' shorter) :
    evaluate operand text = evaluate operand' text := by
  unfold evaluate
  cases hscan : Token.scan? text with
  | none => rfl
  | some tokens =>
    simp only
    split
    · next hany =>
      obtain ⟨operator, hmem, hsign⟩ := List.any_eq_true.mp hany
      have hoperands : ∀ path, .path path ∈ tokens → operand path = operand' path :=
        fun path hpath => h path ((Token.spells_of_scan? hscan).length_lt hpath hmem hsign)
      rw [evaluateTokens, evaluateTokens,
        ((alike_levels hoperands _).1 tokens (List.Subset.refl tokens)).1]
    · rfl

end Arithmetic

/-! ### Pieces -/

theorem Template.length_lt_of_mem_pieces {template body : List Char}
    (h : .placeholder body ∈ Template.pieces template) : body.length < template.length := by
  fun_induction Template.pieces template with
  | case1 template => simp at h
  | case2 template before rest hcut hclose => simp at h
  | case3 template before rest hcut body' after hclose ih =>
    have hlength := Text.cut?_length hcut
    have hinside := Expr.length_lt_of_closePlaceholder? hclose
    rcases List.mem_cons.mp h with heq | h
    · cases heq
    · rcases List.mem_cons.mp h with heq | h
      · cases heq
        omega
      · have := ih h
        omega

theorem PathText.length_lt_of_mem_pieces {path index : List Char}
    (h : .bracket index ∈ PathText.pieces path) : index.length < path.length := by
  fun_induction PathText.pieces path with
  | case1 path => simp at h
  | case2 path before rest hcut hclose => simp at h
  | case3 path before rest hcut index' after hclose ih =>
    have hlength := Text.cut?_length hcut
    have hinside := Expr.length_lt_of_closeBracket? hclose
    rcases List.mem_cons.mp h with heq | h
    · cases heq
    · rcases List.mem_cons.mp h with heq | h
      · cases heq
        omega
      · have := ih h
        omega

/-! ### Parts of expressions -/

namespace Expr

theorem length_lt_of_withoutEnd? {ending text front : List Char} (hne : ending ≠ [])
    (h : Text.withoutEnd? ending text = some front) : front.length < text.length := by
  obtain ⟨hsuffix, heq⟩ := Option.ite_none_right_eq_some.mp h
  cases heq
  have hle := (List.isSuffixOf_iff_suffix.mp hsuffix).length_le
  have hpos := List.length_pos_of_ne_nil hne
  rw [List.length_take]
  omega

theorem length_lt_of_contains? {text base argument : List Char}
    (h : contains? text = some (base, argument)) :
    base.length < text.length ∧ argument.length < text.length := by
  simp only [contains?, Option.bind_eq_bind, Option.bind_eq_some_iff, Option.ite_none_right_eq_some,
    Option.some.injEq, Prod.exists, Prod.mk.injEq] at h
  obtain ⟨front, hfront, before, after, hcut, -, rfl, rfl⟩ := h
  have hlength := length_lt_of_withoutEnd? (by decide) hfront
  have hparts := Text.cut?_length hcut
  omega

theorem length_lt_of_helper? {text : List Char} {parts : Helper × List Char}
    (h : helper? text = some parts) : parts.2.length < text.length := by
  obtain ⟨helper, -, hhelper⟩ := List.exists_of_findSome?_eq_some h
  split at hhelper
  · next base hbase =>
    obtain ⟨-, heq⟩ := Option.ite_none_right_eq_some.mp hhelper
    cases heq
    exact length_lt_of_withoutEnd? (by cases helper <;> decide) hbase
  · cases hhelper

theorem length_lt_of_indexed? {text : List Char} {parts : List Char × List Char}
    (h : indexed? text = some parts) :
    parts.1.length < text.length ∧ parts.2.length < text.length := by
  unfold indexed? at h
  split at h
  · next rest hreverse =>
    obtain ⟨⟨index, base⟩, hclose, rfl⟩ := Option.map_eq_some_iff.mp h
    have hlength := length_lt_of_closeBracket? hclose
    have htext := congrArg List.length hreverse
    simp only [List.length_reverse, List.length_cons] at htext ⊢
    omega
  · cases h

theorem length_lt_of_unquoted? {text inner : List Char} (h : unquoted? text = some inner) :
    inner.length < text.length := by
  cases text with
  | nil => cases h
  | cons q rest =>
    obtain ⟨-, heq⟩ := Option.ite_none_right_eq_some.mp h
    cases heq
    rw [List.length_dropLast, List.length_cons]
    omega

/-! ### Forms -/

/-- Evaluations that agree on all texts shorter than a given length. -/
def AgreeBelow (n : Nat) (sub sub' : Evaluation) : Prop :=
  ∀ text, text.length < n → sub text = sub' text

section Forms

variable {sub sub' : Evaluation} {text : List Char}

theorem AgreeBelow.mono {m n : Nat} (h : AgreeBelow n sub sub') (hle : m ≤ n) :
    AgreeBelow m sub sub' :=
  fun text htext => h text (Nat.lt_of_lt_of_le htext hle)

theorem evalWith_congr {n : Nat} (h : AgreeBelow n sub sub') (hlt : text.length < n) :
    evalWith sub text = evalWith sub' text := by
  rw [evalWith, evalWith, h text hlt]

theorem fillPieces_congr {pieces : List Template.Piece}
    (h : ∀ body, .placeholder body ∈ pieces → sub body = sub' body) :
    fillPieces sub pieces = fillPieces sub' pieces := by
  induction pieces with
  | nil => rfl
  | cons piece rest ih =>
    have hrest := ih fun body hbody => h body (List.mem_cons_of_mem _ hbody)
    cases piece with
    | text chars => rw [fillPieces, fillPieces, hrest]
    | placeholder body => rw [fillPieces, fillPieces, hrest, h body List.mem_cons_self]

theorem fillWith_congr (h : AgreeBelow text.length sub sub') :
    fillWith sub text = fillWith sub' text :=
  fillPieces_congr fun body hbody => h body (Template.length_lt_of_mem_pieces hbody)

/-! ### Conditions -/

section Conditions

variable (sub : Evaluation)

theorem holdsWith_of_nil (h : Text.trim text = []) : holdsWith sub text = .done false := by
  rw [holdsWith.eq_def]
  split <;> simp_all

theorem holdsWith_of_not {rest : List Char} (h : Text.trim text = '!' :: rest) :
    holdsWith sub text = (holdsWith sub rest).bind fun b => .done !b := by
  rw [holdsWith.eq_def]
  split <;> simp_all

theorem holdsWith_of_true (h : Text.trim text = "true".toList) :
    holdsWith sub text = .done true := by
  rw [holdsWith.eq_def]
  split <;> simp_all

theorem holdsWith_of_false (h : Text.trim text = "false".toList) :
    holdsWith sub text = .done false := by
  rw [holdsWith.eq_def]
  split <;> simp_all

theorem holdsWith_of_parens {inner : List Char} (h : withoutParens? (Text.trim text) = some inner) :
    holdsWith sub text = holdsWith sub inner := by
  have hopen : ∃ rest, Text.trim text = '(' :: rest := by
    unfold withoutParens? at h
    split at h
    · exact ⟨_, ‹_›⟩
    · cases h
  obtain ⟨rest, hopen⟩ := hopen
  rw [holdsWith.eq_def]
  split
  · simp_all
  · simp_all
  · rw [if_neg (by simp [hopen]), if_neg (by simp [hopen])]
    split <;> simp_all

theorem holdsWith_of_plain (hnot : ∀ rest, Text.trim text ≠ '!' :: rest)
    (hwords : Text.trim text ∉ [[], "true".toList, "false".toList])
    (hparens : withoutParens? (Text.trim text) = none) :
    holdsWith sub text =
      (evalWith sub (Text.trim text)).bind fun value => .done (isTrue value) := by
  simp only [List.mem_cons, List.not_mem_nil, or_false, not_or] at hwords
  rw [holdsWith.eq_def]
  split
  · exact absurd ‹_› hwords.1
  · exact absurd ‹_› (hnot _)
  · rw [if_neg hwords.2.1, if_neg hwords.2.2]
    split <;> simp_all

end Conditions

theorem holdsWith_congr {n : Nat} (h : AgreeBelow n sub sub') (hlt : text.length < n) :
    holdsWith sub text = holdsWith sub' text := by
  have htrim := Text.trim_length_le text
  -- Negations and parentheses are taken off one by one, as `holdsWith` does.
  fun_induction holdsWith sub text with
  | case1 text hempty => rw [holdsWith_of_nil sub' hempty]
  | case2 text rest hnot ih =>
    rw [hnot, List.length_cons] at htrim
    rw [ih (by omega) (Text.trim_length_le rest), holdsWith_of_not sub' hnot]
  | case3 text hempty hnot htrue => rw [holdsWith_of_true sub' htrue]
  | case4 text hempty hnot htrue hfalse => rw [holdsWith_of_false sub' hfalse]
  | case5 text inner hempty hnot htrue hfalse hinner ih =>
    have hlength := length_lt_of_withoutParens? hinner
    rw [ih (by omega) (Text.trim_length_le inner), holdsWith_of_parens sub' hinner]
  | case6 text hempty hnot htrue hfalse hinner =>
    have hwords : Text.trim text ∉ [[], "true".toList, "false".toList] := by
      simp only [List.mem_cons, List.not_mem_nil, or_false, not_or]
      exact ⟨hempty, htrue, hfalse⟩
    rw [evalWith_congr h (by omega), holdsWith_of_plain sub' hnot hwords hinner]

/-! ### Paths and array forms -/

theorem normalizePieces_congr {pieces : List PathText.Piece}
    (h : ∀ index, .bracket index ∈ pieces →
      evalWith sub (Text.trim index) = evalWith sub' (Text.trim index)) :
    normalizePieces sub pieces = normalizePieces sub' pieces := by
  induction pieces with
  | nil => rfl
  | cons piece rest ih =>
    have hrest := ih fun index hindex => h index (List.mem_cons_of_mem _ hindex)
    cases piece with
    | text chars => rw [normalizePieces, normalizePieces, hrest]
    | unclosed => rfl
    | bracket index =>
      rw [normalizePieces, normalizePieces, hrest, h index List.mem_cons_self]

variable {scope : Scope}

theorem readPathText_congr (h : AgreeBelow text.length sub sub') :
    readPathText scope sub text = readPathText scope sub' text := by
  rw [readPathText, readPathText, normalizePieces_congr fun index hindex => ?_]
  exact evalWith_congr h (Nat.lt_of_le_of_lt (Text.trim_length_le index)
    (PathText.length_lt_of_mem_pieces hindex))

theorem arrayForm_congr (h : AgreeBelow text.length sub sub') :
    arrayForm scope sub text = arrayForm scope sub' text := by
  rw [arrayForm, arrayForm]
  cases hcontains : contains? text with
  | some parts =>
    obtain ⟨hbase, hargument⟩ := length_lt_of_contains? hcontains
    simp only [evalWith_congr h hargument, readPathText_congr (h.mono hbase.le)]
  | none =>
    cases hhelper : helper? text with
    | some parts => simp only [readPathText_congr (h.mono (length_lt_of_helper? hhelper).le)]
    | none =>
      cases hindexed : indexed? text with
      | none => rfl
      | some parts =>
        obtain ⟨hbase, hindex⟩ := length_lt_of_indexed? hindexed
        simp only [evalWith_congr h hindex, readPathText_congr (h.mono hbase.le)]

theorem plainForm_congr (h : AgreeBelow text.length sub sub') :
    plainForm scope sub text = plainForm scope sub' text := by
  rw [plainForm, plainForm, fillWith_congr h, readPathText_congr h,
    Arithmetic.evaluate_congr fun shorter hshorter => by rw [evalWith_congr h hshorter]]

/-- The step asks for texts that are shorter than the trimmed text. -/
theorem step_congr (h : AgreeBelow (Text.trim text).length sub sub') :
    step scope sub text = step scope sub' text := by
  rw [step, step]
  split
  · rfl
  · cases hinner : withoutParens? (Text.trim text) with
    | some inner => exact h inner (length_lt_of_withoutParens? hinner)
    | none =>
      cases hternary : ternary? (Text.trim text) with
      | some parts =>
        obtain ⟨condition, whenTrue, whenFalse⟩ := parts
        obtain ⟨hcondition, htrue, hfalse⟩ := length_lt_of_ternary? hternary
        simp only
        rw [holdsWith_congr h hcondition]
        congr 1
        funext b
        cases b
        · exact h whenFalse hfalse
        · exact h whenTrue htrue
      | none =>
        cases hquoted : unquoted? (Text.trim text) with
        | some inner =>
          simp only [fillWith_congr (h.mono (length_lt_of_unquoted? hquoted).le)]
        | none => simp only [arrayForm_congr h, plainForm_congr h]

end Forms

/-! ### The fixed point -/

variable (scope : Scope) (text : List Char)

/-- The evaluation is a fixed point of its step. -/
theorem value?_eq_step : value? scope text = step scope (value? scope) text := by
  rw [value?.eq_def]
  refine step_congr fun shorter hshorter => ?_
  have hlt := Nat.lt_of_lt_of_le hshorter (Text.trim_length_le text)
  exact dif_pos hlt

theorem value?_trim : value? scope (Text.trim text) = value? scope text := by
  rw [value?_eq_step, value?_eq_step scope text, step, step,
    Text.trim_eq_self (Text.trimmed_trim text)]

end Expr

end ScreenDoc
