import ScreenDoc.Expr.Eval
import ScreenDoc.Proofs.Store.Mirror

/-!
# Evaluation within an iteration

An expression is evaluated in the same way inside and outside of an iteration. Only the answers to
its questions differ: a path with a bound root is answered by the scope, and any other one by the
state.

## Main definitions

- `Reading.through` — a computation whose questions are answered by other computations
- `Reading.within` — a computation whose questions are put to a scope first
- `Scope.overlay` — the answers of a scope over those of the state

## Main results

- `Reading.value_within`, `Reading.paths_within` — the result and the paths of a computation within
  a scope
- `Expr.through_value?` — evaluations in two scopes differ in the answers to their questions alone
- `Expr.eval_eq_within`, `Expr.fill_eq_within`, `Expr.holds_eq_within` — evaluation within a scope
  is evaluation outside of all iterations, put to the scope
- `Reading.rooted_of_mem_paths_through` — questions that are passed on only if they can lead into
  the state

## Design notes

`Expr.step` only uses the evaluation of shorter texts, so each form of an expression is shown to
pass on the change of the answers from its parts to the whole; the induction is on the length of the
text, as that of `Expr.value?` is.
-/

namespace ScreenDoc

namespace Reading

variable {α β : Type}

theorem bind_done (r : Reading α) : r.bind .done = r := by
  induction r with
  | done a => rfl
  | ask path next ih => exact congrArg (ask path) (funext ih)

theorem bind_assoc {γ : Type} (r : Reading α) (f : α → Reading β) (g : β → Reading γ) :
    (r.bind f).bind g = r.bind fun a => (f a).bind g := by
  induction r with
  | done a => rfl
  | ask path next ih => exact congrArg (ask path) (funext ih)

/-- A computation whose questions are answered by other computations. -/
def through (answer : Path → Reading (Option Value)) : Reading α → Reading α
  | .done a => .done a
  | .ask path next => (answer path).bind fun value => through answer (next value)

/-- A computation whose questions are put to a scope first. -/
def within (scope : Scope) (r : Reading α) : Reading α :=
  r.through scope.readPath

variable (answer : Path → Reading (Option Value))

@[simp] theorem through_done (a : α) : (Reading.done a).through answer = .done a := rfl

@[simp] theorem through_bind (r : Reading α) (f : α → Reading β) :
    (r.bind f).through answer = (r.through answer).bind fun a => (f a).through answer := by
  induction r with
  | done a => rfl
  | ask path next ih =>
    rw [ask_bind, through, through, bind_assoc]
    exact congrArg _ (funext ih)

end Reading

namespace Scope

/-- The answers of a scope over those of the state. -/
def overlay (scope : Scope) (answers : Path → Option Value) (path : Path) : Option Value :=
  match scope.lookup path with
  | some hit => hit.value
  | none => answers path

theorem value_readPath (scope : Scope) (answers : Path → Option Value) (path : Path) :
    (scope.readPath path).value answers = scope.overlay answers path := by
  rw [readPath, overlay]
  cases scope.lookup path with
  | none => rfl
  | some hit =>
    obtain ⟨value, source⟩ := hit
    cases source <;> rfl

theorem paths_readPath (scope : Scope) (answers : Path → Option Value) (path : Path) :
    (scope.readPath path).paths answers = (scope.sourcePath path).toList := by
  rw [readPath, sourcePath]
  cases scope.lookup path with
  | none => rfl
  | some hit =>
    obtain ⟨value, source⟩ := hit
    cases source <;> rfl

end Scope

namespace Reading

variable {α : Type}

theorem value_within (scope : Scope) (answers : Path → Option Value) (r : Reading α) :
    (r.within scope).value answers = r.value (scope.overlay answers) := by
  induction r with
  | done a => rfl
  | ask path next ih =>
    simp only [within] at ih ⊢
    rw [through, value_bind, Scope.value_readPath, ih, value]

theorem paths_within (scope : Scope) (answers : Path → Option Value) (r : Reading α) :
    (r.within scope).paths answers =
      (r.paths (scope.overlay answers)).filterMap scope.sourcePath := by
  induction r with
  | done a => rfl
  | ask path next ih =>
    simp only [within] at ih ⊢
    rw [through, paths_bind, Scope.value_readPath, Scope.paths_readPath, ih, paths,
      List.filterMap_cons]
    cases scope.sourcePath path <;> rfl

end Reading

/-! ### Arithmetic -/

namespace Arithmetic

variable (answer : Path → Reading (Option Value)) (operand : List Char → Reading (Option Int64))

theorem through_andThen (step : Reading Step) (next : Int → List Token → Reading Step) :
    (andThen step next).through answer =
      andThen (step.through answer) fun n rest => (next n rest).through answer := by
  rw [andThen, andThen, Reading.through_bind]
  congr 1
  funext result
  cases result <;> rfl

/-- All levels of the grammar pass on the change of the questions, given one level of nesting
less. -/
theorem through_levels (fuel : Nat) :
    (∀ tokens, (sum operand fuel tokens).through answer =
        sum (fun text => (operand text).through answer) fuel tokens) ∧
      (∀ acc tokens, (sumRest operand fuel acc tokens).through answer =
        sumRest (fun text => (operand text).through answer) fuel acc tokens) ∧
      (∀ tokens, (product operand fuel tokens).through answer =
        product (fun text => (operand text).through answer) fuel tokens) ∧
      (∀ acc tokens, (productRest operand fuel acc tokens).through answer =
        productRest (fun text => (operand text).through answer) fuel acc tokens) ∧
      ∀ tokens, (factor operand fuel tokens).through answer =
        factor (fun text => (operand text).through answer) fuel tokens := by
  induction fuel with
  | zero =>
    refine ⟨?_, ?_, ?_, ?_, ?_⟩
    all_goals
      intros
      simp only [sum, sumRest, product, productRest, factor, Reading.through_done]
  | succ fuel ih =>
    obtain ⟨hsum, hsumRest, hproduct, hproductRest, hfactor⟩ := ih
    refine ⟨?_, ?_, ?_, ?_, ?_⟩
    · intro tokens
      simp only [sum, through_andThen, hproduct, hsumRest]
    · intro acc tokens
      cases tokens with
      | nil => rfl
      | cons token rest =>
        simp only [sumRest]
        cases sumOperator? token with
        | none => rfl
        | some op => simp only [through_andThen, hproduct, hsumRest, Reading.through_done]
    · intro tokens
      simp only [product, through_andThen, hfactor, hproductRest]
    · intro acc tokens
      cases tokens with
      | nil => rfl
      | cons token rest =>
        simp only [productRest]
        cases productOperator? token with
        | none => rfl
        | some op => simp only [through_andThen, hfactor, hproductRest, Reading.through_done]
    · intro tokens
      unfold factor
      split
      · simp only [through_andThen, hfactor, Reading.through_done]
      · rfl
      · rw [Reading.through_bind]
        congr 1
        funext n
        cases n <;> rfl
      · rw [through_andThen, hsum]
        congr 1
        funext n rest
        split <;> rfl
      · rfl

theorem through_evaluate (text : List Char) :
    (evaluate operand text).through answer =
      evaluate (fun text => (operand text).through answer) text := by
  unfold evaluate
  cases Token.scan? text with
  | none => rfl
  | some tokens =>
    simp only
    split
    · rw [evaluateTokens, evaluateTokens, Reading.through_bind,
        (through_levels answer operand _).1]
      congr 1
      funext result
      split <;> rfl
    · rfl

end Arithmetic

/-! ### Expressions -/

namespace Expr

/-- An evaluation of texts whose questions are answered by other computations. -/
def Evaluation.through (answer : Path → Reading (Option Value))
    (sub : Evaluation) : Evaluation :=
  fun text => (sub text).through answer

section Forms

variable (answer : Path → Reading (Option Value)) (sub : Evaluation)

theorem through_evalWith (text : List Char) :
    (evalWith sub text).through answer = evalWith (sub.through answer) text := by
  rw [evalWith, evalWith, Reading.through_bind]
  rfl

theorem through_fillPieces (pieces : List Template.Piece) :
    (fillPieces sub pieces).through answer = fillPieces (sub.through answer) pieces := by
  induction pieces with
  | nil => rfl
  | cons piece rest ih =>
    cases piece with
    | text chars =>
      rw [fillPieces, fillPieces, Reading.through_bind, ih]
      rfl
    | placeholder body =>
      rw [fillPieces, fillPieces, Reading.through_bind, Evaluation.through]
      congr 1
      funext value
      rw [Reading.through_bind, ih]
      rfl

theorem through_fillWith (template : List Char) :
    (fillWith sub template).through answer = fillWith (sub.through answer) template :=
  through_fillPieces answer sub _

theorem through_holdsWith (text : List Char) :
    (holdsWith sub text).through answer = holdsWith (sub.through answer) text := by
  -- Negations and parentheses are taken off one by one, as `holdsWith` does.
  fun_induction holdsWith sub text with
  | case1 text htrim =>
    rw [holdsWith.eq_def (sub.through answer) text]
    split
    · rfl
    · simp_all
    · simp_all
  | case2 text rest htrim ih =>
    rw [Reading.through_bind, ih]
    rw [holdsWith.eq_def (sub.through answer) text]
    split
    · simp_all
    · simp_all
    · simp_all
  | case3 text hempty hnot htrue =>
    rw [holdsWith.eq_def (sub.through answer) text]
    split
    · simp_all
    · simp_all
    · rw [if_pos htrue]
      rfl
  | case4 text hempty hnot htrue hfalse =>
    rw [holdsWith.eq_def (sub.through answer) text]
    split
    · simp_all
    · simp_all
    · rw [if_neg htrue, if_pos hfalse]
      rfl
  | case5 text inner hempty hnot htrue hfalse hinner ih =>
    rw [holdsWith.eq_def (sub.through answer) text]
    split
    · simp_all
    · simp_all
    · rw [if_neg htrue, if_neg hfalse]
      split <;> simp_all
  | case6 text hempty hnot htrue hfalse hinner =>
    rw [holdsWith.eq_def (sub.through answer) text]
    split
    · simp_all
    · simp_all
    · rw [if_neg htrue, if_neg hfalse, Reading.through_bind, through_evalWith]
      split <;> simp_all

theorem through_withIndex (i : Nat) (rest : Reading (Option (List Char))) :
    (withIndex i rest).through answer = withIndex i (rest.through answer) := by
  rw [withIndex, withIndex, Reading.through_bind]
  rfl

theorem through_normalizePieces (pieces : List PathText.Piece) :
    (normalizePieces sub pieces).through answer = normalizePieces (sub.through answer) pieces := by
  induction pieces with
  | nil => rfl
  | cons piece rest ih =>
    cases piece with
    | text chars =>
      rw [normalizePieces, normalizePieces, Reading.through_bind, ih]
      rfl
    | unclosed => rfl
    | bracket index =>
      rw [normalizePieces, normalizePieces]
      cases Text.index? (Text.trim index) with
      | some i => simp only [through_withIndex, ih]
      | none =>
        simp only [Reading.through_bind, through_evalWith]
        congr 1
        funext value
        cases position? value with
        | none => rfl
        | some i => simp only [through_withIndex, ih]

variable {scope scope' : Scope}
  (hread : ∀ text, (scope.read text).through answer = scope'.read text)

include hread

theorem through_readPathText (path : List Char) :
    (readPathText scope sub path).through answer =
      readPathText scope' (sub.through answer) path := by
  rw [readPathText, readPathText, Reading.through_bind, through_normalizePieces]
  congr 1
  funext text
  cases text with
  | none => rfl
  | some text => exact hread text

theorem through_arrayForm (text : List Char) :
    (arrayForm scope sub text).through answer = arrayForm scope' (sub.through answer) text := by
  rw [arrayForm, arrayForm]
  cases contains? text with
  | some parts =>
    simp only [Reading.through_bind, through_evalWith, through_readPathText _ _ hread,
      Reading.through_done]
  | none =>
    cases helper? text with
    | some helper => simp only [Reading.through_bind, through_readPathText _ _ hread,
        Reading.through_done]
    | none =>
      cases indexed? text with
      | none => rfl
      | some parts =>
        simp only
        split
        · simp only [Reading.through_bind, through_evalWith, through_readPathText _ _ hread,
            Reading.through_done]
        · rfl

theorem through_plainForm (text : List Char) :
    (plainForm scope sub text).through answer = plainForm scope' (sub.through answer) text := by
  rw [plainForm, plainForm]
  split
  · simp only [Reading.through_bind, through_fillWith, Reading.through_done]
  · simp only [Reading.through_bind, Arithmetic.through_evaluate, through_evalWith,
      Reading.through_done]
    congr 1
    funext outcome
    cases outcome with
    | value n => rfl
    | divisionByZero => rfl
    | notArithmetic =>
      simp only
      cases literal? text with
      | some value => rfl
      | none => exact through_readPathText answer sub hread text

theorem through_step (text : List Char) :
    (step scope sub text).through answer = step scope' (sub.through answer) text := by
  rw [step, step]
  split
  · rfl
  · cases withoutParens? (Text.trim text) with
    | some inner => rfl
    | none =>
      cases ternary? (Text.trim text) with
      | some parts =>
        obtain ⟨condition, whenTrue, whenFalse⟩ := parts
        simp only
        rw [Reading.through_bind, through_holdsWith]
        rfl
      | none =>
        cases unquoted? (Text.trim text) with
        | some inner =>
          simp only
          split
          · simp only [Reading.through_bind, through_fillWith, Reading.through_done]
          · rfl
        | none =>
          simp only [Reading.through_bind, through_arrayForm _ _ hread]
          congr 1
          funext value
          cases value with
          | some value => rfl
          | none => exact through_plainForm answer sub hread _

end Forms

variable {answer : Path → Reading (Option Value)} {scope scope' : Scope}

/-- Evaluations in two scopes differ as the answers to the questions of the one differ from those of
the other. -/
theorem through_value? (hread : ∀ text, (scope.read text).through answer = scope'.read text)
    (text : List Char) : (value? scope text).through answer = value? scope' text := by
  rw [value?.eq_def scope, through_step _ _ hread, value?.eq_def scope']
  congr 1
  funext shorter
  -- A text that is no shorter is not evaluated, so it has no questions to answer.
  rw [Evaluation.through]
  split
  · exact through_value? hread shorter
  · rfl
termination_by text.length

theorem value?_through (hread : ∀ text, (scope.read text).through answer = scope'.read text) :
    Evaluation.through answer (value? scope) = value? scope' :=
  funext (through_value? hread)

theorem through_eval (hread : ∀ text, (scope.read text).through answer = scope'.read text)
    (text : List Char) : (eval scope text).through answer = eval scope' text := by
  rw [eval, eval, through_evalWith, value?_through hread]

theorem through_fill (hread : ∀ text, (scope.read text).through answer = scope'.read text)
    (template : List Char) : (fill scope template).through answer = fill scope' template := by
  rw [fill, fill, through_fillWith, value?_through hread]

theorem through_holds (hread : ∀ text, (scope.read text).through answer = scope'.read text)
    (text : List Char) : (holds scope text).through answer = holds scope' text := by
  rw [holds, holds, through_holdsWith, value?_through hread]

end Expr

/-! ### Evaluation within a scope -/

namespace Scope

theorem lookup_empty (path : Path) : empty.lookup path = none := by
  unfold lookup
  cases path.firstKey? <;> rfl

theorem read_within (scope : Scope) (text : List Char) :
    (empty.read text).within scope = scope.read text := by
  rw [read, read]
  cases Path.ofChars? text with
  | none => rfl
  | some path =>
    simp only [readPath, lookup_empty]
    rw [Reading.within, Reading.through, readPath]
    exact Reading.bind_done _

end Scope

namespace Expr

theorem eval_eq_within (scope : Scope) (text : List Char) :
    eval scope text = (eval .empty text).within scope :=
  (through_eval (Scope.read_within scope) text).symm

theorem fill_eq_within (scope : Scope) (template : List Char) :
    fill scope template = (fill .empty template).within scope :=
  (through_fill (Scope.read_within scope) template).symm

theorem holds_eq_within (scope : Scope) (text : List Char) :
    holds scope text = (holds .empty text).within scope :=
  (through_holds (Scope.read_within scope) text).symm

end Expr

/-! ### Questions that lead into the state -/

namespace Reading

variable {α : Type}

/-- Answers a question only if its path can lead into the state. -/
def askRooted (path : Path) : Reading (Option Value) :=
  if path.firstKey?.isSome then .ask path .done else .done none

theorem rooted_of_mem_paths_through {answers : Path → Option Value} {r : Reading α} {path : Path}
    (h : path ∈ (r.through askRooted).paths answers) : path.firstKey?.isSome := by
  induction r with
  | done a => exact absurd h List.not_mem_nil
  | ask asked next ih =>
    rw [through, paths_bind] at h
    rcases List.mem_append.1 h with h | h
    · rw [askRooted] at h
      split at h
      · next hrooted =>
        obtain rfl : path = asked := List.mem_singleton.1 h
        exact hrooted
      · exact absurd h List.not_mem_nil
    · exact ih _ h

end Reading

theorem Scope.read_through_askRooted (text : List Char) :
    (empty.read text).through Reading.askRooted = empty.read text := by
  rw [read]
  cases hpath : Path.ofChars? text with
  | none => rfl
  | some path =>
    simp only [readPath, lookup_empty]
    rw [Reading.through, Reading.askRooted, if_pos (Path.firstKey?_ofChars? hpath)]
    rfl

end ScreenDoc
