import Mathlib.Logic.Relation
import ScreenDoc.Proofs.Checked.Forms
import ScreenDoc.Proofs.Checked.Parser
import ScreenDoc.Proofs.Expr.Parts

/-!
# Checked evaluation

The evaluation of expressions, as a machine runs it. Four routines call each other with parts of
their own text, and each call that is neither one with less text nor one of three hand-overs is
refused. No call ever is, and nothing else goes wrong.

## Main definitions

- `Checked.Routine` — values, templates, conditions and paths
- `Checked.Nested` — the calls that a call may make
- `Checked.body` — what a routine does, given the calls that it makes
- `Checked.run` — a call, with its nested calls

## Main results

- `Checked.length_lt_of_transGen` — calls that lead back to a routine have less text
- `Checked.run_eq` — no call goes wrong, and each has the answer that the evaluation gives
- `Checked.evaluation_without_fault` — evaluation ends without a fault

## Design notes

Array helpers and the operands of arithmetic are parts of the routine for values: what they ask for
counts as a call of that routine, with its text.
-/

namespace ScreenDoc

namespace Checked

open Guarded (sure)
open Text (IsPart size)

/-! ### Calls -/

/-- What is called with a text. -/
inductive Routine where
  /-- The value of an expression. -/
  | value
  /-- A template, with its placeholders replaced. -/
  | template
  /-- The truth of an expression. -/
  | condition
  /-- The value at a path with expressions in its brackets. -/
  | path
deriving DecidableEq, Repr

namespace Routine

/-- What a routine returns. -/
abbrev Answer : Routine → Type
  | .value => Option Value
  | .template => List Char
  | .condition => Bool
  | .path => Option Value

/-- Whether a routine hands its own text over to another one. -/
def handsOver : Routine → Routine → Bool
  | .condition, .value => true
  | .value, .template => true
  | .value, .path => true
  | _, _ => false

/-- How often a text can still be handed over. -/
def rank : Routine → Nat
  | .condition => 2
  | .value => 1
  | .template => 0
  | .path => 0

theorem rank_lt_of_handsOver {caller callee : Routine} (h : caller.handsOver callee) :
    callee.rank < caller.rank := by
  cases caller <;> cases callee <;> first | decide | cases h

theorem rank_le (routine : Routine) : routine.rank ≤ 2 := by
  cases routine <;> decide

end Routine

/-- A routine and its text. -/
structure Call where
  routine : Routine
  text : List Char
deriving DecidableEq, Repr

/-- The calls that a call may make. Each gets a part of the text of the caller: one that is shorter,
or one that the caller hands over. -/
def Nested (callee caller : Call) : Prop :=
  callee.text <:+: caller.text ∧
    (callee.text.length < caller.text.length ∨ caller.routine.handsOver callee.routine)

instance (callee caller : Call) : Decidable (Nested callee caller) :=
  inferInstanceAs (Decidable (_ ∧ _))

/-- A bound on the depth of the calls that a call leads to. -/
def Call.height (call : Call) : Nat :=
  3 * call.text.length + call.routine.rank

theorem height_lt_of_nested {callee caller : Call} (h : Nested callee caller) :
    callee.height < caller.height := by
  have hle := h.1.length_le
  have hrank := callee.routine.rank_le
  rw [Call.height, Call.height]
  rcases h.2 with hlt | hhands
  · omega
  · have := Routine.rank_lt_of_handsOver hhands
    omega

theorem wellFounded_nested : WellFounded Nested :=
  Subrelation.wf height_lt_of_nested (measure Call.height).wf

theorem height_lt_of_transGen {callee caller : Call}
    (h : Relation.TransGen Nested callee caller) : callee.height < caller.height := by
  induction h with
  | single h => exact height_lt_of_nested h
  | tail _ h ih => exact ih.trans (height_lt_of_nested h)

/-- A call that leads back to its routine leads there with less text. -/
theorem length_lt_of_transGen {callee caller : Call} (h : Relation.TransGen Nested callee caller)
    (hsame : callee.routine = caller.routine) : callee.text.length < caller.text.length := by
  have hheight := height_lt_of_transGen h
  rw [Call.height, Call.height, hsame] at hheight
  omega

/-- A nested call that does not get less text is a hand-over. -/
theorem Nested.length_lt_or {callee caller : Call} (h : Nested callee caller) :
    callee.text.length < caller.text.length ∨
      callee.text = caller.text ∧ (caller.routine, callee.routine) ∈
        [(.condition, .value), (.value, .template), (.value, .path)] := by
  obtain ⟨hpart, hless | hhands⟩ := h
  · exact .inl hless
  · rcases Nat.lt_or_eq_of_le hpart.length_le with hless | heq
    · exact .inl hless
    · refine .inr ⟨hpart.eq_of_length heq, ?_⟩
      revert hhands
      cases caller.routine <;> cases callee.routine <;> decide

/-- The answers to calls. -/
abbrev Calls :=
  (callee : Call) → Guarded callee.routine.Answer

/-! ### Routines -/

section Routines

variable (scope : Scope) (call : Calls)

/-- The value of a text, or the text itself. -/
def evaluate (text : List Char) : Guarded Value := do
  return (← call ⟨.value, text⟩).getD (.string (String.ofList (Text.trim text)))

/-- The rest of a template, with its placeholders replaced from the left. -/
def interpolate (rest : List Char) : Guarded (List Char) := do
  match ← placeholder? rest with
  | (before, none) => return before
  | (before, some (body, after)) =>
    if _h : after.length < rest.length then
      let value ← call ⟨.value, body⟩
      return before ++ ((value.getD .null).text.toList ++ (← interpolate after))
    else throw .endless
termination_by rest.length

/-- The truth of an expression. -/
def condition (text : List Char) : Guarded Bool :=
  match Text.trim text with
  | '!' :: negated => do return !(← call ⟨.condition, negated⟩)
  | trimmed =>
    if trimmed = "true".toList then return true
    else if trimmed = "false".toList || trimmed.isEmpty then return false
    else do
      match ← withoutParens? trimmed with
      | some inner => call ⟨.condition, inner⟩
      | none => return Expr.isTrue (← evaluate call trimmed)

/-- The position that is written in the brackets of a path. -/
def position? (inner : List Char) : Guarded (Option Nat) :=
  match Text.index? inner with
  | some i => return some i
  | none => do return Expr.position? (← evaluate call inner)

/-- The rest of the text of a path, with the positions in its brackets from the left. -/
def normalize (rest : List Char) : Guarded (Option (List Char)) := do
  match ← bracketed? rest with
  | none => return none
  | some (before, none) => return some before
  | some (before, some (inner, after)) =>
    if _h : after.length < rest.length then
      match ← position? call inner with
      | none => return none
      | some i =>
        return (← normalize after).map fun text =>
          before ++ ('[' :: (toString i).toList ++ ']' :: text)
    else throw .endless
termination_by rest.length

/-- The value at a path with expressions in its brackets. -/
def readPath (path : List Char) : Guarded (Option Value) := do
  match ← normalize call path with
  | some text => sure (scope.read text)
  | none => return none

/-- The value of an array helper or an indexing. -/
def arrayForm (text : List Char) : Guarded (Option Value) := do
  match ← contains? text with
  | some (base, argument) =>
    let needle ← evaluate call argument
    return Expr.containsValue (← call ⟨.path, base⟩) needle
  | none =>
    match ← helper? text with
    | some (helper, base) => return helper.apply (← call ⟨.path, base⟩)
    | none =>
      match ← indexed? text with
      | some (base, index) =>
        let i ← evaluate call index
        return Expr.itemAt (← call ⟨.path, base⟩) (Expr.position? i)
      | none => return none

/-- The value of an expression that is neither a ternary, nor quoted, nor an array form. -/
def plainForm (text : List Char) : Guarded (Option Value) := do
  if Text.includes Expr.opener text then
    return some (.string (String.ofList (← call ⟨.template, text⟩)))
  else
    match ← reduce (fun operand => do return (← evaluate call operand).int?) text with
    | .value n => return some (.int n)
    | .divisionByZero => return some (.string (String.ofList text))
    | .notArithmetic =>
      match Expr.literal? text with
      | some value => return some value
      | none => call ⟨.path, text⟩

/-- The value of a trimmed expression. -/
def resolve (text : List Char) : Guarded (Option Value) := do
  if text.isEmpty then return some .null
  else
    match ← withoutParens? text with
    | some inner => call ⟨.value, inner⟩
    | none =>
      match ← ternary? text with
      | some (condition, whenTrue, whenFalse) =>
        call ⟨.value, if ← call ⟨.condition, condition⟩ then whenTrue else whenFalse⟩
      | none =>
        match Expr.unquoted? text with
        | some inner =>
          if Text.includes Expr.opener inner then
            return some (.string (String.ofList (← call ⟨.template, inner⟩)))
          else return some (.string (String.ofList inner))
        | none =>
          match ← arrayForm call text with
          | some value => return some value
          | none => plainForm call text

/-- What a routine does, given the calls that it makes. -/
def body : (caller : Call) → Guarded caller.routine.Answer
  | ⟨.value, text⟩ => resolve call (Text.trim text)
  | ⟨.template, text⟩ => interpolate call text
  | ⟨.condition, text⟩ => condition call text
  | ⟨.path, text⟩ => readPath scope call text

end Routines

/-- A call, with the calls that it makes. A call that it must not make is refused. -/
def run (scope : Scope) (caller : Call) : Guarded caller.routine.Answer :=
  body scope (fun callee =>
    if _h : Nested callee caller then run scope callee else throw .endless) caller
termination_by caller.height
decreasing_by exact height_lt_of_nested _h

/-! ### Routines whose calls do not go wrong -/

/-- What a call has as its answer. -/
def answer (scope : Scope) : (call : Call) → Reading call.routine.Answer
  | ⟨.value, text⟩ => Expr.value? scope text
  | ⟨.template, text⟩ => Expr.fill scope text
  | ⟨.condition, text⟩ => Expr.holds scope text
  | ⟨.path, text⟩ => Expr.readPathText scope (Expr.value? scope) text

/-- All calls that a call may make have their answers. -/
def Served (scope : Scope) (call : Calls) (caller : Call) : Prop :=
  ∀ callee, Nested callee caller → call callee = sure (answer scope callee)

section Served

variable {scope : Scope} {call : Calls} {caller : Call}

theorem Served.of_isPart (h : Served scope call caller) (routine : Routine) {part : List Char}
    (hpart : IsPart part caller.text) :
    call ⟨routine, part⟩ = sure (answer scope ⟨routine, part⟩) :=
  h ⟨routine, part⟩ ⟨hpart.isInfix, .inl hpart.length_lt⟩

theorem Served.of_handsOver (h : Served scope call caller) (routine : Routine) {part : List Char}
    (hpart : part <:+: caller.text) (hhands : caller.routine.handsOver routine) :
    call ⟨routine, part⟩ = sure (answer scope ⟨routine, part⟩) :=
  h ⟨routine, part⟩ ⟨hpart, .inr hhands⟩

theorem evaluate_eq {text : List Char} (h : call ⟨.value, text⟩ = sure (Expr.value? scope text)) :
    evaluate call text = sure (Expr.eval scope text) := by
  rw [evaluate, h, Expr.eval, Expr.evalWith, Guarded.sure_bind]
  rfl

theorem interpolate_eq {rest : List Char} (hsize : size rest ≤ Text.maxIndex)
    (h : ∀ body, .placeholder body ∈ Template.pieces rest →
      call ⟨.value, body⟩ = sure (Expr.value? scope body)) :
    interpolate call rest =
      sure (Expr.fillPieces (Expr.value? scope) (Template.pieces rest)) := by
  fun_induction Template.pieces rest with
  | case1 rest hcut =>
    rw [interpolate, placeholder?_eq hsize, Guarded.lift_ok, Guarded.done_bind, hcut]
    simp [Expr.fillPieces, Guarded.sure_done]
  | case2 rest before behind hcut hclose =>
    rw [interpolate, placeholder?_eq hsize, Guarded.lift_ok, Guarded.done_bind, hcut]
    simp [hclose, Expr.fillPieces, Guarded.sure_done]
  | case3 rest before behind hcut body after hclose ih =>
    have hafter := (Template.isPart_of_cut? hcut hclose).2
    have hvalue := h body (by simp)
    have hrest := ih ((Text.size_le_of_isInfix hafter.isInfix).trans hsize) fun body hbody =>
      h body (by simp [hbody])
    rw [interpolate, placeholder?_eq hsize, Guarded.lift_ok, Guarded.done_bind, hcut]
    simp only [hclose]
    rw [dif_pos hafter.length_lt, hvalue, hrest]
    simp only [Expr.fillPieces, Reading.bind_assoc, Reading.done_bind, Guarded.sure_bind,
      Guarded.sure_done]

theorem condition_eq {text : List Char} (hsize : size text ≤ Text.maxIndex)
    (h : Served scope call ⟨.condition, text⟩) :
    condition call text = sure (Expr.holds scope text) := by
  have htrim := Text.trim_isInfix text
  rw [condition, Expr.holds]
  split
  · next negated hnot =>
    have hpart : IsPart negated text :=
      (Text.isPart_of_append ['!'] [] (by simp) (by simp)).of_isInfix (hnot ▸ htrim)
    rw [h.of_isPart .condition hpart, Expr.holdsWith_of_not _ hnot, Guarded.sure_bind]
    rfl
  · next hnot =>
    have hlength := (Text.length_le_size text).trans hsize
    by_cases htrue : Text.trim text = "true".toList
    · rw [if_pos htrue, Expr.holdsWith_of_true _ htrue]
      rfl
    by_cases hfalse : Text.trim text = "false".toList
    · rw [if_neg htrue, if_pos (by simp [hfalse]), Expr.holdsWith_of_false _ hfalse]
      rfl
    by_cases hempty : Text.trim text = []
    · rw [if_neg htrue, if_pos (by simp [hempty]), Expr.holdsWith_of_nil _ hempty]
      rfl
    have hnone : ¬(decide (Text.trim text = "false".toList) || (Text.trim text).isEmpty) := by
      rw [Bool.or_eq_true, decide_eq_true_iff, List.isEmpty_iff, not_or]
      exact ⟨hfalse, hempty⟩
    rw [if_neg htrue, if_neg hnone,
      withoutParens?_eq (htrim.length_le.trans hlength), Guarded.lift_ok, Guarded.done_bind]
    cases hparens : Expr.withoutParens? (Text.trim text) with
    | some inner =>
      rw [Expr.holdsWith_of_parens _ hparens]
      exact h.of_isPart .condition ((Expr.isPart_of_withoutParens? hparens).of_isInfix htrim)
    | none =>
      have hwords : Text.trim text ∉ [[], "true".toList, "false".toList] := by
        simp only [List.mem_cons, List.not_mem_nil, or_false, not_or]
        exact ⟨hempty, htrue, hfalse⟩
      simp only
      rw [evaluate_eq (h.of_handsOver .value htrim rfl),
        Expr.holdsWith_of_plain _ hnot hwords hparens, Guarded.sure_bind]
      rfl

theorem position?_eq {inner : List Char}
    (h : call ⟨.value, inner⟩ = sure (Expr.value? scope inner)) :
    position? call inner = sure (match Text.index? inner with
      | some i => .done (some i)
      | none => (Expr.eval scope inner).bind fun value => .done (Expr.position? value)) := by
  rw [position?]
  cases Text.index? inner with
  | some i => rfl
  | none =>
    simp only
    rw [evaluate_eq h, Guarded.sure_bind]
    rfl

theorem normalize_eq {rest : List Char} (hsize : size rest ≤ Text.maxIndex)
    (h : ∀ index, .bracket index ∈ PathText.pieces rest →
      call ⟨.value, Text.trim index⟩ = sure (Expr.value? scope (Text.trim index))) :
    normalize call rest =
      sure (Expr.normalizePieces (Expr.value? scope) (PathText.pieces rest)) := by
  fun_induction PathText.pieces rest with
  | case1 rest hcut =>
    rw [normalize, bracketed?_eq hsize, Guarded.lift_ok, Guarded.done_bind, hcut]
    simp [Expr.normalizePieces, Guarded.sure_done]
  | case2 rest before behind hcut hclose =>
    rw [normalize, bracketed?_eq hsize, Guarded.lift_ok, Guarded.done_bind, hcut]
    simp [hclose, Expr.normalizePieces, Guarded.sure_done]
  | case3 rest before behind hcut index after hclose ih =>
    have hafter := (PathText.isPart_of_cut? hcut hclose).2
    have hindex := h index (by simp)
    have hrest := ih ((Text.size_le_of_isInfix hafter.isInfix).trans hsize) fun index hindex =>
      h index (by simp [hindex])
    rw [normalize, bracketed?_eq hsize, Guarded.lift_ok, Guarded.done_bind, hcut]
    simp only [hclose, Option.map_some]
    rw [dif_pos hafter.length_lt, position?_eq hindex, hrest, Expr.normalizePieces,
      Expr.normalizePieces]
    -- Whether the position is written or computed, the rest of the path is read in the same way.
    have hround (i : Nat) :
        (do
          let text ← sure (Expr.normalizePieces (Expr.value? scope) (PathText.pieces after))
          pure (text.map fun text => before ++ ('[' :: (toString i).toList ++ ']' :: text)) :
            Guarded (Option (List Char))) =
        sure ((Expr.withIndex i
          (Expr.normalizePieces (Expr.value? scope) (PathText.pieces after))).bind fun text =>
            .done (text.map (before ++ ·))) := by
      rw [Expr.withIndex, Reading.bind_assoc, Guarded.sure_bind]
      simp only [Reading.done_bind, Guarded.sure_done, Option.map_map]
      rfl
    cases Text.index? (Text.trim index) with
    | some i => exact hround i
    | none =>
      simp only
      rw [Guarded.bind_of_sure, Reading.bind_assoc, Reading.bind_assoc, Guarded.sure_bind,
        Guarded.bind_of_sure]
      refine congrArg (Reading.bind _) (funext fun value => ?_)
      cases Expr.position? value with
      | some i => exact hround i
      | none => rfl

theorem readPath_eq {path : List Char} (hsize : size path ≤ Text.maxIndex)
    (h : Served scope call ⟨.path, path⟩) :
    readPath scope call path = sure (Expr.readPathText scope (Expr.value? scope) path) := by
  have hpieces := normalize_eq hsize fun index hindex =>
    h.of_isPart .value (PathText.isPart_of_mem_pieces hindex).trim
  rw [readPath, hpieces, Expr.readPathText, Guarded.sure_bind]
  refine congrArg (sure _ >>= ·) (funext fun text => ?_)
  cases text <;> rfl

/-- A text that is handed over makes the calls that the whole may make. -/
theorem Served.mono {routine : Routine} {text whole : List Char}
    (h : Served scope call ⟨routine, whole⟩) (htext : text <:+: whole) :
    Served scope call ⟨routine, text⟩ := by
  intro callee hcallee
  refine h callee ⟨hcallee.1.trans htext, ?_⟩
  exact hcallee.2.imp_left fun hlt => hlt.trans_le htext.length_le

section Value

variable {text : List Char} (hsize : size text ≤ Text.maxIndex)
  (h : Served scope call ⟨.value, text⟩)

include hsize h

theorem arrayForm_eq :
    arrayForm call text = sure (Expr.arrayForm scope (Expr.value? scope) text) := by
  have hlength := (Text.length_le_size text).trans hsize
  rw [arrayForm, contains?_eq hlength, helper?_eq hlength, indexed?_eq hsize, Expr.arrayForm]
  simp only [Guarded.lift_ok, Guarded.done_bind]
  cases hcontains : Expr.contains? text with
  | some parts =>
    obtain ⟨base, argument⟩ := parts
    obtain ⟨hbase, hargument⟩ := Expr.isPart_of_contains? hcontains
    simp only
    rw [evaluate_eq (h.of_isPart .value hargument), h.of_isPart .path hbase]
    simp only [Guarded.sure_bind, Guarded.sure_done]
    rfl
  | none =>
    cases hhelper : Expr.helper? text with
    | some parts =>
      obtain ⟨helper, base⟩ := parts
      simp only
      rw [h.of_isPart .path (Expr.isPart_of_helper? hhelper), Guarded.sure_bind]
      rfl
    | none =>
      cases hindexed : Expr.indexed? text with
      | none => rfl
      | some parts =>
        obtain ⟨base, index⟩ := parts
        obtain ⟨hbase, hindex⟩ := Expr.isPart_of_indexed? hindexed
        by_cases hpath : Expr.isPathText base
        · simp only [Option.filter, hpath, if_true]
          rw [evaluate_eq (h.of_isPart .value hindex), h.of_isPart .path hbase]
          simp only [Guarded.sure_bind, Guarded.sure_done]
          rfl
        · simp only [Option.filter, hpath, Bool.false_eq_true, if_false]
          rfl

theorem plainForm_eq :
    plainForm call text = sure (Expr.plainForm scope (Expr.value? scope) text) := by
  rw [plainForm, Expr.plainForm]
  by_cases hopener : Text.includes Expr.opener text
  · rw [if_pos hopener, if_pos hopener, h.of_handsOver .template (List.infix_refl text) rfl,
      Guarded.sure_bind]
    rfl
  · have hreduce : reduce (fun operand => do return (← evaluate call operand).int?) text =
        sure (Arithmetic.evaluate (fun operand =>
          (Expr.evalWith (Expr.value? scope) operand).bind fun value => .done value.int?) text) :=
      reduce_eq hsize fun tokens hspells hany path hpath => by
        rw [evaluate_eq (h.of_isPart .value (hspells.isPart hpath hany))]
        exact (Guarded.sure_bind (Expr.eval scope path) fun value => .done value.int?).symm
    rw [if_neg hopener, if_neg hopener, hreduce, Guarded.sure_bind]
    refine congrArg (sure _ >>= ·) (funext fun outcome => ?_)
    cases outcome with
    | value n => rfl
    | divisionByZero => rfl
    | notArithmetic =>
      cases Expr.literal? text with
      | some value => rfl
      | none => exact h.of_handsOver .path (List.infix_refl text) rfl

theorem resolve_eq : resolve call text = sure (if text.isEmpty then .done (some .null) else
    match Expr.withoutParens? text with
    | some inner => Expr.value? scope inner
    | none =>
      match Expr.ternary? text with
      | some (condition, whenTrue, whenFalse) => (Expr.holds scope condition).bind fun b =>
        Expr.value? scope (if b then whenTrue else whenFalse)
      | none =>
        match Expr.unquoted? text with
        | some inner =>
          if Text.includes Expr.opener inner then (Expr.fill scope inner).bind fun s =>
            .done (some (.string (String.ofList s)))
          else .done (some (.string (String.ofList inner)))
        | none => (Expr.arrayForm scope (Expr.value? scope) text).bind fun
          | some value => .done (some value)
          | none => Expr.plainForm scope (Expr.value? scope) text) := by
  have hlength := (Text.length_le_size text).trans hsize
  rw [resolve, withoutParens?_eq hlength, ternary?_eq hsize]
  simp only [Guarded.lift_ok, Guarded.done_bind]
  by_cases hempty : text.isEmpty
  · rw [if_pos hempty, if_pos hempty]
    rfl
  rw [if_neg hempty, if_neg hempty]
  cases hparens : Expr.withoutParens? text with
  | some inner => exact h.of_isPart .value (Expr.isPart_of_withoutParens? hparens)
  | none =>
    cases hternary : Expr.ternary? text with
    | some parts =>
      obtain ⟨condition, whenTrue, whenFalse⟩ := parts
      obtain ⟨hcondition, htrue, hfalse⟩ := Expr.isPart_of_ternary? hternary
      simp only
      rw [h.of_isPart .condition hcondition, Guarded.sure_bind]
      refine congrArg (sure _ >>= ·) (funext fun b => ?_)
      cases b with
      | true => exact h.of_isPart .value htrue
      | false => exact h.of_isPart .value hfalse
    | none =>
      cases hquoted : Expr.unquoted? text with
      | some inner =>
        simp only
        split
        · rw [h.of_isPart .template (Expr.isPart_of_unquoted? hquoted), Guarded.sure_bind]
          rfl
        · rfl
      | none =>
        simp only
        rw [arrayForm_eq hsize h, Guarded.sure_bind]
        refine congrArg (sure _ >>= ·) (funext fun value => ?_)
        cases value with
        | some value => rfl
        | none => exact plainForm_eq hsize h

end Value

/-- A routine does not go wrong if the calls that it may make do not. -/
theorem body_eq (hsize : size caller.text ≤ Text.maxIndex) (h : Served scope call caller) :
    body scope call caller = sure (answer scope caller) := by
  obtain ⟨routine, text⟩ := caller
  cases routine with
  | value =>
    have htrim := Text.trim_isInfix text
    refine (resolve_eq ((Text.size_le_of_isInfix htrim).trans hsize) (h.mono htrim)).trans ?_
    exact congrArg sure (Expr.value?_eq_step scope text).symm
  | template =>
    exact interpolate_eq hsize fun body hbody =>
      h.of_isPart .value (Template.isPart_of_mem_pieces hbody)
  | condition => exact condition_eq hsize h
  | path => exact readPath_eq hsize h

end Served

/-! ### Calls that do not go wrong -/

/-- No call goes wrong, and no nested call is refused: each has the answer that the evaluation
gives. -/
theorem run_eq (scope : Scope) (caller : Call) (hsize : size caller.text ≤ Text.maxIndex) :
    run scope caller = sure (answer scope caller) := by
  -- The bound on the size is kept along nested calls, since they get parts of the text.
  fun_induction run scope caller with
  | case1 caller ih =>
    refine body_eq hsize fun callee hcallee => ?_
    rw [dif_pos hcallee]
    exact ih callee hcallee ((Text.size_le_of_isInfix hcallee.1).trans hsize)

/-- Evaluation ends, and nothing goes wrong in it, on each text whose bytes can be counted. All cuts
are in range and between characters, all counts and accesses are in range, no call is refused, and
the results are those of the evaluation. A call that a call may make gets less text, or the text of
the caller in one of three hand-overs; none of these can happen twice on the same text, and no chain
of calls goes on forever. -/
theorem evaluation_without_fault (scope : Scope) (text : List Char)
    (hsize : size text ≤ Text.maxIndex) :
    (∀ store : Store,
      (evaluate (run scope) text).run.value store.get? =
          .ok ((Expr.eval scope text).value store.get?) ∧
        (run scope ⟨.template, text⟩).run.value store.get? =
          .ok ((Expr.fill scope text).value store.get?) ∧
        (run scope ⟨.condition, text⟩).run.value store.get? =
          .ok ((Expr.holds scope text).value store.get?)) ∧
    (∀ callee caller : Call, Nested callee caller →
      callee.text.length < caller.text.length ∨
        callee.text = caller.text ∧ (caller.routine, callee.routine) ∈
          [(.condition, .value), (.value, .template), (.value, .path)]) ∧
    (∀ callee caller : Call, Relation.TransGen Nested callee caller →
      callee.routine = caller.routine → callee.text.length < caller.text.length) ∧
    WellFounded Nested := by
  refine ⟨fun store => ⟨?_, ?_, ?_⟩, fun callee caller => Nested.length_lt_or,
    fun callee caller => length_lt_of_transGen, wellFounded_nested⟩
  · rw [evaluate_eq (run_eq scope ⟨.value, text⟩ hsize)]
    exact Guarded.value_sure _ _
  · rw [run_eq scope ⟨.template, text⟩ hsize]
    exact Guarded.value_sure _ _
  · rw [run_eq scope ⟨.condition, text⟩ hsize]
    exact Guarded.value_sure _ _

/-- A placeholder that is filled and one that is never closed, between characters of two bytes. -/
theorem evaluation_without_fault_unclosed :
    (run (Scope.empty.push [("n", ⟨.int 2, none⟩)])
        ⟨.template, "é$\x7b1 + n\x7d $\x7bü".toList⟩).run.value Store.empty.get? =
      .ok "é3 $\x7bü".toList := by
  have hsize : size "é$\x7b1 + n\x7d $\x7bü".toList ≤ Text.maxIndex := by decide
  refine ((evaluation_without_fault _ _ hsize).1 .empty).2.1.trans (congrArg Except.ok ?_)
  decide +kernel

end Checked

end ScreenDoc
