import ScreenDoc.Proofs.Arithmetic.Words
import ScreenDoc.Proofs.Checked.Slice
import ScreenDoc.Proofs.Expr.Shorter
import ScreenDoc.Proofs.Expr.Within

/-!
# Checked arithmetic

The reduction of arithmetic, as a machine runs it: the words of a text are cut out at the byte
positions that the scanner reports, and a parser goes through the list of words with a cursor. The
cursor stays in range, and the parser never runs out of fuel.

## Main definitions

- `Guarded` — a computation that reads the state and can go wrong
- `Guarded.sure` — a computation in which nothing goes wrong
- `Checked.words?` — the words of a text, cut at their spans
- `Checked.reduce` — the reduction of a text
- `Checked.Follows` — a parser with a cursor that does what a parser of lists does

## Main results

- `Checked.words?_eq` — the words are cut without a fault
- `Checked.follows_levels` — all levels of the grammar follow those on lists
- `Checked.reduce_eq` — the reduction of a text goes without a fault

## Design notes

Between two words that are consumed there are at most three nested calls, and each level has its own
bound on the fuel, which says how many of the three are still to come.
-/

namespace ScreenDoc

/-- A computation that reads the state and can go wrong. -/
abbrev Guarded (α : Type) := ExceptT Fault Reading α

namespace Guarded

variable {α β : Type}

/-- A computation in which nothing goes wrong. -/
def sure (r : Reading α) : Guarded α :=
  ExceptT.mk (r.bind fun a => .done (.ok a))

theorem sure_done (a : α) : sure (.done a) = pure a := rfl

/-- What follows on a computation in which nothing goes wrong is put to its result. -/
theorem bind_of_sure (r : Reading α) (f : α → Guarded β) : sure r >>= f = Reading.bind r f := by
  induction r with
  | done a => rfl
  | ask path next ih => exact congrArg (Reading.ask path) (funext ih)

theorem sure_bind (r : Reading α) (f : α → Reading β) :
    sure (r.bind f) = sure r >>= fun a => sure (f a) :=
  (Reading.bind_assoc r f _).trans (bind_of_sure r _).symm

/-- The result of a computation in which nothing goes wrong. -/
theorem value_sure (answers : Path → Option Value) (r : Reading α) :
    (sure r).run.value answers = .ok (r.value answers) :=
  Reading.value_bind answers r _

theorem done_bind (a : α) (f : α → Guarded β) : (pure a : Guarded α) >>= f = f a := rfl

theorem lift_ok (a : α) : (liftM (Except.ok a : Except Fault α) : Guarded α) = pure a := rfl

end Guarded

namespace Checked

open Guarded (sure)
open Text (size slice)

/-! ### Words -/

/-- The words of a text with the byte positions of their start and end, given that of the text. -/
def spans? (i : Nat) (text : List Char) : Option (List (Token × Nat × Nat)) :=
  let start := i + size (text.takeWhile Token.isSpace)
  match _h : Token.next? (text.dropWhile Token.isSpace) with
  | some (token, rest) =>
    let stop := start + size token.text
    (spans? stop rest).map ((token, start, stop) :: ·)
  | none => if (text.dropWhile Token.isSpace).isEmpty then some [] else none
termination_by text.length
decreasing_by
  have hlt := Token.length_lt_of_next? _h
  have hle := (List.dropWhile_sublist Token.isSpace (l := text)).length_le
  omega

/-- A word of the same kind with another text. -/
def respell : Token → List Char → Token
  | .integer _, digits => .integer digits
  | .path _, text => .path text
  | token, _ => token

/-- The words at some spans of a text, each with what stands there. -/
def cutWords (text : List Char) : List (Token × Nat × Nat) → Except Fault (List Token)
  | [] => return []
  | (token, start, stop) :: spans => do
    let part ← slice text start stop
    return respell token part :: (← cutWords text spans)

/-- The words of a text, each cut out of it. -/
def words? (text : List Char) : Except Fault (Option (List Token)) :=
  match spans? 0 text with
  | none => return none
  | some spans => do return some (← cutWords text spans)

theorem respell_text (token : Token) : respell token token.text = token := by
  cases token <;> rfl

/-- The spans lie between characters, and the words stand there. -/
theorem cutWords_spans? (front text : List Char) :
    (spans? (size front) text).map (cutWords (front ++ text)) =
      (Token.scan? text).map Except.ok := by
  generalize hi : size front = i
  fun_induction spans? i text generalizing front with
  | case1 i text start token rest hnext stop ih =>
    obtain ⟨hword, -⟩ := Token.eq_append_of_next? hnext
    have htext : text = text.takeWhile Token.isSpace ++ (token.text ++ rest) := by
      rw [← hword, List.takeWhile_append_dropWhile]
    have hstart : start = size (front ++ text.takeWhile Token.isSpace) := by
      rw [Text.size_append, hi]
    have hrest := ih (front ++ text.takeWhile Token.isSpace ++ token.text) (by
      rw [Text.size_append, ← hstart])
    have hwhole : front ++ text.takeWhile Token.isSpace ++ token.text ++ rest = front ++ text := by
      simp only [List.append_assoc]
      rw [← htext]
    have hslice : slice (front ++ text) start stop = .ok token.text :=
      Text.slice_eq_ok (front ++ text.takeWhile Token.isSpace) rest hwhole.symm hstart
        (by rw [← hstart])
    rw [hwhole] at hrest
    rw [Token.scan?_of_next? hnext]
    cases hspans : spans? stop rest with
    | none =>
      rw [hspans] at hrest
      rw [Option.map_eq_none_iff.mp hrest.symm]
      rfl
    | some spans =>
      rw [hspans, Option.map_some] at hrest
      obtain ⟨tokens, htokens, hcut⟩ := Option.map_eq_some_iff.mp hrest.symm
      rw [htokens]
      simp only [Option.map_some, cutWords, hslice, Fault.ok_bind, respell_text, ← hcut,
        Fault.pure_eq]
  | case2 i text hnext hblank =>
    rw [Token.scan?_of_blank (List.isEmpty_iff.mp hblank)]
    rfl
  | case3 i text hnext hblank =>
    rw [Token.scan?]
    split
    · next h => rw [hnext] at h; cases h
    · rw [if_neg hblank]; rfl

/-- The words of a text are cut out without a fault. -/
theorem words?_eq (text : List Char) : words? text = .ok (Token.scan? text) := by
  have hcut := cutWords_spans? [] text
  rw [Text.size_nil, List.nil_append] at hcut
  rw [words?]
  cases hspans : spans? 0 text with
  | none =>
    rw [hspans] at hcut
    rw [Option.map_eq_none_iff.mp hcut.symm]
    rfl
  | some spans =>
    rw [hspans, Option.map_some] at hcut
    obtain ⟨tokens, htokens, hok⟩ := Option.map_eq_some_iff.mp hcut.symm
    simp only [← hok, htokens, Fault.ok_bind, Fault.pure_eq]

/-! ### The parser -/

/-- A value and the number of the word behind it, or a failure. -/
abbrev Place := Except Arithmetic.Stop (Int × Nat)

/-- Continues with a value and the number of the word behind it. -/
def andThen (step : Guarded Place) (next : Int → Nat → Guarded Place) : Guarded Place := do
  match ← step with
  | .ok (n, cursor) => next n cursor
  | .error stop => return .error stop

/-- A value that is ready. -/
def ready (result : Except Arithmetic.Stop Int) (cursor : Nat) : Place :=
  result.map fun n => (n, cursor)

section Levels

variable (operand : List Char → Guarded (Option Int64)) (tokens : List Token)

mutual

/-- Sums and differences of products. -/
def sum : Nat → Nat → Guarded Place
  | 0, _ => throw .endless
  | fuel + 1, cursor => andThen (product fuel cursor) (sumRest fuel)

/-- The operations that follow a first summand. -/
def sumRest : Nat → Int → Nat → Guarded Place
  | 0, _, _ => throw .endless
  | fuel + 1, acc, cursor =>
    match tokens[cursor]?.bind Arithmetic.sumOperator? with
    | none => return .ok (acc, cursor)
    | some op => do
      let next ← Fault.add cursor 1
      andThen (product fuel next) fun rhs cursor =>
        andThen (return ready (op.apply acc rhs) cursor) (sumRest fuel)

/-- Products, quotients and remainders of factors. -/
def product : Nat → Nat → Guarded Place
  | 0, _ => throw .endless
  | fuel + 1, cursor => andThen (factor fuel cursor) (productRest fuel)

/-- The operations that follow a first factor. -/
def productRest : Nat → Int → Nat → Guarded Place
  | 0, _, _ => throw .endless
  | fuel + 1, acc, cursor =>
    match tokens[cursor]?.bind Arithmetic.productOperator? with
    | none => return .ok (acc, cursor)
    | some op => do
      let next ← Fault.add cursor 1
      andThen (factor fuel next) fun rhs cursor =>
        andThen (return ready (op.apply acc rhs) cursor) (productRest fuel)

/-- A factor: a literal, a path, a negation or a sum in parentheses. -/
def factor : Nat → Nat → Guarded Place
  | 0, _ => throw .endless
  | fuel + 1, cursor =>
    match tokens[cursor]? with
    | none => return .error .invalid
    | some token => do
      let next ← Fault.add cursor 1
      match token with
      | .minus =>
        andThen (factor fuel next) fun n cursor => return ready (Arithmetic.checked (-n)) cursor
      | .integer digits => return ready (Arithmetic.checked (Text.digitsValue digits)) next
      | .path text =>
        match ← operand text with
        | some n => return .ok (n.toInt, next)
        | none => return .error .invalid
      | .parenOpen => andThen (sum fuel next) fun n cursor =>
        if tokens[cursor]? = some .parenClose then do return .ok (n, ← Fault.add cursor 1)
        else return .error .invalid
      | _ => return .error .invalid

end

end Levels

/-- The reduction of a text. -/
def reduce (operand : List Char → Guarded (Option Int64)) (text : List Char) :
    Guarded Arithmetic.Outcome := do
  match ← words? text with
  | none => return .notArithmetic
  | some tokens =>
    if tokens.any Token.isOperator then
      match ← sum operand tokens (4 * tokens.length + 4) 0 with
      | .ok (n, cursor) =>
        return if cursor = tokens.length then .value (Int64.ofInt n) else .notArithmetic
      | .error .invalid => return .notArithmetic
      | .error .divisionByZero => return .divisionByZero
    else return .notArithmetic

/-! ### Cursors and lists -/

/-- A step with the cursor in the place of the words that are left. -/
def located (tokens : List Token) (step : Arithmetic.Step) : Place :=
  step.map fun (n, rest) => (n, tokens.length - rest.length)

/-- Whether the words that are left after a step are those from a place on, or from a later one. -/
def LeavesFrom (tokens : List Token) (low : Nat) : Arithmetic.Step → Prop
  | .ok (_, rest) => ∃ cursor, low ≤ cursor ∧ cursor ≤ tokens.length ∧ rest = tokens.drop cursor
  | .error _ => True

/-- A computation with a cursor that does what a computation on lists does, and that does not leave
the cursor in front of a place. -/
structure Follows (tokens : List Token) (low : Nat) (checked : Guarded Place)
    (r : Reading Arithmetic.Step) : Prop where
  eq_sure : checked = sure (r.bind fun step => .done (located tokens step))
  ends : r.Ends (LeavesFrom tokens low)

section Follows

variable {tokens : List Token} {low cursor : Nat}

theorem located_drop (n : Int) (h : cursor ≤ tokens.length) :
    located tokens (.ok (n, tokens.drop cursor)) = .ok (n, cursor) := by
  have hsub : tokens.length - (tokens.drop cursor).length = cursor := by
    rw [List.length_drop]
    omega
  exact congrArg (fun i => Except.ok (n, i)) hsub

theorem Follows.ready (hlow : low ≤ cursor) (hle : cursor ≤ tokens.length)
    (result : Except Arithmetic.Stop Int) :
    Follows tokens low (pure (ready result cursor))
      (.done (Arithmetic.ready result (tokens.drop cursor))) := by
  cases result with
  | error stop => exact ⟨rfl, trivial⟩
  | ok n =>
    refine ⟨?_, cursor, hlow, hle, rfl⟩
    show pure (Except.ok (n, cursor)) =
      sure (.done (located tokens (.ok (n, tokens.drop cursor))))
    rw [located_drop n hle]
    rfl

theorem Follows.error (stop : Arithmetic.Stop) :
    Follows tokens low (pure (.error stop)) (.done (.error stop)) :=
  ⟨rfl, trivial⟩

theorem Follows.mono {checked : Guarded Place} {r : Reading Arithmetic.Step}
    (h : Follows tokens cursor checked r) (hle : low ≤ cursor) : Follows tokens low checked r := by
  refine ⟨h.eq_sure, ?_⟩
  rw [← r.bind_done]
  refine h.ends.bind fun step hstep => ?_
  cases step with
  | error stop => trivial
  | ok parts =>
    obtain ⟨next, hnext, hlength, hrest⟩ := hstep
    exact ⟨next, hle.trans hnext, hlength, hrest⟩

theorem Follows.bind {α : Type} (r : Reading α) {checked : α → Guarded Place}
    {next : α → Reading Arithmetic.Step} (h : ∀ a, Follows tokens low (checked a) (next a)) :
    Follows tokens low (sure r >>= checked) (r.bind next) := by
  constructor
  · rw [Guarded.bind_of_sure, Reading.bind_assoc, Guarded.sure_bind, Guarded.bind_of_sure]
    exact congrArg (Reading.bind r) (funext fun a => (h a).eq_sure)
  · exact r.ends_true.bind fun a _ => (h a).ends

theorem Follows.andThen {checked : Guarded Place} {r : Reading Arithmetic.Step}
    {next : Int → Nat → Guarded Place} {next' : Int → List Token → Reading Arithmetic.Step}
    (h : Follows tokens low checked r)
    (hnext : ∀ n i, low ≤ i → i ≤ tokens.length →
      Follows tokens low (next n i) (next' n (tokens.drop i))) :
    Follows tokens low (andThen checked next) (Arithmetic.andThen r next') := by
  obtain ⟨rfl, hends⟩ := h
  constructor
  · rw [Checked.andThen, Guarded.bind_of_sure, Reading.bind_assoc, Arithmetic.andThen,
      Reading.bind_assoc, Guarded.sure_bind, Guarded.bind_of_sure]
    refine hends.bind_congr fun step hstep => ?_
    cases step with
    | error stop => rfl
    | ok parts =>
      obtain ⟨n, rest⟩ := parts
      obtain ⟨i, hi, hlength, rfl⟩ := hstep
      rw [located_drop n hlength]
      exact (hnext n i hi hlength).eq_sure
  · refine hends.bind fun step hstep => ?_
    cases step with
    | error stop => trivial
    | ok parts =>
      obtain ⟨n, rest⟩ := parts
      obtain ⟨i, hi, hlength, rfl⟩ := hstep
      exact (hnext n i hi hlength).ends

end Follows

section Levels

variable {tokens : List Token} {operand' : List Char → Guarded (Option Int64)}
  {operand : List Char → Reading (Option Int64)}
  (hoperand : ∀ text, .path text ∈ tokens → operand' text = sure (operand text))
  (hbound : tokens.length ≤ Text.maxIndex)

theorem drop_of_getElem? {cursor : Nat} {token : Token} (h : tokens[cursor]? = some token) :
    tokens.drop cursor = token :: tokens.drop (cursor + 1) := by
  rw [List.drop_eq_getElem?_toList_append, h, Option.toList_some, List.singleton_append]

theorem drop_of_getElem?_eq_none {cursor : Nat} (h : tokens[cursor]? = none) :
    tokens.drop cursor = [] :=
  List.drop_eq_nil_of_le (List.getElem?_eq_none_iff.mp h)

include hbound

theorem Follows.next {cursor : Nat} {token : Token} (hget : tokens[cursor]? = some token)
    {checked : Nat → Guarded Place} {r : Reading Arithmetic.Step}
    (h : cursor + 1 ≤ tokens.length → Follows tokens (cursor + 1) (checked (cursor + 1)) r) :
    Follows tokens cursor (do checked (← Fault.add cursor 1)) r := by
  obtain ⟨hlt, -⟩ := List.getElem?_eq_some_iff.mp hget
  rw [Fault.add_eq_ok (by omega), Guarded.lift_ok, Guarded.done_bind]
  exact (h hlt).mono (Nat.le_succ cursor)

/-- The parenthesis that closes a sum. -/
theorem Follows.close (n : Int) (cursor : Nat) :
    Follows tokens cursor
      (if tokens[cursor]? = some .parenClose then do return .ok (n, ← Fault.add cursor 1)
        else return .error .invalid)
      (match tokens.drop cursor with
        | .parenClose :: rest => .done (.ok (n, rest))
        | _ => .done (.error .invalid)) := by
  cases hget : tokens[cursor]? with
  | none =>
    rw [drop_of_getElem?_eq_none hget, if_neg (by simp)]
    exact .error _
  | some token =>
    rw [drop_of_getElem? hget]
    by_cases hclose : token = .parenClose
    · subst hclose
      rw [if_pos rfl]
      refine Follows.next hbound hget fun hlt => ?_
      exact .ready (Nat.le_refl _) hlt (.ok n)
    · rw [if_neg (by simpa using hclose)]
      cases token with
      | parenClose => exact absurd rfl hclose
      | _ => exact .error _

/-- The operations that follow a first operand. -/
theorem Follows.operations (operator? : Token → Option Arithmetic.Operator) (acc : Int)
    {cursor : Nat} (hle : cursor ≤ tokens.length)
    {level : Nat → Guarded Place} {level' : List Token → Reading Arithmetic.Step}
    (hlevel : ∀ i, cursor < i → i ≤ tokens.length →
      Follows tokens i (level i) (level' (tokens.drop i)))
    {more : Int → Nat → Guarded Place} {more' : Int → List Token → Reading Arithmetic.Step}
    (hmore : ∀ acc i, cursor < i → i ≤ tokens.length →
      Follows tokens i (more acc i) (more' acc (tokens.drop i))) :
    Follows tokens cursor
      (match tokens[cursor]?.bind operator? with
        | none => return .ok (acc, cursor)
        | some op => do
          let next ← Fault.add cursor 1
          Checked.andThen (level next) fun rhs cursor =>
            Checked.andThen (return Checked.ready (op.apply acc rhs) cursor) more)
      (match tokens.drop cursor with
        | [] => .done (.ok (acc, []))
        | token :: rest =>
          match operator? token with
          | none => .done (.ok (acc, token :: rest))
          | some op => Arithmetic.andThen (level' rest) fun rhs rest =>
            Arithmetic.andThen (.done (Arithmetic.ready (op.apply acc rhs) rest)) more') := by
  have hstay : Follows tokens cursor (pure (.ok (acc, cursor)))
      (.done (.ok (acc, tokens.drop cursor))) := .ready (Nat.le_refl _) hle (.ok acc)
  cases hget : tokens[cursor]? with
  | none =>
    rw [drop_of_getElem?_eq_none hget] at hstay ⊢
    exact hstay
  | some token =>
    rw [drop_of_getElem? hget] at hstay ⊢
    simp only [Option.bind_some]
    cases operator? token with
    | none => exact hstay
    | some op =>
      refine Follows.next hbound hget fun hlt => ?_
      refine (hlevel _ (Nat.lt_succ_self _) hlt).andThen fun rhs i hi hlength => ?_
      refine (Follows.ready hi hlength _).andThen fun acc j hj hend => ?_
      exact (hmore acc j hj hend).mono hj

include hoperand

/-- All levels of the grammar follow those on lists. -/
theorem follows_levels (fuel : Nat) :
    (∀ cursor ≤ tokens.length, 3 * (tokens.length - cursor) + 3 ≤ fuel →
        Follows tokens cursor (sum operand' tokens fuel cursor)
          (Arithmetic.sum operand fuel (tokens.drop cursor))) ∧
      (∀ acc, ∀ cursor ≤ tokens.length, 3 * (tokens.length - cursor) + 1 ≤ fuel →
        Follows tokens cursor (sumRest operand' tokens fuel acc cursor)
          (Arithmetic.sumRest operand fuel acc (tokens.drop cursor))) ∧
      (∀ cursor ≤ tokens.length, 3 * (tokens.length - cursor) + 2 ≤ fuel →
        Follows tokens cursor (product operand' tokens fuel cursor)
          (Arithmetic.product operand fuel (tokens.drop cursor))) ∧
      (∀ acc, ∀ cursor ≤ tokens.length, 3 * (tokens.length - cursor) + 1 ≤ fuel →
        Follows tokens cursor (productRest operand' tokens fuel acc cursor)
          (Arithmetic.productRest operand fuel acc (tokens.drop cursor))) ∧
      ∀ cursor ≤ tokens.length, 3 * (tokens.length - cursor) + 1 ≤ fuel →
        Follows tokens cursor (factor operand' tokens fuel cursor)
          (Arithmetic.factor operand fuel (tokens.drop cursor)) := by
  -- A call at the same place spends one of the three units between the bounds of the levels, and
  -- each word that is passed gives three more.
  induction fuel with
  | zero => refine ⟨?_, ?_, ?_, ?_, ?_⟩ <;> intros <;> omega
  | succ fuel ih =>
    obtain ⟨hsum, hsumRest, hproduct, hproductRest, hfactor⟩ := ih
    refine ⟨fun cursor hle hfuel => ?_, fun acc cursor hle hfuel => ?_, fun cursor hle hfuel => ?_,
      fun acc cursor hle hfuel => ?_, fun cursor hle hfuel => ?_⟩
    · rw [sum, Arithmetic.sum]
      refine (hproduct cursor hle (by omega)).andThen fun n i hi hlength => ?_
      exact (hsumRest n i hlength (by omega)).mono hi
    · rw [sumRest]
      exact .operations hbound _ acc hle (fun i hi hlength => hproduct i hlength (by omega))
        fun acc i hi hlength => hsumRest acc i hlength (by omega)
    · rw [product, Arithmetic.product]
      refine (hfactor cursor hle (by omega)).andThen fun n i hi hlength => ?_
      exact (hproductRest n i hlength (by omega)).mono hi
    · rw [productRest]
      exact .operations hbound _ acc hle (fun i hi hlength => hfactor i hlength (by omega))
        fun acc i hi hlength => hproductRest acc i hlength (by omega)
    · rw [factor]
      cases hget : tokens[cursor]? with
      | none =>
        rw [drop_of_getElem?_eq_none hget]
        exact .error _
      | some token =>
        rw [drop_of_getElem? hget]
        refine Follows.next hbound hget fun hlt => ?_
        cases token with
        | minus =>
          refine (hfactor (cursor + 1) hlt (by omega)).andThen fun n i hi hlength => ?_
          exact .ready hi hlength _
        | integer digits => exact .ready (Nat.le_refl _) hlt _
        | path text =>
          simp only
          rw [hoperand text (List.mem_of_getElem? hget)]
          refine .bind _ fun n => ?_
          cases n with
          | none => exact .error _
          | some n => exact .ready (Nat.le_refl _) hlt (.ok n.toInt)
        | parenOpen =>
          refine (hsum (cursor + 1) hlt (by omega)).andThen fun n i hi hlength => ?_
          exact (Follows.close hbound n i).mono hi
        | _ => exact .error _

end Levels

/-! ### The reduction -/

/-- There are no more words than characters. -/
theorem length_le_of_spells {text : List Char} {tokens : List Token}
    (h : Token.Spells text tokens) : tokens.length ≤ text.length := by
  induction h with
  | nil => exact Nat.zero_le _
  | @cons blanks rest token tokens hblanks hword hrest ih =>
    have hpos : 0 < token.text.length := by
      cases hword with
      | integer hne => exact List.length_pos_of_ne_nil hne
      | path => exact Nat.succ_pos _
      | sign h => cases token <;> first | exact Nat.one_pos | cases h
    simp only [List.length_cons, List.length_append]
    omega

/-- The reduction of a text goes without a fault if its operands do. -/
theorem reduce_eq {operand' : List Char → Guarded (Option Int64)}
    {operand : List Char → Reading (Option Int64)} {text : List Char}
    (hsize : size text ≤ Text.maxIndex)
    (hoperand : ∀ tokens, Token.Spells text tokens → tokens.any Token.isOperator →
      ∀ path, .path path ∈ tokens → operand' path = sure (operand path)) :
    reduce operand' text = sure (Arithmetic.evaluate operand text) := by
  rw [reduce, words?_eq, Guarded.lift_ok, Guarded.done_bind, Arithmetic.evaluate]
  cases hscan : Token.scan? text with
  | none => rfl
  | some tokens =>
    have hspells := Token.spells_of_scan? hscan
    by_cases hany : tokens.any Token.isOperator
    · have hbound : tokens.length ≤ Text.maxIndex :=
        (length_le_of_spells hspells).trans ((Text.length_le_size text).trans hsize)
      have hsum := (follows_levels (hoperand tokens hspells hany) hbound _).1 0 (Nat.zero_le _)
        (show _ ≤ 4 * tokens.length + 4 by omega)
      simp only [hany, if_true]
      rw [hsum.eq_sure, Guarded.bind_of_sure, Reading.bind_assoc, Arithmetic.evaluateTokens,
        Guarded.sure_bind, Guarded.bind_of_sure]
      refine hsum.ends.bind_congr fun step hstep => ?_
      cases step with
      | error stop => cases stop <;> rfl
      | ok parts =>
        obtain ⟨n, rest⟩ := parts
        obtain ⟨i, -, hlength, rfl⟩ := hstep
        rw [located_drop n hlength]
        cases hget : tokens[i]? with
        | none =>
          have hend : i = tokens.length :=
            Nat.le_antisymm hlength (List.getElem?_eq_none_iff.mp hget)
          rw [drop_of_getElem?_eq_none hget, hend]
          simp [Guarded.sure_done]
        | some token =>
          have hlt := (List.getElem?_eq_some_iff.mp hget).1
          rw [drop_of_getElem? hget]
          simp [Guarded.sure_done, Nat.ne_of_lt hlt]
    · simp [hany, Guarded.sure_done]

end Checked

end ScreenDoc
