import ScreenDoc.Expr.Eval

/-!
# Bound values

A value on the screen is fixed, or it follows a place in the state, or it follows a template.

## Main definitions

- `Bound` — a value, with where it comes from
- `Bound.current`, `Bound.text`, `Bound.truth`, `Bound.asFloat?` — what is shown now
- `Bound.reading` — the evaluation behind it
- `Bound.refresh` — the value for the present state
-/

namespace ScreenDoc

/-- The value at a path. A path that leads nowhere is tried as an expression, such as
`items.count`, and counts as null if it only stands for its own text. -/
def followPath (scope : Scope) (path : String) : Reading Value :=
  (scope.read path.toList).bind fun
    | some value => .done value
    | none => (Expr.eval scope path.toList).bind fun
      | .string s => .done (if s.toList = Text.trim path.toList then .null else .string s)
      | value => .done value

/-- A value that is fixed or follows the state. -/
inductive Bound where
  /-- A fixed value. -/
  | literal (value : Value)
  /-- The value at a place in the state. -/
  | binding (path : String) (current : Value)
  /-- The text of a template, with the iteration variables that it may use. -/
  | template (template : String) (current : String) (scope : Scope)

namespace Bound

instance : Inhabited Bound := ⟨.literal .null⟩

/-- The present value. -/
def current : Bound → Value
  | .literal value => value
  | .binding _ value => value
  | .template _ shown _ => .string shown

/-- The present value as text. -/
def text : Bound → String
  | .literal value => value.text
  | .binding _ value => value.text
  | .template _ shown _ => shown

/-- The present value as a truth value; what is no boolean is false. -/
def truth : Bound → Bool
  | .literal value => value.bool?.getD false
  | .binding _ value => value.bool?.getD false
  | .template _ shown _ => shown = "true"

/-- The present value as a number. The text of a template is read as a number. -/
def asFloat? : Bound → Option Float
  | .literal value => value.float?
  | .binding _ value => value.float?
  | .template _ shown _ => Decimal.float? (Text.trim shown.toList)

/-- The path of a binding. -/
def path? : Bound → Option String
  | .binding path _ => some path
  | _ => none

/-- Whether a value can change with the state. -/
def isLive : Bound → Bool
  | .literal _ => false
  | _ => true

/-- The evaluation behind a value, over the scope that it was made in. -/
def reading : Bound → Reading Bound
  | .literal value => .done (.literal value)
  | .binding path _ => (followPath .empty path).bind fun value => .done (.binding path value)
  | .template source _ scope => (Expr.fill scope source.toList).bind fun text =>
    .done (.template source (String.ofList text) scope)

/-- The template of a value over the present values of its iteration variables. -/
def rescoped (store : Store) : Bound → Bound
  | .template source shown scope => .template source shown (scope.refreshed store)
  | bound => bound

/-- A value with another present value, all else as before. -/
def withCurrent (bound next : Bound) : Bound :=
  match bound, next with
  | .binding path _, .binding _ value => .binding path value
  | .template source _ scope, .template _ shown _ => .template source shown scope
  | bound, _ => bound

/-- Whether two values show different things. -/
def differs : Bound → Bound → Bool
  | .binding _ a, .binding _ b => !(a == b)
  | .template _ a _, .template _ b _ => a ≠ b
  | _, _ => false

/-- A value for the present state, and whether it changed. -/
def refresh (store : Store) (bound : Bound) : Bound × Bool :=
  let next := ((bound.rescoped store).reading).value store.get?
  (bound.withCurrent next, bound.differs next)

end Bound

end ScreenDoc
