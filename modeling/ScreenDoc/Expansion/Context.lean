import ScreenDoc.View.Basic
import ScreenDoc.View.Dependency
import ScreenDoc.View.Problem

/-!
# The context of expansion

What the expansion of a part of a document may consult: the document, the limits, the rules for
actions and the iteration scope. All access to the state goes through here, so that every read is
noted as a dependency of the view under construction.

## Main definitions

- `Limits` — the limits of expansion
- `Noting` — a computation that reads the state and notes dependencies and problems
- `Context` — what a computation may consult
- `Context.boundTemplate`, `Context.boundPath`, `Context.data` — values that follow the state
- `Context.itemsAt` — the array that an iteration runs over
- `Context.finalStyle`, `Context.boundAction` — styles and actions, with problems noted

## Design notes

A problem is noted, and something neutral takes the place of what has it: the inline properties
alone for a style, null for a value, and the action that does nothing for an action.
-/

namespace ScreenDoc

/-- The limits of expansion. -/
structure Limits where
  /-- How deep the layout may be nested. -/
  layout : Nat
  /-- How long a chain of styles may be. -/
  styles : Nat
  /-- How deep actions may be nested. -/
  actions : Nat
deriving DecidableEq, Repr

/-- The limits, unless told otherwise. -/
def Limits.standard : Limits :=
  ⟨64, StyleTable.defaultMaxDepth, ActionRules.defaultMaxDepth⟩

instance : Inhabited Limits := ⟨Limits.standard⟩

/-- A result with the dependencies and problems noted on the way to it. -/
structure Noted (α : Type) where
  result : α
  dependencies : List Dependency
  diagnostics : List Problem

/-- A computation that reads the state and notes dependencies and problems. -/
def Noting (α : Type) := Reading (Noted α)

namespace Noting

variable {α β : Type}

/-- A result without notes. -/
def done (a : α) : Noting α := Reading.done ⟨a, [], []⟩

/-- One computation after another; the notes of both are kept in order. -/
def bind (x : Noting α) (f : α → Noting β) : Noting β :=
  Reading.bind x fun a => Reading.bind (f a.result) fun b =>
    .done ⟨b.result, a.dependencies ++ b.dependencies, a.diagnostics ++ b.diagnostics⟩

instance : Monad Noting where
  pure := done
  bind := bind

/-- Notes a problem. -/
def diagnose (error : Problem) : Noting Unit := Reading.done ⟨(), [], [error]⟩

/-- The outcome of a computation, given the answers of the state. -/
def outcome (answers : Path → Option Value) (x : Noting α) : Noted α :=
  Reading.value answers x

end Noting

/-- What the expansion of a part of a document may consult. -/
structure Context where
  document : Document
  limits : Limits
  /-- Whether dependencies are noted. -/
  tracks : Bool
  actions : ActionRules
  /-- The iteration variables. -/
  scope : Scope

namespace Context

variable {α : Type}

/-- The context outside of all iterations. -/
def ofDocument (document : Document) (limits : Limits) (tracks : Bool) (actions : ActionRules) :
    Context :=
  ⟨document, limits, tracks, actions, .empty⟩

/-- A context with one more frame of iteration variables. -/
def push (ctx : Context) (frame : Scope.Frame) : Context :=
  { ctx with scope := ctx.scope.push frame }

/-- A context without its innermost frame. -/
def pop (ctx : Context) : Context :=
  { ctx with scope := ctx.scope.pop }

/-! ### Dependencies -/

/-- The dependencies to note: none if they are not tracked. -/
def tracked (ctx : Context) (dependencies : List Dependency) : List Dependency :=
  if ctx.tracks then dependencies else []

/-- Notes that the view under construction depends on a path. -/
def note (ctx : Context) (path : Path) (kind : DependencyKind) : Noting Unit :=
  Reading.done ⟨(), ctx.tracked [⟨path, kind⟩], []⟩

/-- Reads the state, and notes each path that is asked for. -/
def observe (ctx : Context) (reading : Reading α) : Noting α :=
  reading.listen.bind fun (a, paths) =>
    .done ⟨a, ctx.tracked (paths.eraseDups.map fun path => ⟨path, .value⟩), []⟩

/-! ### Expressions and values -/

/-- The value of an expression. -/
def valueOf (ctx : Context) (expression : String) : Noting Value :=
  ctx.observe (Expr.eval ctx.scope expression.toList)

/-- The truth of an expression. -/
def holds (ctx : Context) (expression : String) : Noting Bool :=
  ctx.observe (Expr.holds ctx.scope expression.toList)

/-- A template with its placeholders replaced. -/
def fill (ctx : Context) (template : String) : Noting String :=
  ctx.observe ((Expr.fill ctx.scope template.toList).bind fun text =>
    .done (String.ofList text))

/-- Text that may have placeholders. Text without any is fixed. -/
def boundTemplate (ctx : Context) (raw : String) : Noting Bound :=
  if Text.includes Expr.opener raw.toList then do
    let current ← ctx.fill raw
    return .template raw current ctx.scope
  else return .literal (.string raw)

/-- The template that consists of one placeholder. -/
def placeholder (path : String) : String :=
  "$\x7b" ++ path ++ "\x7d"

/-- Where in the state a path lies, for a binding. A text that is no path stands for itself. -/
def bindingTarget? (ctx : Context) (text : String) : Option String :=
  match Path.ofText? text with
  | some path =>
    match ctx.scope.lookup path with
    | some hit => hit.source.map Path.text
    | none => some path.text
  | none => some text

/-- The value at a path, followed from now on. Iteration variables are replaced by the places that
they stand for, and one that stands for no place gives a fixed value. Within an iteration, a call or
an expression in a bracket may use iteration variables, so such a path is kept as a template. -/
def boundPath (ctx : Context) (raw : String) : Noting Bound :=
  let path := String.ofList (Text.trim raw.toList)
  let inIteration := ctx.scope.depth ≠ 0
  if inIteration && (path.toList.contains '(' || (Path.ofText? path).isNone) then
    ctx.boundTemplate (placeholder path)
  else do
    let current ← ctx.observe (followPath ctx.scope path)
    return match ctx.bindingTarget? path with
      | some target => .binding target current
      | none => .literal current

/-- The value of an origin. A data source that is not there counts as null. -/
def data (ctx : Context) : DataOrigin → Noting Bound
  | .static value => return .literal value
  | .binding (some path) _ => ctx.boundPath path
  | .binding none (some template) => ctx.boundTemplate template
  | .binding none none => return .literal .null
  | .source id =>
    match Fields.get? ctx.document.dataSources id with
    | some (.static value) => return .literal value
    | some (.binding path) => ctx.boundPath path
    | none => do
      Noting.diagnose (.unknownDataSource id)
      return .literal .null

/-- What a leaf shows: its data, else its text, else its label, else nothing. -/
def content (ctx : Context) (leaf : Leaf) : Noting Bound :=
  match leaf.data with
  | some origin => ctx.data origin
  | none =>
    match leaf.text.or leaf.label with
    | some text => ctx.boundTemplate text
    | none => return .literal (.string "")

/-- The items of a value; what is no array has none. -/
def itemsOf : Option Value → List Value
  | some (.array items) => items
  | _ => []

/-- The items of the array at a path, and where in the state it lies. The view under construction is
shaped by it. A text that is no path is evaluated, and its array lies nowhere. -/
def itemsAt (ctx : Context) (text : String) : Noting (List Value × Option Path) :=
  match Path.ofText? text with
  | some path =>
    match ctx.scope.lookup path with
    | some ⟨value, some source⟩ => do
      ctx.note source .shape
      return (itemsOf value, some source)
    | some ⟨value, none⟩ => return (itemsOf value, none)
    | none => Reading.ask path fun value =>
      .done ⟨(itemsOf value, some path), ctx.tracked [⟨path, .shape⟩], []⟩
  | none => do
    let value ← ctx.valueOf text
    return (itemsOf (some value), none)

/-! ### Styles -/

/-- The merged properties of a style. A chain that is broken leaves only the inline properties. -/
def effectiveStyle (ctx : Context) (id : Option String) (inline : Option StyleLayer) :
    Noting StyleLayer :=
  match ctx.document.styles.effective ctx.limits.styles id inline with
  | .ok style => return style
  | .error error => do
    Noting.diagnose (.ofStyle error)
    return inline.getD .unset

/-- The final style of a view. -/
def finalStyle (ctx : Context) (id : Option String) (inline : Option StyleLayer)
    (own : OwnProperties) : Noting FinalStyle := do
  let style ← ctx.effectiveStyle id inline
  return .ofLayer style own

/-- The properties that a leaf sets on its own. -/
def ownProperties (leaf : Leaf) : OwnProperties :=
  ⟨leaf.padding, leaf.width, leaf.height, none⟩

/-- The final style of a leaf. -/
def leafStyle (ctx : Context) (leaf : Leaf) : Noting FinalStyle :=
  ctx.finalStyle leaf.styleId leaf.style (ownProperties leaf)

/-! ### Actions -/

/-- The action of a handler. -/
def boundAction (ctx : Context) : Handler → Noting BoundAction
  | .named id =>
    if Fields.contains ctx.document.actions id then return .named id
    else do
      Noting.diagnose (.unknownAction id)
      return .inline .noop
  | .inline action =>
    match ctx.actions.ready ctx.document.actions ctx.limits.actions action with
    | .ok action => return .inline action
    | .error error => do
      Noting.diagnose (.action action.kind.name error)
      return .inline .noop

/-- The action of a handler, if there is one. -/
def boundAction? (ctx : Context) : Option Handler → Noting (Option BoundAction)
  | some handler => do return some (← ctx.boundAction handler)
  | none => return none

end Context

end ScreenDoc
