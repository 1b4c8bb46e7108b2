import ScreenDoc.Action.Basic
import ScreenDoc.Text.Quoted
import ScreenDoc.Value.Kind

/-!
# Actions that are ready to run

An action with its nested actions in place.

## Main definitions

- `ReadyAction`, `Argument` — an action that is ready to run, and its parameters
- `ArgumentReader` — how a parameter is read as a certain kind of thing
- `ReadyAction.parameter?`, `ReadyAction.required` — parameters that are read so
-/

namespace ScreenDoc

mutual

/-- An action that is ready to run. -/
inductive ReadyAction where
  /-- A kind, and the parameters in ascending order of their names. -/
  | mk (kind : Action.Kind) (parameters : List (String × Argument))

/-- A parameter of an action that is ready to run. -/
inductive Argument where
  | literal (value : Value)
  /-- An expression for the time when the action runs. -/
  | expression (text : String)
  /-- Nested actions. -/
  | actions (steps : List ReadyAction)

end

/-- Why a parameter cannot be read. -/
inductive ArgumentError where
  | missing (key : String)
  | unsuitable (key expected found : String)
deriving DecidableEq, Repr

/-- The message of an error. -/
def ArgumentError.message : ArgumentError → String
  | .missing key => "missing required parameter " ++ Text.quote key
  | .unsuitable key expected found =>
    "parameter " ++ Text.quote key ++ " should be " ++ expected ++ ", got " ++ found

namespace Argument

/-- The parameter as it was written. -/
def ofParameter : Parameter → Argument
  | .literal value => .literal value
  | .expression text => .expression text

/-- What a parameter holds, for messages. -/
def describe : Argument → String
  | .literal value => value.kind.name
  | .expression _ => "expression"
  | .actions _ => "actions"

/-- A fixed value. -/
def literal? : Argument → Option Value
  | .literal value => some value
  | _ => none

end Argument

/-- A way to read a parameter. -/
structure ArgumentReader (α : Type) where
  /-- What the parameter should be, for messages. -/
  expected : String
  /-- The parameter as such a thing. -/
  read : Argument → Option α

namespace ArgumentReader

/-- Reads a text. -/
def string : ArgumentReader String :=
  ⟨"string", fun argument => argument.literal?.bind Value.string?⟩

/-- The integer of a number without a fraction. -/
def wholeNumber? : Value → Option Int64
  | .int n => some n
  | .double d => if Decimal.isWhole d then some (Decimal.toInt64 d) else none
  | _ => none

/-- Reads an integer, also from a whole float. -/
def int : ArgumentReader Int64 :=
  ⟨"int", fun argument => argument.literal?.bind wholeNumber?⟩

/-- Reads a number. -/
def number : ArgumentReader Float :=
  ⟨"number", fun argument => argument.literal?.bind Value.float?⟩

/-- Reads a boolean. -/
def bool : ArgumentReader Bool :=
  ⟨"bool", fun argument => argument.literal?.bind Value.bool?⟩

/-- Reads any fixed value. -/
def literal : ArgumentReader Value :=
  ⟨"literal", Argument.literal?⟩

/-- Reads an array. -/
def array : ArgumentReader (List Value) :=
  ⟨"array", fun argument => argument.literal?.bind Value.array?⟩

/-- Reads an object. -/
def object : ArgumentReader (List (String × Value)) :=
  ⟨"object", fun argument => argument.literal?.bind Value.object?⟩

/-- Reads nested actions. -/
def actions : ArgumentReader (List ReadyAction) :=
  ⟨"actions", fun
    | .actions steps => some steps
    | _ => none⟩

/-- Reads any parameter. -/
def any : ArgumentReader Argument :=
  ⟨"parameter", some⟩

end ArgumentReader

namespace ReadyAction

/-- The kind of an action. -/
def kind : ReadyAction → Action.Kind
  | .mk kind _ => kind

/-- The parameters of an action. -/
def parameters : ReadyAction → List (String × Argument)
  | .mk _ parameters => parameters

/-- An action without parameters. -/
def ofKind (kind : Action.Kind) : ReadyAction := .mk kind []

/-- The action that does nothing. -/
def noop : ReadyAction := ofKind .noop

instance : Inhabited ReadyAction := ⟨noop⟩

/-- Whether an action does nothing. -/
def isNoop (action : ReadyAction) : Bool :=
  action.kind = .noop

/-- An action with one more parameter. -/
def addArgument (action : ReadyAction) (name : String) (argument : Argument) :
    ReadyAction :=
  .mk action.kind (Fields.insert action.parameters name argument)

/-- An action with one more fixed parameter. -/
def addLiteral (action : ReadyAction) (name : String) (value : Value) : ReadyAction :=
  action.addArgument name (.literal value)

/-- The parameter of this name. -/
def argument? (action : ReadyAction) (name : String) : Option Argument :=
  Fields.get? action.parameters name

/-- The parameter of this name, read by a reader. -/
def parameter? {α : Type} (action : ReadyAction) (name : String) (reader : ArgumentReader α) :
    Option α :=
  (action.argument? name).bind reader.read

/-- The parameter of this name, read by a reader, or why it cannot be read. -/
def required {α : Type} (action : ReadyAction) (name : String) (reader : ArgumentReader α) :
    Except ArgumentError α :=
  match action.argument? name with
  | none => .error (.missing name)
  | some argument =>
    match reader.read argument with
    | some value => .ok value
    | none => .error (.unsuitable name reader.expected argument.describe)

/-- The expression of this name. -/
def expression? (action : ReadyAction) (name : String) : Option String :=
  match action.argument? name with
  | some (.expression text) => some text
  | _ => none

end ReadyAction

end ScreenDoc
