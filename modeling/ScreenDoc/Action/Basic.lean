import ScreenDoc.Json.Record
import ScreenDoc.Value.Text

/-!
# Actions of a document

An action as it is written: its kind and its parameters.

## Main definitions

- `Action.Kind` — the built-in kinds, and any other by its name
- `Parameter` — a fixed value, or an expression to be evaluated when the action runs
- `Action`, `ActionTable` — actions by name
- `Handler` — what answers an event: an action by its name, or in place

## Design notes

A parameter that is an object with the only field `$expr`, a text, is an expression. So an action
can be written as a value and read back without loss.
-/

namespace ScreenDoc

/-- The kind of an action. -/
inductive Action.Kind where
  | dismiss
  | setState
  | toggleState
  | showAlert
  | sequence
  | navigate
  /-- Does nothing. -/
  | noop
  /-- A kind that is not built in. -/
  | custom (kindName : String)
deriving DecidableEq, Repr

namespace Action.Kind

/-- The built-in kinds. -/
def builtin : List Action.Kind :=
  [dismiss, setState, toggleState, showAlert, sequence, navigate, noop]

/-- The name of a kind. -/
def name : Action.Kind → String
  | .dismiss => "dismiss"
  | .setState => "setState"
  | .toggleState => "toggleState"
  | .showAlert => "showAlert"
  | .sequence => "sequence"
  | .navigate => "navigate"
  | .noop => "noop"
  | .custom kindName => kindName

/-- The kind of this name. -/
def ofName (kindName : String) : Action.Kind :=
  (builtin.find? fun kind => kind.name = kindName).getD (.custom kindName)

/-- Whether a kind is not built in. -/
def isCustom : Action.Kind → Bool
  | .custom _ => true
  | _ => false

end Action.Kind

/-- A parameter of an action. -/
inductive Parameter where
  | literal (value : Value)
  /-- An expression for the time when the action runs. -/
  | expression (text : String)

namespace Parameter

/-- The field that marks an expression. -/
def expressionKey : String := "$expr"

/-- The parameter that a value writes. -/
def ofValue : Value → Parameter
  | .object [(name, .string text)] =>
    if name = expressionKey then .expression text else .literal (.object [(name, .string text)])
  | value => .literal value

/-- The value that writes a parameter. -/
def toValue : Parameter → Value
  | .literal value => value
  | .expression text => .object [(expressionKey, .string text)]

/-- A parameter as JSON can hold it. -/
def finite : Parameter → Parameter
  | .literal value => .literal value.finite
  | .expression text => .expression text

/-- The value of a parameter that is fixed. -/
def literal? : Parameter → Option Value
  | .literal value => some value
  | .expression _ => none

end Parameter

/-- An action as written. -/
structure Action where
  kind : Action.Kind
  /-- The parameters, in ascending order of their names. -/
  parameters : List (String × Parameter)

/-- The actions of a document by name. -/
abbrev ActionTable := List (String × Action)

/-- What answers an event: an action by its name in the document, or in place. -/
inductive Handler where
  | named (id : String)
  | inline (action : Action)

namespace Action

/-- An action without parameters. -/
def ofKind (kind : Action.Kind) : Action := ⟨kind, []⟩

/-- An action with one more parameter. -/
def addParameter (action : Action) (name : String) (parameter : Parameter) : Action :=
  { action with parameters := Fields.insert action.parameters name parameter }

/-- The parameter of this name. -/
def parameter? (action : Action) (name : String) : Option Parameter :=
  Fields.get? action.parameters name

/-- The parameters among the members of an object. -/
def parametersOf? {json : Json} (members : Json.Record json) :
    Option (List (String × Parameter)) := do
  let pairs ← (members.filter fun member => member.1 ≠ "type").mapM fun (name, member) =>
    member.1.value?.map fun value => (name, Parameter.ofValue value)
  some (Fields.ofList pairs)

/-- Reads an action: an object with one member `type`, a text, and the parameters. -/
def ofJson? (json : Json) : Option Action := do
  let members ← json.members?
  match members.filter fun member => member.1 = "type" with
  | [(_, kind)] => some ⟨Action.Kind.ofName (← kind.1.string?), ← parametersOf? members⟩
  | _ => none

/-- Reads an action from a value. -/
def ofValue? (value : Value) : Option Action :=
  ofJson? (Json.ofValue value.finite)

/-- Writes an action. -/
def toValue (action : Action) : Value :=
  .object (action.parameters.foldl
    (fun fields (name, parameter) => Fields.insert fields name parameter.toValue)
    [("type", .string action.kind.name)])

end Action

/-- Reads the actions of a document. -/
def ActionTable.ofJson? (json : Json) : Option ActionTable :=
  json.map? Action.ofJson?

/-- Writes the actions of a document. -/
def ActionTable.toValue (table : ActionTable) : Value :=
  .object (table.map fun (id, action) => (id, action.toValue))

namespace Handler

/-- Reads a handler: a text is the name of an action, an object an action in place. All of it is
read. -/
def ofJson? (json : Json) : Option Handler :=
  match json.string? with
  | some id => some (.named id)
  | none => if json.isReadable then (Action.ofJson? json).map .inline else none

/-- Writes a handler. -/
def toValue : Handler → Value
  | .named id => .string id
  | .inline action => action.toValue

end Handler

end ScreenDoc
