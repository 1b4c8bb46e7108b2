import ScreenDoc.Action.Ready

/-!
# Rules for actions

For each kind of action a rule tells how to make it ready to run. An action of a kind without a rule
keeps its parameters as written, for whoever runs it.

## Main definitions

- `ActionRule` — a way to make actions ready
- `ActionRules` — the rules by the name of the kind
- `ActionRules.ready` — an action made ready, up to a nesting limit
- `ActionRules.readyAll` — the actions of a table made ready, with the failures

## Design notes

Only sequences nest. A step of a sequence is an action in place or the name of an action of the
table; a name that the table does not have stands for the action that does nothing. Each step is one
level deeper than its sequence, so the limit also ends the work on actions that refer to each other
in a circle.
-/

namespace ScreenDoc

/-- Why an action cannot be made ready. -/
inductive ActionError where
  | parameterMissing (kind key : String)
  | unsuitable (kind key expected found : String)
  | depthExceeded (limit : Nat)
deriving DecidableEq, Repr

/-- The message of an error. -/
def ActionError.message : ActionError → String
  | .parameterMissing kind key =>
    kind ++ " action is missing required parameter " ++ Text.quote key
  | .unsuitable kind key expected found =>
    kind ++ " action parameter " ++ Text.quote key ++ " should be " ++ expected ++ ", got " ++ found
  | .depthExceeded limit => "action nesting exceeds " ++ toString limit ++ " levels"

/-- A way to make actions ready. -/
inductive ActionRule where
  | dismiss
  | setState
  | toggleState
  | showAlert
  | sequence
  | navigate
  | noop
  /-- Keeps the parameters as written. -/
  | passThrough
deriving DecidableEq, Repr

/-- The rules by the name of the kind, in ascending order. -/
structure ActionRules where
  byName : List (String × ActionRule)

namespace Action

/-- The error that a parameter is missing. -/
def missing (action : Action) (key : String) : ActionError :=
  .parameterMissing action.kind.name key

/-- The error that a parameter is of another kind than expected. -/
def unsuitable (action : Action) (key expected : String) (found : Parameter) : ActionError :=
  .unsuitable action.kind.name key expected (Argument.ofParameter found).describe

/-- A parameter that has to be a text. -/
def stringParameter (action : Action) (key : String) : Except ActionError String :=
  match action.parameter? key with
  | none => .error (action.missing key)
  | some (.literal (.string s)) => .ok s
  | some other => .error (action.unsuitable key "string" other)

/-- An action with its parameters as written. -/
def passThrough (action : Action) : ReadyAction :=
  .mk action.kind (action.parameters.map fun (name, parameter) =>
    (name, Argument.ofParameter parameter))

/-- Sets the value at a path; without a value, to null. -/
def setState (action : Action) : Except ActionError ReadyAction := do
  let path ← action.stringParameter "path"
  let value := match action.parameter? "value" with
    | some parameter => Argument.ofParameter parameter
    | none => .literal .null
  return ((ReadyAction.ofKind .setState).addLiteral "path" (.string path)).addArgument
    "value" value

/-- Turns the boolean at a path. -/
def toggleState (action : Action) : Except ActionError ReadyAction := do
  let path ← action.stringParameter "path"
  return (ReadyAction.ofKind .toggleState).addLiteral "path" (.string path)

/-- The text of the message of an alert, and whether it is a template. A message is a text, or an
object with a field `template` or else `value`. -/
def messageText? : Parameter → Option (String × Bool)
  | .literal (.string s) => some (s, false)
  | .literal (.object fields) =>
    match (Fields.get? fields "template").bind Value.string? with
    | some template => some (template, true)
    | none => ((Fields.get? fields "value").bind Value.string?).map fun s => (s, false)
  | _ => none

/-- An alert with the message of an action, if it has one. -/
def withMessage (action : Action) (alert : ReadyAction) :
    Except ActionError ReadyAction :=
  match action.parameter? "message" with
  | none => .ok alert
  | some message =>
    match messageText? message with
    | some (s, isTemplate) =>
      .ok ((alert.addLiteral "message" (.string s)).addLiteral "messageIsTemplate"
        (.bool isTemplate))
    | none => .error (action.unsuitable "message" "string or message object" message)

/-- An alert with the buttons of an action, if it has some. -/
def withButtons (action : Action) (alert : ReadyAction) :
    Except ActionError ReadyAction :=
  match action.parameter? "buttons" with
  | none => .ok alert
  | some (.literal (.array items)) => .ok (alert.addLiteral "buttons" (.array items))
  | some other => .error (action.unsuitable "buttons" "array" other)

/-- Shows a title, and perhaps a message and buttons. -/
def showAlert (action : Action) : Except ActionError ReadyAction := do
  let title ← action.stringParameter "title"
  let alert := (ReadyAction.ofKind .showAlert).addLiteral "title" (.string title)
  action.withButtons (← action.withMessage alert)

/-- Goes to a destination, by pushing it unless told otherwise. -/
def navigate (action : Action) : Except ActionError ReadyAction := do
  let destination ← action.stringParameter "destination"
  let presentation ← match action.parameter? "presentation" with
    | none => .ok "push"
    | some (.literal (.string s)) => .ok s
    | some other => .error (action.unsuitable "presentation" "string" other)
  return ((ReadyAction.ofKind .navigate).addLiteral "destination"
    (.string destination)).addLiteral "presentation" (.string presentation)

/-- The steps of a sequence as written. -/
def steps (action : Action) : Except ActionError (List Value) :=
  match action.parameter? "steps" with
  | none => .error (action.missing "steps")
  | some (.literal (.array steps)) => .ok steps
  | some other => .error (action.unsuitable "steps" "array" other)

/-- The action of a step: of the table by its name, if it has one of that name, or in place. -/
def ofStep (action : Action) (table : ActionTable) :
    Value → Except ActionError (Option Action)
  | .string id => .ok (Fields.get? table id)
  | .object fields =>
    match Action.ofValue? (.object fields) with
    | some inline => .ok (some inline)
    | none => .error (action.unsuitable "steps" "action" (.literal (.object fields)))
  | other => .error (action.unsuitable "steps" "action" (.literal other))

end Action

namespace ActionRule

/-- The rule for a built-in kind. -/
def ofKind : Action.Kind → ActionRule
  | .dismiss => .dismiss
  | .setState => .setState
  | .toggleState => .toggleState
  | .showAlert => .showAlert
  | .sequence => .sequence
  | .navigate => .navigate
  | .noop => .noop
  | .custom _ => .passThrough

end ActionRule

namespace ActionRules

/-- No rules. -/
def empty : ActionRules := ⟨[]⟩

/-- One more rule, which replaces another one for the same kind. -/
def insert (rules : ActionRules) (kind : String) (rule : ActionRule) : ActionRules :=
  ⟨Fields.insert rules.byName kind rule⟩

/-- All rules but the one for a kind. -/
def erase (rules : ActionRules) (kind : String) : ActionRules :=
  ⟨Fields.erase rules.byName kind⟩

/-- Whether there is a rule for a kind. -/
def contains (rules : ActionRules) (kind : String) : Bool :=
  Fields.contains rules.byName kind

/-- The number of rules. -/
def length (rules : ActionRules) : Nat :=
  rules.byName.length

/-- The rules of the built-in kinds. -/
def builtin : ActionRules :=
  Action.Kind.builtin.foldl (fun rules kind => rules.insert kind.name (.ofKind kind)) empty

instance : Inhabited ActionRules := ⟨builtin⟩

/-- The nesting limit, unless told otherwise. -/
def defaultMaxDepth : Nat := 16

/-- The rule for an action. -/
def ruleFor (rules : ActionRules) (action : Action) : ActionRule :=
  (Fields.get? rules.byName action.kind.name).getD .passThrough

/-- The steps of a sequence made ready, given how to make the actions inside ready. -/
def readySteps (table : ActionTable) (inner : Action → Except ActionError ReadyAction)
    (action : Action) (steps : List Value) : Except ActionError (List ReadyAction) :=
  steps.mapM fun step => do
    match ← action.ofStep table step with
    | some action => inner action
    | none => return .noop

/-- An action made ready, given how many more levels there may be. -/
def readyWithin (rules : ActionRules) (table : ActionTable) (limit : Nat) :
    Nat → Action → Except ActionError ReadyAction
  | 0, _ => .error (.depthExceeded limit)
  | levels + 1, action =>
    match rules.ruleFor action with
    | .dismiss => .ok (.ofKind .dismiss)
    | .noop => .ok .noop
    | .setState => action.setState
    | .toggleState => action.toggleState
    | .showAlert => action.showAlert
    | .navigate => action.navigate
    | .passThrough => .ok action.passThrough
    | .sequence => do
      let steps ← readySteps table (rules.readyWithin table limit levels) action
        (← action.steps)
      return (ReadyAction.ofKind .sequence).addArgument "steps" (.actions steps)

/-- An action made ready, up to a nesting limit. -/
def ready (rules : ActionRules) (table : ActionTable) (limit : Nat) (action : Action) :
    Except ActionError ReadyAction :=
  rules.readyWithin table limit limit action

/-- All actions of a table made ready. One that fails does nothing; the failures are listed in the
order of the table. -/
def readyAll (rules : ActionRules) (table : ActionTable) (limit : Nat) :
    List (String × ReadyAction) × List (String × ActionError) :=
  let results := table.map fun (id, action) => (id, rules.ready table limit action)
  (results.map fun (id, result) => (id, match result with
      | .ok action => action
      | .error _ => .noop),
    results.filterMap fun (id, result) => match result with
      | .ok _ => none
      | .error error => some (id, error))

/-- Names between brackets. -/
def nameList (names : List String) : String :=
  "[" ++ String.intercalate ", " (names.map Text.quote) ++ "]"

/-- A description of the rules by the names of their kinds. -/
def describe (rules : ActionRules) : String :=
  "ActionResolverRegistry \x7b kinds: " ++ nameList (rules.byName.map Prod.fst) ++ " \x7d"

end ActionRules

end ScreenDoc
