import ScreenDoc.Action.Rules

/-!
# What actions demand of their parameters

Each built-in kind demands some parameters and accepts only some values for them. The first demand
that is not met is the fault of an action. An action without a fault becomes ready by taking over
what it was written with.

## Main definitions

- `Action.form` — the kind that counts for an action
- `Demand` — what a parameter has to be
- `Action.fault?` — the first demand that an action does not meet
- `Action.arguments` — what a ready action that is no sequence takes over

## Main results

- `ActionRules.ruleFor_builtin` — the built-in rules go by the form of an action
- `ActionRules.readyWithin_of_form_ne` — an action that is no sequence becomes ready unless it has a
  fault
-/

namespace ScreenDoc

/-- What a parameter of an action has to be. -/
structure Demand where
  key : String
  isRequired : Bool
  /-- What the parameter should be, for messages. -/
  expected : String
  accepts : Parameter → Bool

namespace Demand

/-- Whether a parameter is a fixed text. -/
def isText : Parameter → Bool
  | .literal (.string _) => true
  | _ => false

/-- Whether a parameter is a fixed array. -/
def isArray : Parameter → Bool
  | .literal (.array _) => true
  | _ => false

/-- Whether a parameter is a message: a text, or an object with a text as its template or value. -/
def isMessage : Parameter → Bool
  | .literal (.string _) => true
  | .literal (.object fields) =>
    ((Fields.get? fields "template").bind Value.string?).isSome ||
      ((Fields.get? fields "value").bind Value.string?).isSome
  | _ => false

/-- A text. -/
def text (key : String) (isRequired : Bool) : Demand := ⟨key, isRequired, "string", isText⟩

/-- An array. -/
def array (key : String) (isRequired : Bool) : Demand := ⟨key, isRequired, "array", isArray⟩

/-- A message. -/
def message : Demand := ⟨"message", false, "string or message object", isMessage⟩

/-- The demands of a kind, in the order in which they are looked at. -/
def ofKind : Action.Kind → List Demand
  | .setState | .toggleState => [text "path" true]
  | .showAlert => [text "title" true, message, array "buttons" false]
  | .navigate => [text "destination" true, text "presentation" false]
  | .sequence => [array "steps" true]
  | .dismiss | .noop | .custom _ => []

/-- How an action fails to meet a demand. -/
def fault? (demand : Demand) (action : Action) : Option ActionError :=
  match action.parameter? demand.key with
  | none => if demand.isRequired then some (action.missing demand.key) else none
  | some found =>
    if demand.accepts found then none
    else some (action.unsuitable demand.key demand.expected found)

end Demand

namespace ReadyAction

theorem ofKind_eq (kind : Action.Kind) : ofKind kind = .mk kind (Fields.ofList []) := rfl

theorem addArgument_ofList (kind : Action.Kind) (pairs : List (String × Argument)) (name : String)
    (argument : Argument) : (mk kind (Fields.ofList pairs)).addArgument name argument =
      .mk kind (Fields.ofList (pairs ++ [(name, argument)])) := by
  rw [addArgument, Fields.ofList, Fields.ofList, List.foldl_append]
  rfl

theorem addLiteral_ofList (kind : Action.Kind) (pairs : List (String × Argument)) (name : String)
    (value : Value) : (mk kind (Fields.ofList pairs)).addLiteral name value =
      .mk kind (Fields.ofList (pairs ++ [(name, .literal value)])) :=
  addArgument_ofList kind pairs name (.literal value)

end ReadyAction

namespace Action

/-- The kind that counts for an action. A kind of the host with the name of a built-in kind counts
as that one. -/
def form (action : Action) : Action.Kind :=
  .ofName action.kind.name

/-- The fault of an action, its steps left aside. -/
def fault? (action : Action) : Option ActionError :=
  (Demand.ofKind action.form).findSome? fun demand => demand.fault? action

/-- A parameter as written, or something else if it is missing. -/
def argumentOr (action : Action) (key : String) (fallback : Argument) : Argument :=
  match action.parameter? key with
  | some parameter => .ofParameter parameter
  | none => fallback

/-- The message of an alert and whether it is a template, if there is one. -/
def messageArguments (action : Action) : List (String × Argument) :=
  match (action.parameter? "message").bind messageText? with
  | some (s, isTemplate) =>
    [("message", .literal (.string s)), ("messageIsTemplate", .literal (.bool isTemplate))]
  | none => []

/-- The buttons of an alert, if there are some. -/
def buttonArguments (action : Action) : List (String × Argument) :=
  ((action.parameter? "buttons").map fun buttons =>
    ("buttons", Argument.ofParameter buttons)).toList

/-- What an action that is no sequence takes over when it becomes ready. -/
def arguments (action : Action) : List (String × Argument) :=
  match action.form with
  | .dismiss | .noop | .sequence => []
  | .setState => Fields.ofList [("path", action.argumentOr "path" (.literal .null)),
      ("value", action.argumentOr "value" (.literal .null))]
  | .toggleState => Fields.ofList [("path", action.argumentOr "path" (.literal .null))]
  | .showAlert => Fields.ofList
      (("title", action.argumentOr "title" (.literal .null)) ::
        (action.messageArguments ++ action.buttonArguments))
  | .navigate => Fields.ofList [("destination", action.argumentOr "destination" (.literal .null)),
      ("presentation", action.argumentOr "presentation" (.literal (.string "push")))]
  | .custom _ => action.parameters.map fun (name, parameter) =>
      (name, Argument.ofParameter parameter)

/-- What an action that is no sequence becomes. -/
def settled (action : Action) : Except ActionError ReadyAction :=
  match action.fault? with
  | some error => .error error
  | none => .ok (.mk action.form action.arguments)

/-- A kind of the host counts as itself unless it has the name of a built-in kind. -/
theorem kind_eq_form {action : Action} {name : String} (h : action.form = .custom name) :
    action.kind = action.form := by
  obtain ⟨kind, parameters⟩ := action
  rw [form] at h ⊢
  cases kind with
  | custom own =>
    have hname : (Kind.custom own).name = own := rfl
    rw [hname, Kind.ofName] at h ⊢
    cases hfind : Kind.builtin.find? fun kind => kind.name = own with
    | none => rfl
    | some kind =>
      -- No built-in kind is a kind of the host.
      rw [hfind, Option.getD_some] at h
      have hmem := List.mem_of_find?_eq_some hfind
      rw [h] at hmem
      simp [Kind.builtin] at hmem
  | _ => cases h

/-! ### The rules of the kinds -/

/-- A text that is demanded is there, or it is the fault. -/
theorem stringParameter_cases (action : Action) (key : String) :
    (∃ error, action.stringParameter key = .error error ∧
      (Demand.text key true).fault? action = some error) ∨
    ∃ s, action.stringParameter key = .ok s ∧ (Demand.text key true).fault? action = none ∧
      action.argumentOr key (.literal .null) = .literal (.string s) := by
  rw [stringParameter, Demand.fault?, Demand.text, argumentOr]
  rcases action.parameter? key with _ | ⟨value | text⟩
  · exact .inl ⟨_, rfl, rfl⟩
  · cases value with
    | string s => exact .inr ⟨s, rfl, rfl, rfl⟩
    | _ => exact .inl ⟨_, rfl, rfl⟩
  · exact .inl ⟨_, rfl, rfl⟩

theorem isMessage_eq (parameter : Parameter) :
    Demand.isMessage parameter = (messageText? parameter).isSome := by
  rcases parameter with value | text
  · cases value with
    | object fields =>
      simp only [Demand.isMessage, messageText?]
      cases (Fields.get? fields "template").bind Value.string? with
      | some template => rfl
      | none => cases (Fields.get? fields "value").bind Value.string? <;> rfl
    | _ => rfl
  · rfl

/-- The message of an alert comes after its title. -/
theorem withMessage_cases (action : Action) (title : String × Argument) :
    (∃ error, action.withMessage (.mk .showAlert (Fields.ofList [title])) = .error error ∧
      Demand.message.fault? action = some error) ∨
    (action.withMessage (.mk .showAlert (Fields.ofList [title])) =
        .ok (.mk .showAlert (Fields.ofList (title :: action.messageArguments))) ∧
      Demand.message.fault? action = none) := by
  rw [withMessage, Demand.fault?, Demand.message, messageArguments]
  cases action.parameter? "message" with
  | none => exact .inr ⟨rfl, rfl⟩
  | some message =>
    simp only [isMessage_eq, Option.bind_some]
    cases messageText? message with
    | none => exact .inl ⟨_, rfl, rfl⟩
    | some text =>
      refine .inr ⟨?_, rfl⟩
      simp only [ReadyAction.addLiteral_ofList, List.cons_append, List.nil_append]

/-- The buttons of an alert come last. -/
theorem withButtons_cases (action : Action) (pairs : List (String × Argument)) :
    (∃ error, action.withButtons (.mk .showAlert (Fields.ofList pairs)) = .error error ∧
      (Demand.array "buttons" false).fault? action = some error) ∨
    (action.withButtons (.mk .showAlert (Fields.ofList pairs)) =
        .ok (.mk .showAlert (Fields.ofList (pairs ++ action.buttonArguments))) ∧
      (Demand.array "buttons" false).fault? action = none) := by
  rw [withButtons, Demand.fault?, Demand.array, buttonArguments]
  rcases action.parameter? "buttons" with _ | ⟨value | text⟩
  · exact .inr ⟨by rw [Option.map_none, Option.toList_none, List.append_nil], rfl⟩
  · cases value with
    | array items =>
      exact .inr ⟨congrArg Except.ok (ReadyAction.addLiteral_ofList _ pairs _ _), rfl⟩
    | _ => exact .inl ⟨_, rfl, rfl⟩
  · exact .inl ⟨_, rfl, rfl⟩

section Forms

variable {action : Action}

theorem setState_eq_settled (h : action.form = .setState) : action.setState = action.settled := by
  simp only [setState, settled, fault?, arguments, h, Demand.ofKind, List.findSome?_cons,
    List.findSome?_nil]
  rcases action.stringParameter_cases "path" with ⟨error, hpath, hfault⟩ | ⟨s, hpath, hfault, harg⟩
  · rw [hpath, hfault]
    rfl
  · rw [hpath, hfault, harg, argumentOr, ReadyAction.ofKind_eq]
    exact congrArg Except.ok (ReadyAction.addArgument_ofList _ [("path", _)] _ _)

theorem toggleState_eq_settled (h : action.form = .toggleState) :
    action.toggleState = action.settled := by
  simp only [toggleState, settled, fault?, arguments, h, Demand.ofKind, List.findSome?_cons,
    List.findSome?_nil]
  rcases action.stringParameter_cases "path" with ⟨error, hpath, hfault⟩ | ⟨s, hpath, hfault, harg⟩
  · rw [hpath, hfault]
    rfl
  · rw [hpath, hfault, harg]
    rfl

theorem navigate_eq_settled (h : action.form = .navigate) : action.navigate = action.settled := by
  simp only [navigate, settled, fault?, arguments, h, Demand.ofKind, List.findSome?_cons,
    List.findSome?_nil]
  rcases action.stringParameter_cases "destination" with
    ⟨error, hpath, hfault⟩ | ⟨s, hpath, hfault, harg⟩
  · rw [hpath, hfault]
    rfl
  · rw [hpath, hfault, harg, argumentOr]
    simp only [Demand.fault?, Demand.text]
    have hadd (presentation : String) :=
      ReadyAction.addLiteral_ofList .navigate [("destination", .literal (.string s))]
        "presentation" (.string presentation)
    rcases action.parameter? "presentation" with _ | ⟨value | text⟩
    · exact congrArg Except.ok (hadd "push")
    · cases value with
      | string presentation => exact congrArg Except.ok (hadd presentation)
      | _ => rfl
    · rfl

theorem showAlert_eq_settled (h : action.form = .showAlert) :
    action.showAlert = action.settled := by
  simp only [showAlert, settled, fault?, arguments, h, Demand.ofKind, List.findSome?_cons,
    List.findSome?_nil]
  rcases action.stringParameter_cases "title" with
    ⟨error, htitle, hfault⟩ | ⟨s, htitle, hfault, harg⟩
  · rw [htitle, hfault]
    rfl
  rw [htitle, hfault, harg]
  change (action.withMessage (.mk .showAlert (Fields.ofList [("title", .literal (.string s))]))
    >>= action.withButtons) = _
  rcases action.withMessage_cases ("title", .literal (.string s)) with
    ⟨error, hmessage, hfault⟩ | ⟨hmessage, hfault⟩
  · rw [hmessage, hfault]
    rfl
  rw [hmessage, hfault]
  rcases action.withButtons_cases
      (("title", .literal (.string s)) :: action.messageArguments) with
    ⟨error, hbuttons, hfault⟩ | ⟨hbuttons, hfault⟩
  · rw [hfault]
    exact hbuttons
  · rw [hfault]
    exact hbuttons

end Forms

end Action

namespace ActionRules

/-- Rules for kinds of different names are found under these names. -/
theorem get?_foldl_insert (kinds : List Action.Kind) (hnames : (kinds.map Action.Kind.name).Nodup)
    (rules : ActionRules) (name : String) :
    Fields.get? (kinds.foldl (fun rules kind => rules.insert kind.name (.ofKind kind)) rules).byName
        name =
      ((kinds.find? fun kind => kind.name = name).map ActionRule.ofKind).or
        (Fields.get? rules.byName name) := by
  induction kinds generalizing rules with
  | nil => rfl
  | cons kind rest ih =>
    obtain ⟨hkind, hrest⟩ := List.nodup_cons.mp hnames
    rw [List.foldl_cons, ih hrest, insert, Fields.get?_insert]
    by_cases hname : kind.name = name
    · -- No later kind has this name.
      have hnone : rest.find? (fun kind => kind.name = name) = none :=
        List.find?_eq_none.mpr fun other hother hsame =>
          hkind (List.mem_map.mpr ⟨other, hother, (of_decide_eq_true hsame).trans hname.symm⟩)
      rw [hnone, if_pos hname, List.find?_cons_of_pos (by simpa using hname)]
      rfl
    · rw [if_neg hname, List.find?_cons_of_neg (by simpa using hname)]

/-- The built-in rules go by the form of an action. -/
theorem ruleFor_builtin (action : Action) : builtin.ruleFor action = .ofKind action.form := by
  rw [ruleFor, builtin, get?_foldl_insert _ (by decide), Action.form, Action.Kind.ofName]
  cases Action.Kind.builtin.find? fun kind => kind.name = action.kind.name <;> rfl

/-- An action that is no sequence becomes ready unless it has a fault. -/
theorem readyWithin_of_form_ne (table : ActionTable) (limit levels : Nat) {action : Action}
    (h : action.form ≠ .sequence) :
    builtin.readyWithin table limit (levels + 1) action = action.settled := by
  rw [readyWithin, ruleFor_builtin]
  cases hform : action.form with
  | sequence => exact absurd hform h
  | setState => exact action.setState_eq_settled hform
  | toggleState => exact action.toggleState_eq_settled hform
  | showAlert => exact action.showAlert_eq_settled hform
  | navigate => exact action.navigate_eq_settled hform
  | custom name =>
    have hkind := (Action.kind_eq_form hform).trans hform
    rw [Action.settled, Action.fault?, Action.arguments, hform]
    change Except.ok action.passThrough = _
    rw [Action.passThrough, hkind]
    rfl
  | _ =>
    rw [Action.settled, Action.fault?, Action.arguments, hform]
    rfl

end ActionRules

end ScreenDoc
