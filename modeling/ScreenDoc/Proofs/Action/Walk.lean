import Mathlib.Data.List.Basic
import Mathlib.Logic.Relation
import ScreenDoc.Proofs.Action.Demand
import ScreenDoc.Proofs.Store.Mirror

/-!
# The walk through an action

To make an action ready is to walk it depth first, each action before its steps and the steps from
left to right. Names of the table are followed, so on a table with a circle the walk has no end of
its own. The first place of the walk where something is wrong decides; the places that are too deep
count as wrong, and without any wrong place the action becomes its full expansion.

## Main definitions

- `Place` — what a step stands for
- `Place.at?`, `Place.faultAt?` — the place at a position, and what is wrong there
- `IsFirst` — the error of the first wrong place
- `Place.Expands` — the full expansion of a place
- `Place.Under` — a place that is a step of another one

## Main results

- `settles_mapM` — steps that are made ready from left to right fail with the first error of all
- `Place.settles_ready` — what is made of a place is the error of its first wrong place, or its
  full expansion
- `ActionRules.readyAll_exact` — the actions of a table and the list of failures

## Design notes

A position is the list of the numbers of the steps that lead to a place. The order of the walk is
that of lists, where a list comes before each of its continuations.
-/

namespace ScreenDoc

/-- What a step stands for. -/
inductive Place where
  /-- An action, of the table or in place. -/
  | known (action : Action)
  /-- A name that the table does not have. -/
  | unknown
  /-- No step. -/
  | unsuitable (error : ActionError)

/-- What a name stands for. -/
def Place.ofName (table : ActionTable) (id : String) : Place :=
  match Fields.get? table id with
  | some entry => .known entry
  | none => .unknown

/-! ### The first error -/

section First

variable {ε α β : Type}

/-- Whether an error is the first one of those at the positions. -/
def IsFirst (faults : List Nat → Option ε) (error : ε) : Prop :=
  ∃ position, faults position = some error ∧ ∀ earlier, earlier < position → faults earlier = none

/-- There is only one first error. -/
theorem IsFirst.unique {faults : List Nat → Option ε} {error error' : ε}
    (h : IsFirst faults error) (h' : IsFirst faults error') : error = error' := by
  obtain ⟨position, hat, hbefore⟩ := h
  obtain ⟨position', hat', hbefore'⟩ := h'
  have heq : position = position' := by
    refine List.le_antisymm (List.not_lt.mp fun hlt => ?_) (List.not_lt.mp fun hlt => ?_)
    · rw [hbefore _ hlt] at hat'
      cases hat'
    · rw [hbefore' _ hlt] at hat
      cases hat
  rw [heq, hat'] at hat
  exact (Option.some.inj hat).symm

/-- An error at the start is the first one. -/
theorem IsFirst.of_nil {faults : List Nat → Option ε} {error : ε} (h : faults [] = some error) :
    IsFirst faults error :=
  ⟨[], h, fun _ hearlier => absurd hearlier (List.not_lt_nil _)⟩

/-- A result is the first error if there is one, or else what it should be. -/
def Settles (faults : List Nat → Option ε) (expands : α → Prop) : Except ε α → Prop
  | .error error => IsFirst faults error
  | .ok a => (∀ position, faults position = none) ∧ expands a

/-- The errors among the members of a list. -/
def faultsAmong (faults : α → List Nat → Option ε) (xs : List α) : List Nat → Option ε
  | [] => none
  | i :: rest => xs[i]?.bind fun x => faults x rest

/-- Members as results of the members at the same positions. -/
def Pairs (expands : α → β → Prop) (xs : List α) (results : List β) : Prop :=
  results.length = xs.length ∧
    ∀ (i : Nat) x result, xs[i]? = some x → results[i]? = some result → expands x result

theorem Pairs.cons {expands : α → β → Prop} {x : α} {result : β} {xs : List α} {results : List β}
    (h : expands x result) (hrest : Pairs expands xs results) :
    Pairs expands (x :: xs) (result :: results) := by
  refine ⟨congrArg (· + 1) hrest.1, fun i y other hy hother => ?_⟩
  cases i with
  | zero =>
    rw [List.getElem?_cons_zero, Option.some.injEq] at hy hother
    exact hy ▸ hother ▸ h
  | succ i =>
    rw [List.getElem?_cons_succ] at hy hother
    exact hrest.2 i y other hy hother

theorem Settles.map {faults : List Nat → Option ε} {expands : α → Prop} {expands' : β → Prop}
    {result : Except ε α} (h : Settles faults expands result) {f : α → β}
    (hf : ∀ a, expands a → expands' (f a)) : Settles faults expands' (result.map f) := by
  cases result with
  | error error => exact h
  | ok a => exact ⟨h.1, hf a h.2⟩

/-- Members that settle from left to right settle as a whole. -/
theorem settles_mapM {faults : α → List Nat → Option ε} {expands : α → β → Prop}
    {f : α → Except ε β} (xs : List α) (h : ∀ x ∈ xs, Settles (faults x) (expands x) (f x)) :
    Settles (faultsAmong faults xs) (Pairs expands xs) (xs.mapM f) := by
  induction xs with
  | nil =>
    refine ⟨fun position => ?_, rfl, fun i x result hx => ?_⟩
    · cases position <;> rfl
    · cases hx
  | cons x xs ih =>
    have hx := h x List.mem_cons_self
    have hxs := ih fun y hy => h y (List.mem_cons_of_mem _ hy)
    rw [List.mapM_cons]
    cases hfx : f x with
    | error error =>
      rw [hfx] at hx
      obtain ⟨position, hat, hbefore⟩ := hx
      refine ⟨0 :: position, hat, fun earlier hearlier => ?_⟩
      cases earlier with
      | nil => rfl
      | cons i rest =>
        rcases List.cons_lt_cons_iff.mp hearlier with hi | ⟨rfl, hrest⟩
        · exact absurd hi (Nat.not_lt_zero i)
        · exact hbefore rest hrest
    | ok result =>
      rw [hfx] at hx
      obtain ⟨hclear, hexpands⟩ := hx
      -- The positions in the rest of the list are those of the list, but one further on.
      cases hmap : xs.mapM f with
      | error error =>
        rw [hmap] at hxs
        obtain ⟨position, hat, hbefore⟩ := hxs
        cases position with
        | nil => cases hat
        | cons i position =>
          refine ⟨(i + 1) :: position, hat, fun earlier hearlier => ?_⟩
          rcases earlier with _ | ⟨_ | j, rest⟩
          · rfl
          · exact hclear rest
          · refine hbefore (j :: rest) (List.cons_lt_cons_iff.mpr ?_)
            exact (List.cons_lt_cons_iff.mp hearlier).imp Nat.lt_of_succ_lt_succ
              (And.imp_left Nat.succ.inj)
      | ok results =>
        rw [hmap] at hxs
        obtain ⟨hrest, hpairs⟩ := hxs
        refine ⟨fun position => ?_, hpairs.cons hexpands⟩
        rcases position with _ | ⟨_ | j, rest⟩
        · rfl
        · exact hclear rest
        · exact hrest (j :: rest)

end First

namespace Action

/-- The steps of a sequence as written; another action has none. -/
def stepValues (action : Action) : List Value :=
  match action.form, action.parameter? "steps" with
  | .sequence, some (.literal (.array steps)) => steps
  | _, _ => []

/-- The steps of a sequence, or its fault. -/
theorem steps_cases {action : Action} (h : action.form = .sequence) :
    (∃ error, action.steps = .error error ∧ action.fault? = some error ∧ action.stepValues = []) ∨
    (action.steps = .ok action.stepValues ∧ action.fault? = none) := by
  rw [fault?, h, Action.steps, stepValues, h]
  simp only [Demand.ofKind, List.findSome?_cons, List.findSome?_nil, Demand.fault?, Demand.array]
  rcases action.parameter? "steps" with _ | ⟨value | text⟩
  · exact .inl ⟨_, rfl, rfl, rfl⟩
  · cases value with
    | array items => exact .inr ⟨rfl, rfl⟩
    | _ => exact .inl ⟨_, rfl, rfl, rfl⟩
  · exact .inl ⟨_, rfl, rfl, rfl⟩

theorem stepValues_eq_nil {action : Action} (h : action.form ≠ .sequence) :
    action.stepValues = [] := by
  rw [stepValues]
  split
  · next hsequence _ => exact absurd hsequence h
  · rfl

/-- What a step of an action stands for: the action of this name, or an action in place. -/
def stepPlace (action : Action) (table : ActionTable) : Value → Place
  | .string id => .ofName table id
  | step =>
    match ofValue? step with
    | some inline => .known inline
    | none => .unsuitable (action.unsuitable "steps" "action" (.literal step))

end Action

namespace Place

variable {table : ActionTable} {limit : Nat}

/-- The places of the steps at a place. -/
def steps (table : ActionTable) : Place → List Place
  | .known action => action.stepValues.map (action.stepPlace table)
  | _ => []

/-- The place at a position. -/
def at? (table : ActionTable) (place : Place) : List Nat → Option Place
  | [] => some place
  | i :: rest => (place.steps table)[i]?.bind fun inner => inner.at? table rest

/-- What is wrong at a place on a level, its steps left aside. -/
def fault? (limit level : Nat) : Place → Option ActionError
  | .known action => if limit ≤ level then some (.depthExceeded limit) else action.fault?
  | .unknown => none
  | .unsuitable error => some error

/-- What is wrong at a position, for a place on a level. -/
def faultAt? (table : ActionTable) (limit level : Nat) (place : Place) (position : List Nat) :
    Option ActionError :=
  (place.at? table position).bind fun inner => inner.fault? limit (level + position.length)

/-- The full expansion of a place. A sequence has one action for each of its steps, in their
order. -/
inductive Expands (table : ActionTable) : Place → ReadyAction → Prop where
  | unknown : Expands table .unknown .noop
  | single {action : Action} (h : action.form ≠ .sequence) :
    Expands table (.known action) (.mk action.form action.arguments)
  | sequence {action : Action} {results : List ReadyAction} (h : action.form = .sequence)
    (hlength : results.length = action.stepValues.length)
    (hsteps : ∀ (i : Nat) step result, action.stepValues[i]? = some step →
      results[i]? = some result → Expands table (action.stepPlace table step) result) :
    Expands table (.known action) (.mk .sequence [("steps", .actions results)])

/-- One place is that of a step of the other. -/
def Under (table : ActionTable) (inner place : Place) : Prop :=
  inner ∈ place.steps table

/-- A place has only one full expansion. -/
theorem Expands.unique {place : Place} {ready ready' : ReadyAction}
    (h : Expands table place ready) (h' : Expands table place ready') : ready = ready' := by
  induction h generalizing ready' with
  | unknown => cases h'; rfl
  | single hform =>
    cases h' with
    | single => rfl
    | sequence hform' => exact absurd hform' hform
  | @sequence action results hform hlength hsteps ih =>
    cases h' with
    | single hform' => exact absurd hform hform'
    | @sequence _ results' _ hlength' hsteps' =>
      have heq : results = results' := by
        refine List.ext_getElem (hlength.trans hlength'.symm) fun i hi hi' => ?_
        have hstep := List.getElem?_eq_getElem (hlength ▸ hi)
        exact ih i _ _ hstep (List.getElem?_eq_getElem hi)
          (hsteps' i _ _ hstep (List.getElem?_eq_getElem hi'))
      rw [heq]

/-- Below a place with a full expansion the steps come to an end. -/
theorem Expands.acc {place : Place} {ready : ReadyAction} (h : Expands table place ready) :
    Acc (Under table) place := by
  induction h with
  | unknown => exact ⟨_, fun inner hinner => nomatch hinner⟩
  | @single action hform =>
    refine ⟨_, fun inner hinner => ?_⟩
    rw [Under, steps, Action.stepValues_eq_nil hform] at hinner
    cases hinner
  | @sequence action results hform hlength hsteps ih =>
    refine ⟨_, fun inner hinner => ?_⟩
    obtain ⟨step, hstep, rfl⟩ := List.mem_map.mp (show inner ∈ List.map _ _ from hinner)
    obtain ⟨i, hi, rfl⟩ := List.getElem_of_mem hstep
    exact ih i _ results[i] (List.getElem?_eq_getElem hi) (List.getElem?_eq_getElem (hlength ▸ hi))

/-- A place from which a circle is reached has no full expansion. -/
theorem Expands.not_circle {place inner : Place} {ready : ReadyAction}
    (h : Expands table place ready) (hreach : Relation.ReflTransGen (Under table) inner place) :
    ¬ Relation.TransGen (Under table) inner inner := by
  intro hcircle
  have hinner : Acc (Relation.TransGen (Under table)) inner := by
    rcases Relation.reflTransGen_iff_eq_or_transGen.mp hreach with rfl | hbelow
    · exact h.acc.transGen
    · exact h.acc.transGen.inv hbelow
  induction hinner with
  | intro inner _ ih => exact ih inner hcircle (.trans hcircle.to_reflTransGen hreach) hcircle

/-! ### Places that are made ready -/

/-- What is made of a place with so many levels left. -/
def ready (table : ActionTable) (limit levels : Nat) : Place → Except ActionError ReadyAction
  | .known action => ActionRules.builtin.readyWithin table limit levels action
  | .unknown => .ok .noop
  | .unsuitable error => .error error

/-- What is wrong below a place is what is wrong among its steps. -/
theorem faultAt?_cons (level : Nat) (place : Place) (i : Nat) (rest : List Nat) :
    place.faultAt? table limit level (i :: rest) =
      faultsAmong (faultAt? table limit (level + 1)) (place.steps table) (i :: rest) := by
  rw [faultAt?, at?, faultsAmong, Option.bind_assoc, List.length_cons,
    Nat.add_comm rest.length, ← Nat.add_assoc]
  rfl

/-- The action of a step is that of its place. -/
theorem ofStep_eq (table : ActionTable) (action : Action) (step : Value) :
    action.ofStep table step =
      match action.stepPlace table step with
      | .known inner => .ok (some inner)
      | .unknown => .ok none
      | .unsuitable error => .error error := by
  cases step with
  | string id =>
    simp only [Action.ofStep, Action.stepPlace, ofName]
    cases Fields.get? table id <;> rfl
  | object fields =>
    simp only [Action.ofStep, Action.stepPlace]
    cases Action.ofValue? (.object fields) <;> rfl
  | double d =>
    simp only [Action.ofStep, Action.stepPlace, Action.ofValue?, Value.finite]
    cases d.isFinite <;> rfl
  | _ => rfl

/-- The steps of a sequence are made ready place by place. -/
theorem readySteps_eq (levels : Nat) (action : Action) (steps : List Value) :
    ActionRules.readySteps table (ActionRules.builtin.readyWithin table limit levels) action steps =
      (steps.map (action.stepPlace table)).mapM (ready table limit levels) := by
  rw [ActionRules.readySteps, List.mapM_map]
  congr 1
  funext step
  rw [ofStep_eq, Function.comp_apply]
  cases action.stepPlace table step <;> rw [ready] <;> rfl

theorem readyWithin_of_sequence {action : Action} (h : action.form = .sequence) (levels : Nat) :
    ActionRules.builtin.readyWithin table limit (levels + 1) action =
      match action.fault? with
      | some error => .error error
      | none => (((Place.known action).steps table).mapM (ready table limit levels)).map
        fun results => .mk .sequence [("steps", .actions results)] := by
  rw [ActionRules.readyWithin, ActionRules.ruleFor_builtin, h]
  rcases Action.steps_cases h with ⟨error, hsteps, hfault, -⟩ | ⟨hsteps, hfault⟩
  · simp only [ActionRule.ofKind, hsteps, hfault]
    rfl
  · simp only [ActionRule.ofKind, hsteps, hfault, steps]
    change (ActionRules.readySteps _ _ _ _ >>= fun results => _) = _
    rw [readySteps_eq]
    generalize (action.stepValues.map (action.stepPlace table)).mapM (ready table limit levels) =
      results
    cases results <;> rfl

/-- An action that is not too deep is settled by its own fault and by its steps. -/
theorem settles_known {action : Action} {level : Nat} {result : Except ActionError ReadyAction}
    (hlevel : level < limit)
    (hfault : ∀ error, action.fault? = some error → result = .error error)
    (hsteps : action.fault? = none →
      Settles (faultsAmong (faultAt? table limit (level + 1)) ((Place.known action).steps table))
        (Expands table (.known action)) result) :
    Settles (faultAt? table limit level (.known action)) (Expands table (.known action))
      result := by
  have hnil : faultAt? table limit level (.known action) [] = action.fault? :=
    if_neg (Nat.not_le.mpr hlevel)
  cases hown : action.fault? with
  | some error =>
    rw [hfault error hown]
    exact .of_nil (hnil.trans hown)
  | none =>
    -- The place itself and the list of its steps have both nothing wrong at the empty position.
    have heq : faultAt? table limit level (.known action) =
        faultsAmong (faultAt? table limit (level + 1)) ((Place.known action).steps table) := by
      funext position
      cases position with
      | nil => exact hnil.trans hown
      | cons i rest => exact faultAt?_cons level _ i rest
    rw [heq]
    exact hsteps hown

/-- What is made of a place is the error of its first wrong place, or its full expansion. -/
theorem settles_ready (levels level : Nat) (hlimit : level + levels = limit) (place : Place) :
    Settles (place.faultAt? table limit level) (Expands table place)
      (place.ready table limit levels) := by
  induction levels generalizing level place with
  | zero =>
    cases place with
    | known action => exact .of_nil (if_pos (Nat.le_of_eq hlimit.symm))
    | unknown => exact ⟨fun position => by cases position <;> rfl, .unknown⟩
    | unsuitable error => exact .of_nil rfl
  | succ levels ih =>
    cases place with
    | unknown => exact ⟨fun position => by cases position <;> rfl, .unknown⟩
    | unsuitable error => exact .of_nil rfl
    | known action =>
      rw [ready]
      by_cases hform : action.form = .sequence
      · rw [readyWithin_of_sequence hform]
        refine settles_known (by omega) (fun error hown => by rw [hown]) fun hown => ?_
        rw [hown]
        refine (settles_mapM _ fun inner _ => ih (level + 1) (by omega) inner).map ?_
        rintro results ⟨hlength, hpairs⟩
        refine .sequence hform (hlength.trans (List.length_map _)) fun i step result hstep => ?_
        refine hpairs i _ result ?_
        rw [steps, List.getElem?_map, hstep, Option.map_some]
      · rw [ActionRules.readyWithin_of_form_ne _ _ _ hform, Action.settled]
        refine settles_known (by omega) (fun error hown => by rw [hown]) fun hown => ?_
        rw [hown, steps, Action.stepValues_eq_nil hform]
        exact ⟨fun position => by cases position <;> rfl, .single hform⟩

end Place

/-! ### Tables -/

/-- What is wrong at a position of the walk through an action. -/
def Action.faultAt? (table : ActionTable) (limit : Nat) (action : Action) :
    List Nat → Option ActionError :=
  (Place.known action).faultAt? table limit 0

namespace ActionRules

variable {rules : ActionRules} {table : ActionTable} {limit : Nat} {id : String}

/-- There is an entry for each action of a table. -/
theorem names_readyAll (rules : ActionRules) (table : ActionTable) (limit : Nat) :
    (rules.readyAll table limit).1.map Prod.fst = table.map Prod.fst := by
  rw [readyAll, List.map_map, List.map_map]
  rfl

/-- What an entry of a table is made of. -/
theorem get?_entries (rules : ActionRules) (table : ActionTable) (limit : Nat) (id : String) :
    Fields.get? (rules.readyAll table limit).1 id = (Fields.get? table id).map fun action =>
      match rules.ready table limit action with
      | .ok ready => ready
      | .error _ => .noop := by
  have hmap := Fields.get?_map (fun action =>
    match rules.ready table limit action with
    | .ok ready => ready
    | .error _ => ReadyAction.noop) table id
  rw [readyAll, ← hmap]
  simp only [List.map_map]
  rfl

/-- The failures are in the order of the table. -/
theorem sorted_failures (h : Fields.Sorted table) :
    Fields.Sorted (rules.readyAll table limit).2 := by
  have hresults : Fields.Sorted (table.map fun entry =>
      (entry.1, rules.ready table limit entry.2)) := List.pairwise_map.mpr h
  refine List.Pairwise.filterMap _ ?_ hresults
  rintro ⟨id, result⟩ ⟨id', result'⟩ hlt failure hfailure failure' hfailure'
  cases result with
  | ok ready => cases hfailure
  | error error =>
    cases result' with
    | ok ready => cases hfailure'
    | error error' =>
      cases hfailure
      cases hfailure'
      exact hlt

/-- The failures are the errors of the actions of a table. -/
theorem get?_failures_eq_some_iff (h : Fields.Sorted table) {error : ActionError} :
    Fields.get? (rules.readyAll table limit).2 id = some error ↔
      ∃ action, Fields.get? table id = some action ∧
        rules.ready table limit action = .error error := by
  constructor
  · intro hget
    obtain ⟨⟨_, result⟩, hresult, hfailure⟩ := List.mem_filterMap.mp (Fields.mem_of_get? hget)
    obtain ⟨⟨_, action⟩, haction, heq⟩ := List.mem_map.mp hresult
    cases heq
    cases hready : rules.ready table limit action with
    | ok ready =>
      rw [hready] at hfailure
      cases hfailure
    | error error' =>
      rw [hready] at hfailure
      cases hfailure
      exact ⟨action, h.get?_of_mem haction, hready⟩
  · rintro ⟨action, haction, hready⟩
    have hresult : (id, Except.error error) ∈
        table.map fun entry => (entry.1, rules.ready table limit entry.2) :=
      List.mem_map.mpr ⟨(id, action), Fields.mem_of_get? haction, congrArg (id, ·) hready⟩
    have hfailure : (id, error) ∈ (rules.readyAll table limit).2 :=
      List.mem_filterMap.mpr ⟨_, hresult, rfl⟩
    exact (sorted_failures h).get?_of_mem hfailure

/-- To make a table ready is exact, also with circles: an action with a wrong place on its walk
does nothing and is listed with the error of the first such place, in the order of the names; any
other action is not listed and becomes its full expansion. From an action with a full expansion no
circle is reached. -/
theorem readyAll_exact (htable : Fields.Sorted table) (limit : Nat) :
    let entries := (builtin.readyAll table limit).1
    let failures := (builtin.readyAll table limit).2
    entries.map Prod.fst = table.map Prod.fst ∧
    Fields.Sorted failures ∧
    (∀ id, (Fields.get? failures id).isSome → (Fields.get? table id).isSome) ∧
    ∀ id action, Fields.get? table id = some action →
      ((∃ position, (action.faultAt? table limit position).isSome) →
        ∃ error, IsFirst (action.faultAt? table limit) error ∧
          Fields.get? failures id = some error ∧ Fields.get? entries id = some .noop) ∧
      ((∀ position, action.faultAt? table limit position = none) →
        Fields.get? failures id = none ∧ ∃ ready, Fields.get? entries id = some ready ∧
          Place.Expands table (.known action) ready) ∧
      ∀ inner, Relation.ReflTransGen (Place.Under table) inner (.known action) →
        Relation.TransGen (Place.Under table) inner inner →
        ∃ position, (action.faultAt? table limit position).isSome := by
  refine ⟨names_readyAll .., sorted_failures htable, fun id hid => ?_, fun id action haction => ?_⟩
  · obtain ⟨error, herror⟩ := Option.isSome_iff_exists.mp hid
    obtain ⟨action, haction, -⟩ := (get?_failures_eq_some_iff htable).mp herror
    exact Option.isSome_iff_exists.mpr ⟨action, haction⟩
  have hentry := get?_entries builtin table limit id
  have hsettles : Settles (action.faultAt? table limit) (Place.Expands table (.known action))
      (builtin.ready table limit action) :=
    Place.settles_ready limit 0 (Nat.zero_add limit) (.known action)
  rw [haction, Option.map_some] at hentry
  cases hready : builtin.ready table limit action with
  | error error =>
    rw [hready] at hentry hsettles
    have hfailure := (get?_failures_eq_some_iff htable).mpr ⟨action, haction, hready⟩
    obtain ⟨position, hat, hbefore⟩ := hsettles
    have hwrong : (action.faultAt? table limit position).isSome := hat ▸ rfl
    refine ⟨fun _ => ⟨error, ⟨position, hat, hbefore⟩, hfailure, hentry⟩, fun hclear => ?_,
      fun _ _ _ => ⟨position, hwrong⟩⟩
    rw [hclear] at hat
    cases hat
  | ok ready =>
    rw [hready] at hentry hsettles
    obtain ⟨hclear, hexpands⟩ := hsettles
    have hlisted : Fields.get? (builtin.readyAll table limit).2 id = none := by
      refine Option.eq_none_iff_forall_ne_some.mpr fun error herror => ?_
      obtain ⟨other, hother, hfails⟩ := (get?_failures_eq_some_iff htable).mp herror
      rw [haction, Option.some.injEq] at hother
      rw [← hother, hready] at hfails
      cases hfails
    refine ⟨fun ⟨position, hwrong⟩ => ?_, fun _ => ⟨hlisted, ready, hentry, hexpands⟩,
      fun inner hreach hcircle => absurd hcircle (hexpands.not_circle hreach)⟩
    rw [hclear] at hwrong
    cases hwrong

end ActionRules

/-- A table with an action that names itself after another one. -/
def ActionTable.circle : ActionTable :=
  let sequence (steps : List String) : Action :=
    (Action.ofKind .sequence).addParameter "steps" (.literal (.array (steps.map .string)))
  [("loop", sequence ["main", "loop"]), ("main", sequence ["missing"])]

/-- With three levels, the circle ends at its third turn. -/
theorem ActionRules.readyAll_exact_circle :
    Fields.Sorted ActionTable.circle ∧
      ∃ action, Fields.get? ActionTable.circle "loop" = some action ∧ ∃ error,
        IsFirst (action.faultAt? ActionTable.circle 3) error ∧
        Fields.get? (builtin.readyAll ActionTable.circle 3).2 "loop" = some error ∧
        Fields.get? (builtin.readyAll ActionTable.circle 3).1 "loop" = some .noop := by
  have hsorted : Fields.Sorted ActionTable.circle := by
    rw [Fields.Sorted]
    decide +kernel
  refine ⟨hsorted, _, rfl, ?_⟩
  obtain ⟨-, -, -, hexact⟩ := readyAll_exact hsorted 3
  refine (hexact "loop" _ rfl).1 ⟨[1, 1, 1], ?_⟩
  decide +kernel

end ScreenDoc
