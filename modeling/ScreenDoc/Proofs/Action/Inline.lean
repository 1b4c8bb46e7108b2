import ScreenDoc.Proofs.Action.Decoding
import ScreenDoc.Proofs.Action.Walk

/-!
# Steps by name and in place

A step of a sequence is the name of an action or the action itself. It does not matter which: what
is made of a sequence is the same, an error or a success, and on any level.

## Main definitions

- `Action.withStep` — an action with another step
- `Action.Inlines` — an action with the name of one of its steps replaced by the action itself

## Main results

- `Place.ready_congr` — tables whose actions become the same make the same of every place
- `Place.ready_mono` — what becomes ready within some levels becomes the same within more
- `ActionRules.steps_interchangeable` — a name and the action of this name are interchangeable
-/

namespace ScreenDoc

variable {table table' : ActionTable} {limit : Nat} {action action' : Action}

namespace Action

/-- An action with another value as one of its steps. -/
def withStep (action : Action) (i : Nat) (value : Value) : Action :=
  action.addParameter "steps" (.literal (.array (action.stepValues.set i value)))

/-- An action with one of its steps written in place instead of by name. The step may also be one
of a step that is written in place. -/
inductive Inlines (table : ActionTable) : Action → Action → Prop where
  /-- The value is that of the JSON from which the action of this name is read. -/
  | here {action entry : Action} {i : Nat} {id : String} {json : Json} {value : Value}
    (hstep : action.stepValues[i]? = some (.string id)) (hentry : Fields.get? table id = some entry)
    (hproper : json.IsProper) (hjson : ofJson? json = some entry)
    (hvalue : json.value? = some value) : Inlines table action (action.withStep i value)
  | inside {action inner inner' : Action} {i : Nat} {step value : Value}
    (hstep : action.stepValues[i]? = some step) (hinner : ofValue? step = some inner)
    (h : Inlines table inner inner') (hvalue : ofValue? value = some inner') :
    Inlines table action (action.withStep i value)

/-- Only a sequence without a fault has steps. -/
theorem of_stepValues_getElem? {i : Nat} {step : Value} (h : action.stepValues[i]? = some step) :
    action.form = .sequence ∧ action.fault? = none := by
  by_cases hform : action.form = .sequence
  · rcases steps_cases hform with ⟨error, -, -, hnil⟩ | ⟨-, hfault⟩
    · rw [hnil] at h
      cases h
    · exact ⟨hform, hfault⟩
  · rw [stepValues_eq_nil hform] at h
    cases h

theorem stepValues_withStep (hform : action.form = .sequence) (i : Nat) (value : Value) :
    (action.withStep i value).stepValues = action.stepValues.set i value := by
  have hsame : (action.withStep i value).form = .sequence := hform
  have hsteps : (action.withStep i value).parameter? "steps" =
      some (.literal (.array (action.stepValues.set i value))) := by
    rw [parameter?, withStep, addParameter, Fields.get?_insert, if_pos rfl]
  rw [stepValues, hsame, hsteps]

theorem stepPlace_withStep (table : ActionTable) (i : Nat) (value : Value) :
    (action.withStep i value).stepPlace table = action.stepPlace table := by
  funext step
  cases step <;> rfl

/-- A value from which an action is read stands for this action. -/
theorem stepPlace_of_ofValue? (table : ActionTable) {inner : Action} {value : Value}
    (h : ofValue? value = some inner) : action.stepPlace table value = .known inner := by
  cases value with
  | string s => cases h
  | _ =>
    rw [stepPlace, h]
    intro s hs
    cases hs

end Action

section Pairs

variable {ε α β : Type} {f : α → Except ε β} {xs : List α} {results : List β}

theorem pairs_of_mapM (h : xs.mapM f = .ok results) :
    Pairs (fun x result => f x = .ok result) xs results := by
  induction xs generalizing results with
  | nil =>
    cases h
    exact ⟨rfl, fun i x result hx => nomatch hx⟩
  | cons x xs ih =>
    rw [List.mapM_cons] at h
    cases hx : f x with
    | error error =>
      rw [hx] at h
      cases h
    | ok result =>
      cases hxs : xs.mapM f with
      | error error =>
        rw [hx, hxs] at h
        cases h
      | ok rest =>
        rw [hx, hxs] at h
        cases h
        exact (ih hxs).cons hx

theorem mapM_of_pairs (h : Pairs (fun x result => f x = .ok result) xs results) :
    xs.mapM f = .ok results := by
  induction xs generalizing results with
  | nil =>
    rw [List.eq_nil_of_length_eq_zero h.1]
    rfl
  | cons x xs ih =>
    obtain ⟨hlength, hpairs⟩ := h
    cases results with
    | nil => cases hlength
    | cons result results =>
      have hx : f x = .ok result := hpairs 0 x result rfl rfl
      have hxs : xs.mapM f = .ok results :=
        ih ⟨Nat.succ.inj hlength, fun i y other hy hother => hpairs (i + 1) y other hy hother⟩
      rw [List.mapM_cons, hx, hxs]
      rfl

/-- What is read from the members is read from them in another way. -/
theorem mapM_eq_ok_of_imp {g : α → Except ε β} (h : xs.mapM f = .ok results)
    (hfg : ∀ x result, f x = .ok result → g x = .ok result) : xs.mapM g = .ok results := by
  obtain ⟨hlength, hpairs⟩ := pairs_of_mapM h
  refine mapM_of_pairs ⟨hlength, fun i x result hx hresult => ?_⟩
  exact hfg x result (hpairs i x result hx hresult)

end Pairs

namespace Place

/-- A sequence becomes ready if all its steps do. -/
theorem readyWithin_eq_ok_iff (hform : action.form = .sequence) {levels : Nat}
    {ready : ReadyAction} :
    ActionRules.builtin.readyWithin table limit (levels + 1) action = .ok ready ↔
      action.fault? = none ∧ ∃ results,
        ((known action).steps table).mapM (Place.ready table limit levels) = .ok results ∧
        ready = .mk .sequence [("steps", .actions results)] := by
  rw [readyWithin_of_sequence hform]
  cases action.fault? with
  | some error => exact ⟨nofun, fun h => nomatch h.1⟩
  | none =>
    cases ((known action).steps table).mapM (Place.ready table limit levels) with
    | error error => exact ⟨nofun, fun ⟨_, _, hresults, _⟩ => nomatch hresults⟩
    | ok results =>
      constructor
      · intro h
        exact ⟨rfl, results, rfl, (Except.ok.inj h).symm⟩
      · rintro ⟨-, _, hresults, rfl⟩
        cases hresults
        rfl

/-- Within more levels the same becomes of a place. -/
theorem ready_mono (place : Place) {levels levels' : Nat} (hle : levels ≤ levels')
    {ready : ReadyAction} (h : place.ready table limit levels = .ok ready) :
    place.ready table limit levels' = .ok ready := by
  induction levels generalizing levels' place ready with
  | zero =>
    cases place with
    | unknown => exact h
    | _ => cases h
  | succ levels ih =>
    obtain ⟨levels', rfl⟩ : ∃ n, levels' = n + 1 := ⟨levels' - 1, by omega⟩
    cases place with
    | unknown => exact h
    | unsuitable error => cases h
    | known action =>
      rw [Place.ready] at h ⊢
      by_cases hform : action.form = .sequence
      · rw [readyWithin_eq_ok_iff hform] at h ⊢
        obtain ⟨hfault, results, hresults, rfl⟩ := h
        exact ⟨hfault, results, mapM_eq_ok_of_imp hresults fun inner _ =>
          ih inner (Nat.le_of_succ_le_succ hle), rfl⟩
      · rw [ActionRules.readyWithin_of_form_ne _ _ _ hform] at h ⊢
        exact h

/-- Tables whose actions become the same make the same of every place. -/
theorem ready_congr
    (h : ∀ id levels, (ofName table' id).ready table limit levels =
      (ofName table id).ready table limit levels) (levels : Nat) (place : Place) :
    place.ready table' limit levels = place.ready table limit levels := by
  induction levels generalizing place with
  | zero => cases place <;> rfl
  | succ levels ih =>
    cases place with
    | known action =>
      rw [ready, ready]
      by_cases hform : action.form = .sequence
      · have hstep : ∀ step, (action.stepPlace table' step).ready table' limit levels =
            (action.stepPlace table step).ready table limit levels := by
          intro step
          rw [ih]
          cases step with
          | string id => exact h id levels
          | _ => rfl
        have hsteps : ((known action).steps table').mapM (ready table' limit levels) =
            ((known action).steps table).mapM (ready table limit levels) := by
          rw [steps, steps, List.mapM_map, List.mapM_map]
          exact congrArg (action.stepValues.mapM ·) (funext hstep)
        rw [readyWithin_of_sequence hform, readyWithin_of_sequence hform, hsteps]
      · rw [ActionRules.readyWithin_of_form_ne _ _ _ hform,
          ActionRules.readyWithin_of_form_ne _ _ _ hform]
    | _ => rfl

end Place

namespace ActionRules

theorem mapM_set {ε α β : Type} {f : α → Except ε β} {xs : List α} {i : Nat} {old new : α}
    (hold : xs[i]? = some old) (hsame : f new = f old) : (xs.set i new).mapM f = xs.mapM f := by
  obtain ⟨hi, rfl⟩ := List.getElem?_eq_some_iff.mp hold
  have hmap : (xs.set i new).map f = xs.map f := by
    rw [List.map_set, hsame, ← List.map_set, List.set_getElem_self]
  have hread (ys : List α) : ys.mapM f = (ys.map f).mapM id := by
    rw [List.mapM_map]
    rfl
  rw [hread, hmap, ← hread]

/-- Another step of which the same becomes does not change what becomes of an action. -/
theorem readyWithin_withStep {i : Nat} {old new : Value}
    (hold : action.stepValues[i]? = some old)
    (hsame : ∀ levels, (action.stepPlace table new).ready table limit levels =
      (action.stepPlace table old).ready table limit levels) (levels : Nat) :
    builtin.readyWithin table limit levels (action.withStep i new) =
      builtin.readyWithin table limit levels action := by
  cases levels with
  | zero => rfl
  | succ levels =>
    obtain ⟨hform, hfault⟩ := Action.of_stepValues_getElem? hold
    have hsteps := Action.stepValues_withStep hform i new
    have hnew : (action.withStep i new).stepValues[i]? = some new := by
      rw [hsteps]
      exact List.getElem?_set_self (List.getElem?_eq_some_iff.mp hold).1
    obtain ⟨hform', hfault'⟩ := Action.of_stepValues_getElem? hnew
    rw [Place.readyWithin_of_sequence hform', Place.readyWithin_of_sequence hform, hfault', hfault]
    simp only [Place.steps, List.mapM_map, hsteps, Action.stepPlace_withStep]
    rw [mapM_set hold (hsame levels)]

/-- A step in place instead of by name does not change what becomes of an action. -/
theorem readyWithin_inlines (h : Action.Inlines table action action') (levels : Nat) :
    builtin.readyWithin table limit levels action' =
      builtin.readyWithin table limit levels action := by
  induction h generalizing levels with
  | @here action entry i id json value hstep hentry hproper hjson hvalue =>
    obtain ⟨value', hvalue', hread⟩ := Action.ofValue?_of_ofJson? hproper hjson
    cases hvalue.symm.trans hvalue'
    refine readyWithin_withStep hstep (fun levels => ?_) levels
    rw [Action.stepPlace_of_ofValue? table hread, Action.stepPlace, Place.ofName, hentry]
  | inside hstep hinner _ hvalue ih =>
    refine readyWithin_withStep hstep (fun levels => ?_) levels
    rw [Action.stepPlace_of_ofValue? table hvalue, Action.stepPlace_of_ofValue? table hinner]
    exact ih levels

/-- Nor does it change what becomes of any action if it is done inside the table. -/
theorem readyWithin_insert_inlines {key : String} (haction : Fields.get? table key = some action)
    (h : Action.Inlines table action action') (levels : Nat) (other : Action) :
    builtin.readyWithin (Fields.insert table key action') limit levels other =
      builtin.readyWithin table limit levels other := by
  refine Place.ready_congr (fun id levels => ?_) levels (.known other)
  rw [Place.ofName, Place.ofName, Fields.get?_insert]
  by_cases hid : key = id
  · rw [if_pos hid, ← hid, haction]
    exact readyWithin_inlines h levels
  · rw [if_neg hid]

/-- Nor does it change the entries and the failures. -/
theorem readyAll_insert_inlines (htable : Fields.Sorted table) {key : String}
    (haction : Fields.get? table key = some action) (h : Action.Inlines table action action') :
    builtin.readyAll (Fields.insert table key action') limit = builtin.readyAll table limit := by
  have hself : Fields.insert table key action = table := by
    refine (htable.insert key action).ext htable fun id => ?_
    rw [Fields.get?_insert]
    split
    · next hid => rw [← hid, haction]
    · rfl
  have hready : builtin.ready (Fields.insert table key action') limit = builtin.ready table limit :=
    funext fun other => readyWithin_insert_inlines haction h limit other
  have hsame : builtin.ready table limit action' = builtin.ready table limit action :=
    readyWithin_inlines h limit
  have hresults : (Fields.insert table key action').map
      (fun entry => (entry.1, builtin.ready table limit entry.2)) =
      table.map fun entry => (entry.1, builtin.ready table limit entry.2) := by
    refine (Fields.map_insert (builtin.ready table limit) table key action').trans ?_
    rw [hsame, ← Fields.map_insert, hself]
  simp only [readyAll, hready, hresults]

/-- In place or by name, the steps of a sequence are the same: what becomes of the sequence on any
level, and what becomes of a table that has the sequence, does not change if a step by name is
written in place. And where a sequence becomes ready, each step by name is the entry of this
name. -/
theorem steps_interchangeable (htable : Fields.Sorted table) (limit : Nat) :
    (∀ action action', Action.Inlines table action action' →
      (∀ levels, builtin.readyWithin table limit levels action' =
        builtin.readyWithin table limit levels action) ∧
      ∀ key, Fields.get? table key = some action →
        builtin.readyAll (Fields.insert table key action') limit = builtin.readyAll table limit ∧
        ∀ levels other, builtin.readyWithin (Fields.insert table key action') limit levels other =
          builtin.readyWithin table limit levels other) ∧
    ∀ levels ≤ limit, ∀ action ready, action.form = .sequence →
      builtin.readyWithin table limit levels action = .ok ready →
      ∃ results, ready = .mk .sequence [("steps", .actions results)] ∧
        results.length = action.stepValues.length ∧
        ∀ (i : Nat) id, action.stepValues[i]? = some (.string id) →
          (Fields.get? table id).isSome →
          results[i]? = Fields.get? (builtin.readyAll table limit).1 id := by
  constructor
  · intro action action' h
    exact ⟨fun levels => readyWithin_inlines h levels, fun key haction =>
      ⟨readyAll_insert_inlines htable haction h, fun levels other =>
        readyWithin_insert_inlines haction h levels other⟩⟩
  · intro levels hlevels action ready hform hready
    cases levels with
    | zero => cases hready
    | succ levels =>
      obtain ⟨-, results, hresults, rfl⟩ := (Place.readyWithin_eq_ok_iff hform).mp hready
      obtain ⟨hlength, hpairs⟩ := pairs_of_mapM hresults
      rw [Place.steps, List.length_map] at hlength
      refine ⟨results, rfl, hlength, fun i id hstep hid => ?_⟩
      obtain ⟨entry, hentry⟩ := Option.isSome_iff_exists.mp hid
      have hi : i < results.length := hlength ▸ (List.getElem?_eq_some_iff.mp hstep).1
      have hat : ((Place.known action).steps table)[i]? = some (.known entry) := by
        rw [Place.steps, List.getElem?_map, hstep, Option.map_some, Action.stepPlace,
          Place.ofName, hentry]
      -- The entry of the table has all levels, the step only those that are left.
      have hfull : builtin.ready table limit entry = .ok results[i] :=
        Place.ready_mono (.known entry) (by omega)
          (hpairs i _ _ hat (List.getElem?_eq_getElem hi))
      rw [get?_entries, hentry, Option.map_some, hfull, List.getElem?_eq_getElem hi]

end ActionRules

/-- A table with a sequence whose only step is by name. -/
def ActionTable.farewell : ActionTable :=
  [("close", .ofKind .dismiss),
    ("leave", (Action.ofKind .sequence).addParameter "steps" (.literal (.array [.string "close"])))]

/-- The only step may as well be written in place. -/
theorem ActionRules.steps_interchangeable_farewell :
    Fields.Sorted ActionTable.farewell ∧
    ∃ action action', Fields.get? ActionTable.farewell "leave" = some action ∧
      Action.Inlines ActionTable.farewell action action' ∧
      builtin.readyAll (Fields.insert ActionTable.farewell "leave" action') 2 =
        builtin.readyAll ActionTable.farewell 2 := by
  have hsorted : Fields.Sorted ActionTable.farewell := by
    rw [Fields.Sorted]
    decide +kernel
  have hform : (ActionTable.farewell[1].2).form = .sequence := by decide +kernel
  have hstep : (ActionTable.farewell[1].2).stepValues[0]? = some (.string "close") := by
    rw [Action.stepValues, hform]
    rfl
  have hjson : Action.ofJson? (Json.ofPairs [("type", .scalar (.string "dismiss"))]) =
      some (.ofKind .dismiss) := by
    have hkind : Action.Kind.ofName "dismiss" = .dismiss := by decide +kernel
    refine Action.ofJson?_ofPairs_eq_some_iff.mpr ⟨"dismiss", [], by simp, by simp, ?_⟩
    rw [hkind]
    rfl
  have hproper : (Json.ofPairs [("type", .scalar (.string "dismiss"))]).IsProper := by
    refine .object fun member hmember => ?_
    rw [List.mem_singleton.mp hmember]
    exact .scalar (.string _)
  have hinlines := Action.Inlines.here hstep
    (show Fields.get? ActionTable.farewell "close" = some (.ofKind .dismiss) from rfl)
    hproper hjson
    (show Json.value? _ = some (.object [("type", .string "dismiss")]) from rfl)
  exact ⟨hsorted, _, _, rfl, hinlines,
    (((steps_interchangeable hsorted 2).1 _ _ hinlines).2 "leave" rfl).1⟩

end ScreenDoc
